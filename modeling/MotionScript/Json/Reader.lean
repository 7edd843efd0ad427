import MotionScript.Json.Value
import MotionScript.Text.HexDigit

/-!
# Reading JSON

A reader takes a value from the head of a text and gives the rest. Blanks are the space, the tab and
the two line ends. Numbers have no leading zero, and a control character in a string must be
escaped. `parse?` asks that the value is the whole text.
-/
namespace MotionScript.Json
open Number

def isGap (c : Char) : Bool := c == ' ' || c == '\n' || c == '\t' || c == '\r'

def skipGap (text : List Char) : List Char := text.dropWhile isGap

def hexUnit? (a b c d : Char) : Option Nat := Text.baseToNat? 16 [a, b, c, d]

def shortEscape? : Char → Option Char
  | '"' => some '"'
  | '\\' => some '\\'
  | '/' => some '/'
  | 'b' => some '\x08'
  | 'f' => some '\x0c'
  | 'n' => some '\n'
  | 'r' => some '\r'
  | 't' => some '\t'
  | _ => none

def readString? : List Char → Option (List Piece × List Char)
  | '"' :: rest => some ([], rest)
  | '\\' :: 'u' :: a :: b :: c :: d :: rest => do
    let unit ← hexUnit? a b c d
    let (pieces, rest) ← readString? rest
    return (.unit unit :: pieces, rest)
  | '\\' :: letter :: rest => do
    let c ← shortEscape? letter
    let (pieces, rest) ← readString? rest
    return (.char c :: pieces, rest)
  | c :: rest =>
    if c.toNat < 0x20 then none
    else do
      let (pieces, rest) ← readString? rest
      return (.char c :: pieces, rest)
  | [] => none

def readDigits? (text : List Char) : Option (List Char × List Char) :=
  match text.takeWhile Char.isDigit with
  | [] => none
  | digits => some (digits, text.dropWhile Char.isDigit)

/-- The digits before the point: a zero alone, or digits that do not begin with one. -/
def readWhole? (text : List Char) : Option (List Char × List Char) := do
  let (digits, rest) ← readDigits? text
  if digits.head? = some '0' ∧ digits.length ≠ 1 then none else some (digits, rest)

def readFraction? : List Char → Option (Option (List Char) × List Char)
  | '.' :: rest => (readDigits? rest).map fun (digits, rest) => (some digits, rest)
  | rest => some (none, rest)

def readExponent? : List Char → Option (Option PowerOfTen × List Char)
  | c :: rest =>
    if c = 'e' ∨ c = 'E' then
      let (sign, rest) : Option Sign × List Char := match rest with
        | '+' :: rest => (some .plus, rest)
        | '-' :: rest => (some .minus, rest)
        | rest => (none, rest)
      (readDigits? rest).map fun (digits, rest) => (some ⟨sign, digits⟩, rest)
    else some (none, c :: rest)
  | [] => some (none, [])

def readUnsigned? (negative : Bool) (text : List Char) : Option (Numeral × List Char) := do
  let (whole, rest) ← readWhole? text
  let (fraction, rest) ← readFraction? rest
  let (exponent, rest) ← readExponent? rest
  return (⟨negative, whole, fraction, exponent⟩, rest)

def readNumeral? : List Char → Option (Numeral × List Char)
  | '-' :: rest => readUnsigned? true rest
  | text => readUnsigned? false text

mutual

/-- The value at the head of a text; the first argument bounds the depth of the search. -/
def readValue? : Nat → List Char → Option (Json × List Char)
  | 0, _ => none
  | fuel + 1, text =>
    match skipGap text with
    | 'n' :: 'u' :: 'l' :: 'l' :: rest => some (.null, rest)
    | 't' :: 'r' :: 'u' :: 'e' :: rest => some (.bool true, rest)
    | 'f' :: 'a' :: 'l' :: 's' :: 'e' :: rest => some (.bool false, rest)
    | '"' :: rest => (readString? rest).map fun (s, rest) => (.string s, rest)
    | '[' :: rest =>
      match skipGap rest with
      | ']' :: rest => some (.array [], rest)
      | rest => (readItems? fuel rest).map fun (items, rest) => (.array items, rest)
    | '{' :: rest =>
      match skipGap rest with
      | '}' :: rest => some (.object [], rest)
      | rest => (readMembers? fuel rest).map fun (members, rest) => (.object members, rest)
    | rest => (readNumeral? rest).map fun (n, rest) => (.number n, rest)

def readItems? : Nat → List Char → Option (List Json × List Char)
  | 0, _ => none
  | fuel + 1, text => do
    let (item, rest) ← readValue? fuel text
    match skipGap rest with
    | ',' :: rest =>
      let (items, rest) ← readItems? fuel rest
      return (item :: items, rest)
    | ']' :: rest => return ([item], rest)
    | _ => none

def readMembers? : Nat → List Char → Option (List (List Piece × Json) × List Char)
  | 0, _ => none
  | fuel + 1, text =>
    match skipGap text with
    | '"' :: rest => do
      let (key, rest) ← readString? rest
      match skipGap rest with
      | ':' :: rest =>
        let (value, rest) ← readValue? fuel rest
        match skipGap rest with
        | ',' :: rest =>
          let (members, rest) ← readMembers? fuel rest
          return ((key, value) :: members, rest)
        | '}' :: rest => return ([(key, value)], rest)
        | _ => none
      | _ => none
    | _ => none

end

def parse? (text : String) : Option Json := do
  let text := text.toList
  let (value, rest) ← readValue? (2 * text.length + 2) text
  if skipGap rest = [] then some value else none

end MotionScript.Json
