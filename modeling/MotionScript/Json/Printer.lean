import MotionScript.Json.Value

/-!
# Writing JSON

A value is written on one line without blanks, or over several lines with two spaces for each level,
where empty arrays and objects stay on their line. Only quotes, backslashes and control characters
below the space are escaped in strings.
-/
namespace MotionScript.Json

def unitEscape (code : Nat) : List Char :=
  let digits := Nat.toDigits 16 code
  ['\\', 'u'] ++ List.replicate (4 - digits.length) '0' ++ digits

def escapeChar (c : Char) : List Char :=
  match c with
  | '"' => ['\\', '"']
  | '\\' => ['\\', '\\']
  | '\x08' => ['\\', 'b']
  | '\x0c' => ['\\', 'f']
  | '\n' => ['\\', 'n']
  | '\r' => ['\\', 'r']
  | '\t' => ['\\', 't']
  | c => if c.toNat < 0x20 then unitEscape c.toNat else [c]

def Piece.chars : Piece → List Char
  | .char c => escapeChar c
  | .unit code => unitEscape code

def stringChars (s : List Piece) : List Char := '"' :: s.flatMap Piece.chars ++ ['"']

mutual

def compactChars : Json → List Char
  | .null => ['n', 'u', 'l', 'l']
  | .bool value => if value then ['t', 'r', 'u', 'e'] else ['f', 'a', 'l', 's', 'e']
  | .number n => n.chars
  | .string s => stringChars s
  | .array items => '[' :: compactItems items ++ [']']
  | .object members => '{' :: compactMembers members ++ ['}']

def compactItems : List Json → List Char
  | [] => []
  | [item] => compactChars item
  | item :: next :: rest => compactChars item ++ ',' :: compactItems (next :: rest)

def compactMembers : List (List Piece × Json) → List Char
  | [] => []
  | [(key, value)] => stringChars key ++ ':' :: compactChars value
  | (key, value) :: next :: rest =>
    stringChars key ++ ':' :: compactChars value ++ ',' :: compactMembers (next :: rest)

end

def lineBreak (level : Nat) : List Char := '\n' :: List.replicate (2 * level) ' '

mutual

/-- A value over several lines, whose first stands at a level. -/
def prettyChars (level : Nat) : Json → List Char
  | .null => ['n', 'u', 'l', 'l']
  | .bool value => if value then ['t', 'r', 'u', 'e'] else ['f', 'a', 'l', 's', 'e']
  | .number n => n.chars
  | .string s => stringChars s
  | .array [] => ['[', ']']
  | .array (item :: rest) =>
    '[' :: prettyItems (level + 1) (item :: rest) ++ lineBreak level ++ [']']
  | .object [] => ['{', '}']
  | .object (member :: rest) =>
    '{' :: prettyMembers (level + 1) (member :: rest) ++ lineBreak level ++ ['}']

def prettyItems (level : Nat) : List Json → List Char
  | [] => []
  | [item] => lineBreak level ++ prettyChars level item
  | item :: next :: rest =>
    lineBreak level ++ prettyChars level item ++ ',' :: prettyItems level (next :: rest)

def prettyMembers (level : Nat) : List (List Piece × Json) → List Char
  | [] => []
  | [(key, value)] => lineBreak level ++ stringChars key ++ ':' :: ' ' :: prettyChars level value
  | (key, value) :: next :: rest =>
    lineBreak level ++ stringChars key ++ ':' :: ' ' :: prettyChars level value ++ ',' ::
      prettyMembers level (next :: rest)

end

def compact (value : Json) : String := String.ofList (compactChars value)

def pretty (value : Json) : String := String.ofList (prettyChars 0 value)

end MotionScript.Json
