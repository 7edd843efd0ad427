import MotionScript.Number.Reading
import MotionScript.Text.HexDigit
import MotionScript.Toml.Value

/-!
# Numbers, truth values and points in time in TOML

A scalar is a run of letters, digits and a few signs. Digits may be grouped by single underscores,
whole numbers fit 64 bits with a sign, and a number written with a point or a power of ten may not
be too large. Dates are those of the calendar.
-/
namespace MotionScript.Toml
open Number Text

def isScalarChar (c : Char) : Bool :=
  c.isAlphanum || c == '_' || c == '+' || c == '-' || c == '.' || c == ':'

/-- The digits without the underscores that stand singly between them. -/
def grouped? (isDigit : Char → Bool) : List Char → Option (List Char)
  | [] => none
  | [c] => if isDigit c then some [c] else none
  | c :: '_' :: rest => if isDigit c then (grouped? isDigit rest).map (c :: ·) else none
  | c :: rest => if isDigit c then (grouped? isDigit rest).map (c :: ·) else none

/-- Decimal digits that do not begin with a zero, unless it stands alone. -/
def whole? (text : List Char) : Option (List Char) := do
  let digits ← grouped? Char.isDigit text
  if digits.head? = some '0' ∧ digits.length ≠ 1 then none else some digits

def inBase? (base : Nat) (text : List Char) : Option Int := do
  let digits ← grouped? (fun c => (hexValue? c).isSome) text
  let n ← baseToNat? base digits
  return (n : Int)

def integerValue? : List Char → Option Int
  | '0' :: 'x' :: rest => inBase? 16 rest
  | '0' :: 'o' :: rest => inBase? 8 rest
  | '0' :: 'b' :: rest => inBase? 2 rest
  | decimal => do
    let (negative, rest) := splitSign decimal
    let digits ← whole? rest
    return if negative then -(digitsToNat digits : Int) else digitsToNat digits

def integer? (text : List Char) : Option Int := do
  let n ← integerValue? text
  let bound : Int := Nat.pow 2 63
  if -bound ≤ n ∧ n < bound then some n else none

def splitGroup (text : List Char) : List Char × List Char :=
  text.span fun c => c.isDigit || c == '_'

/-- A power of ten that ends the text, if there is one. -/
def power? : List Char → Option (Option Int)
  | [] => some none
  | c :: rest => do
    if c ≠ 'e' ∧ c ≠ 'E' then none
    let (negative, rest) := splitSign rest
    let digits ← grouped? Char.isDigit rest
    return some (if negative then -(digitsToNat digits : Int) else digitsToNat digits)

def fraction? : List Char → Option (Option (List Char) × List Char)
  | '.' :: rest => do
    let (group, rest) := splitGroup rest
    let digits ← grouped? Char.isDigit group
    return (some digits, rest)
  | rest => some (none, rest)

/-- A number with a point or a power of ten, without its sign. -/
def unsignedFloat? (text : List Char) : Option Float := do
  let (group, rest) := splitGroup text
  let whole ← whole? group
  let (fraction, rest) ← fraction? rest
  let power ← power? rest
  if fraction = none ∧ power = none then none
  let fraction := fraction.getD []
  return nearest (digitsToNat (whole ++ fraction)) (power.getD 0 - fraction.length)

/-- A number with a point or a power of ten, an infinity, or no number. Digits that are too large
give no value, unless they are negative. -/
def float? (text : List Char) : Option Float :=
  let (negative, rest) := splitSign text
  if rest = "inf".toList then some (withSign negative infinity)
  else if rest = "nan".toList then some (infinity - infinity)
  else do
    let x ← unsignedFloat? rest
    if x == infinity && !negative then none else some (withSign negative x)

def digitsNat? (digits : List Char) : Option Nat :=
  if digits.all Char.isDigit then some (digitsToNat digits) else none

def daysIn (year month : Nat) : Nat :=
  if month = 2 then if year % 4 = 0 ∧ (year % 100 ≠ 0 ∨ year % 400 = 0) then 29 else 28
  else if month ∈ [4, 6, 9, 11] then 30
  else 31

def isDate : List Char → Bool
  | [a, b, c, d, '-', e, f, '-', g, h] =>
    match digitsNat? [a, b, c, d], digitsNat? [e, f], digitsNat? [g, h] with
    | some year, some month, some day =>
      1 ≤ month && month ≤ 12 && 1 ≤ day && day ≤ daysIn year month
    | _, _, _ => false
  | _ => false

def afterMinute? : List Char → Option (List Char)
  | a :: b :: ':' :: c :: d :: rest => do
    let hour ← digitsNat? [a, b]
    let minute ← digitsNat? [c, d]
    if hour ≤ 23 ∧ minute ≤ 59 then some rest else none
  | _ => none

/-- What follows a time of the day at the head of a text; the last minute may hold a leap second. -/
def afterTime? (text : List Char) : Option (List Char) := do
  match ← afterMinute? text with
  | ':' :: a :: b :: rest =>
    if 60 < (← digitsNat? [a, b]) then none
    match rest with
    | '.' :: c :: rest => if c.isDigit then some (rest.dropWhile Char.isDigit) else none
    | rest => some rest
  | _ => none

/-- Nothing, or the distance from universal time. -/
def isOffset : List Char → Bool
  | [] => true
  | [c] => c == 'Z' || c == 'z'
  | sign :: rest => (sign == '+' || sign == '-') && afterMinute? rest == some []

/-- A day, a time of the day, or both with an optional offset. -/
def isMoment (text : List Char) : Bool :=
  isDate text || afterTime? text == some [] ||
    isDate (text.take 10) &&
      match text.drop 10 with
      | c :: rest => (c == 'T' || c == 't' || c == ' ') && (afterTime? rest).any isOffset
      | [] => false

def scalar? (text : List Char) : Option Toml :=
  if text = "true".toList then some (.boolean true)
  else if text = "false".toList then some (.boolean false)
  else if isMoment text then some .moment
  else (float? text).map .float <|> (integer? text).map .integer

end MotionScript.Toml
