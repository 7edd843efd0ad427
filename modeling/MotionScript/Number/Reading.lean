import MotionScript.Number.Binary64
import MotionScript.Text.DecimalDigit

/-!
# Reading decimal text

A decimal text stands for the floating-point number nearest to its exact value. Texts that are too
large give an infinity, and texts that are too small give zero.
-/
namespace MotionScript.Number
open Text

def infinity : Float := .ofBits 0x7ff0000000000000

/-- The number nearest to `digits * 10 ^ exponent`. Exponents out of the reach of every finite
number are settled without computing the power. -/
def nearest (digits : Nat) (exponent : Int) : Float :=
  if digits = 0 then 0
  else if 310 < exponent then infinity
  else if exponent + (digits.log2 : Int) < -1200 then 0
  else if exponent < 0 then Float.ofScientific digits true (-exponent).toNat
  else Float.ofScientific digits false exponent.toNat

def withSign (negative : Bool) (x : Float) : Float := if negative then -x else x

def splitSign : List Char → Bool × List Char
  | '-' :: rest => (true, rest)
  | '+' :: rest => (false, rest)
  | rest => (false, rest)

def splitDigits (text : List Char) : List Char × List Char :=
  (text.takeWhile Char.isDigit, text.dropWhile Char.isDigit)

/-- A power of ten that ends the text: nothing, or `e` with an optional sign and at least one
digit. -/
def readPower? : List Char → Option Int
  | [] => some 0
  | c :: rest =>
    if c = 'e' ∨ c = 'E' then
      let (negative, digits) := splitSign rest
      if digits ≠ [] ∧ digits.all Char.isDigit then
        some (if negative then -(digitsToNat digits : Int) else digitsToNat digits)
      else none
    else none

/-- The value of an unsigned decimal text: digits with at most one point among them, and an optional
power of ten. -/
def readUnsigned? (text : List Char) : Option Float :=
  let (whole, rest) := splitDigits text
  let (fraction, rest) := match rest with
    | '.' :: rest => splitDigits rest
    | rest => ([], rest)
  if whole = [] ∧ fraction = [] then none
  else (readPower? rest).map fun power =>
    nearest (digitsToNat (whole ++ fraction)) (power - fraction.length)

/-- The value of a decimal text with an optional sign; the words `inf`, `infinity` and `nan` count,
in any case. -/
def ofText? (text : String) : Option Float :=
  let (negative, rest) := splitSign text.toList
  let word := String.ofList (rest.map Char.toLower)
  if word = "inf" ∨ word = "infinity" then some (withSign negative infinity)
  else if word = "nan" then some (infinity - infinity)
  else (readUnsigned? rest).map (withSign negative)

end MotionScript.Number
