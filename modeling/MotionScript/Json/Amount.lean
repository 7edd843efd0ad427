import MotionScript.Json.Value
import MotionScript.Number.Reading
import MotionScript.Number.Shortest

/-!
# Numbers in JSON

A numeral is worth a natural number or an integer when it has neither point nor power of ten, and a
floating-point number always. Floating-point values are read fast rather than exactly: the leading
digits that fit 64 bits make an integer, and one multiplication or division by a power of ten, each
rounded, scales it. For numbers of up to fifteen digits and modest powers this is the nearest
number. In writing, the fewest digits that stand for the number are used, with a power of ten from
`1e+16` on and below `0.00001`.
-/
namespace MotionScript.Json
open Number Text

def maxWord : Nat := Nat.pow 2 64 - 1

def isInteger (n : Numeral) : Bool := n.fraction.isNone && n.exponent.isNone

/-- The natural number below a bound that a numeral writes; zero with a minus sign is none. -/
def natBelow? (bound : Nat) (n : Numeral) : Option Nat :=
  if isInteger n ∧ !n.negative ∧ digitsToNat n.whole < bound
    then some (digitsToNat n.whole) else none

/-- The 32-bit integer that a numeral writes; zero with a minus sign is none. -/
def int32? (n : Numeral) : Option Int32 :=
  let size := digitsToNat n.whole
  if !isInteger n then none
  else if n.negative then
    if 0 < size ∧ size ≤ Nat.pow 2 31 then some (Int32.ofInt (-size)) else none
  else if size < Nat.pow 2 31 then some (Int32.ofNat size) else none

/-- A number of at most 64 bits times a power of ten. -/
structure Scaled where
  significand : Nat
  exponent : Int
  deriving DecidableEq, Repr

def Scaled.push? (s : Scaled) (digit : Char) : Option Scaled :=
  let significand := 10 * s.significand + (digit.toNat - '0'.toNat)
  if significand ≤ maxWord then some { s with significand } else none

/-- The digits before the point; from the first that does not fit on, each only raises the power of
ten. -/
def Scaled.pushWhole (s : Scaled) : List Char → Scaled
  | [] => s
  | digit :: rest =>
    match s.push? digit with
    | some s => s.pushWhole rest
    | none => { s with exponent := s.exponent + (rest.length + 1) }

/-- The digits after the point; from the first that does not fit on, they are dropped. -/
def Scaled.pushFraction (s : Scaled) : List Char → Scaled
  | [] => s
  | digit :: rest =>
    match s.push? digit with
    | some s => ({ s with exponent := s.exponent - 1 } : Scaled).pushFraction rest
    | none => s

/-- A power of ten that is a finite number. -/
def powerOfTen (exponent : Nat) : Float := Float.ofScientific 1 false exponent

def maxPower : Nat := 308

/-- `x * 10 ^ exponent`; powers below the least are divided out in steps, and none is found when the
result is too large. -/
def scale? : Nat → Float → Int → Option Float
  | 0, _, _ => some 0
  | steps + 1, x, exponent =>
    if exponent.natAbs ≤ maxPower then
      if 0 ≤ exponent then
        let scaled := x * powerOfTen exponent.natAbs
        if isFinite scaled then some scaled else none
      else some (x / powerOfTen exponent.natAbs)
    else if x == 0 then some x
    else if 0 ≤ exponent then none
    else scale? steps (x / powerOfTen maxPower) (exponent + maxPower)

def writtenPower (n : Numeral) : Int :=
  match n.exponent with
  | none => 0
  | some ⟨some .minus, digits⟩ => -(digitsToNat digits : Int)
  | some ⟨_, digits⟩ => digitsToNat digits

/-- The floating-point number that a numeral writes; none when it is out of range. -/
def float? (n : Numeral) : Option Float :=
  let s := ((⟨0, 0⟩ : Scaled).pushWhole n.whole).pushFraction (n.fraction.getD [])
  (scale? 5 s.significand.toUInt64.toFloat (s.exponent + writtenPower n)).map (withSign n.negative)

/-- Numbers have a point up to `1e+16` and down to `0.00001`, and a power of ten beyond; whole
numbers keep `.0`, and a tie goes to the even digit. -/
def layout : Layout := ⟨false, fun e => -5 ≤ e && e < 16, true⟩

/-- A floating-point number as a value; NaN and the infinities are written as nothing. -/
def ofFloat (x : Float) : Json :=
  match view x with
  | .finite negative mantissa exponent => .number (layout.numeral negative mantissa exponent)
  | _ => .null

def ofNat (n : Nat) : Json := .number ⟨false, Nat.toDigits 10 n, none, none⟩

def ofInt (i : Int) : Json := .number ⟨i < 0, Nat.toDigits 10 i.natAbs, none, none⟩

end MotionScript.Json
