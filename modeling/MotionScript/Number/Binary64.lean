/-!
# Floating-point numbers as exact values

Every finite `Float` is a sign, a natural mantissa and a power of two. `view` reads these from its
bits, and rounding to whole numbers is done on them in exact arithmetic.
-/
namespace MotionScript.Number

/-- What a floating-point number stands for: `mantissa * 2 ^ exponent` with a sign, an infinity, or
no number. -/
inductive Binary64
  | nan
  | infinite (negative : Bool)
  | finite (negative : Bool) (mantissa : Nat) (exponent : Int)
  deriving DecidableEq, Repr

def minExponent : Int := -1074

def Binary64.ofBits (bits : UInt64) : Binary64 :=
  let bits := bits.toNat
  let negative := bits / Nat.pow 2 63 == 1
  let field : Nat := bits / Nat.pow 2 52 % Nat.pow 2 11
  let fraction := bits % Nat.pow 2 52
  if field = 2047 then if fraction = 0 then .infinite negative else .nan
  else if field = 0 then .finite negative fraction minExponent
  else .finite negative (Nat.pow 2 52 + fraction) ((field : Int) - 1 + minExponent)

def view (x : Float) : Binary64 := .ofBits x.toBits

def isFinite (x : Float) : Bool := view x matches .finite ..

def wholePart (mantissa : Nat) (exponent : Int) : Nat :=
  if 0 ≤ exponent then mantissa * Nat.pow 2 exponent.toNat
    else mantissa / Nat.pow 2 (-exponent).toNat

/-- `mantissa * 2 ^ exponent` to the nearest natural number, a half going up. -/
def nearestWhole (mantissa : Nat) (exponent : Int) : Nat :=
  if 0 ≤ exponent then mantissa * Nat.pow 2 exponent.toNat
  else (2 * mantissa + Nat.pow 2 (-exponent).toNat) / (2 * Nat.pow 2 (-exponent).toNat)

/-- The nearest natural number, at most `limit`; NaN and negative numbers give zero. -/
def roundUpTo (limit : Nat) (x : Float) : Nat :=
  match view x with
  | .nan => 0
  | .infinite negative => if negative then 0 else limit
  | .finite negative mantissa exponent =>
    if negative then 0 else min limit (nearestWhole mantissa exponent)

/-- The integer toward zero, held within the bounds of 32 bits; NaN gives zero. -/
def truncate32 (x : Float) : Int32 :=
  match view x with
  | .nan => 0
  | .infinite negative => if negative then Int32.minValue else Int32.maxValue
  | .finite negative mantissa exponent =>
    let whole := wholePart mantissa exponent
    let bound : Int := Nat.pow 2 31
    if negative then Int32.ofInt (max (-bound) (-whole)) else Int32.ofInt (min (bound - 1) whole)

end MotionScript.Number
