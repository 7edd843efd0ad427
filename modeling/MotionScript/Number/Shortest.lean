import MotionScript.Number.Binary64
import MotionScript.Number.Numeral

/-!
# The shortest digits of a floating-point number

A number is written with the fewest digits that lie nearer to it than to any other floating-point
number. The real numbers that round to `m * 2 ^ q` form an interval, whose ends belong to it when
`m` is even. On the grids of one digit, two digits and so on, the two grid points beside the number
are tested against the interval in exact arithmetic: the first grid with a hit is taken, and of two
hits the nearer one. A `Layout` decides ties and where the point stands.
-/
namespace MotionScript.Number

/-- Digits with a point after the first one, times a power of ten. -/
structure Digits where
  digits : List Char
  exponent : Int
  deriving DecidableEq, Repr

/-- A positive floating-point number together with the interval of reals that round to it, all in
units of `2 ^ exponent`. -/
structure Neighbourhood where
  lower : Nat
  value : Nat
  upper : Nat
  exponent : Int
  closed : Bool
  deriving DecidableEq, Repr

/-- The neighbourhood of `mantissa * 2 ^ exponent`: below a power of two the next number is half as
far as above it. -/
def Neighbourhood.ofFloat (mantissa : Nat) (exponent : Int) : Neighbourhood where
  lower := 4 * mantissa - if mantissa = Nat.pow 2 52 ∧ minExponent < exponent then 1 else 2
  value := 4 * mantissa
  upper := 4 * mantissa + 2
  exponent := exponent - 2
  closed := mantissa % 2 == 0

def Neighbourhood.onGrid (h : Neighbourhood) (unit : Int) (x : Nat) : Nat × Nat :=
  (x * Nat.pow 2 h.exponent.toNat * Nat.pow 10 (-unit).toNat,
    Nat.pow 2 (-h.exponent).toNat * Nat.pow 10 unit.toNat)

/-- Whether the grid point `point * 10 ^ unit` rounds to the number. -/
def Neighbourhood.contains (h : Neighbourhood) (unit : Int) (point : Nat) : Bool :=
  let (lower, scale) := h.onGrid unit h.lower
  let (upper, _) := h.onGrid unit h.upper
  if h.closed then lower ≤ point * scale && point * scale ≤ upper
  else lower < point * scale && point * scale < upper

/-- The grid point beside the number that rounds to it, if one does; `tieUp` decides between two
that are equally near. -/
def Neighbourhood.hit? (h : Neighbourhood) (tieUp : Bool) (unit : Int) : Option Nat :=
  let (value, scale) := h.onGrid unit h.value
  let below := value / scale
  match h.contains unit below, h.contains unit (below + 1) with
  | true, true =>
    let twice := 2 * (value % scale)
    if scale < twice || (twice == scale && (tieUp || below % 2 == 1)) then some (below + 1)
      else some below
  | true, false => some below
  | false, true => some (below + 1)
  | false, false => none

/-- The first hit on the grids from `10 ^ unit` downward. -/
def Neighbourhood.search (h : Neighbourhood) (tieUp : Bool) : Nat → Int → Nat × Int
  | 0, unit => (((h.onGrid unit h.value).1 / (h.onGrid unit h.value).2), unit)
  | grids + 1, unit =>
    match h.hit? tieUp unit with
    | some point => (point, unit)
    | none => h.search tieUp grids (unit - 1)

/-- A power of ten that is at least a tenth of `mantissa * 2 ^ exponent` and at most ten times as
large. -/
def magnitude (mantissa : Nat) (exponent : Int) : Int :=
  (mantissa.log2 + exponent) * 30103 / 100000 + 1

/-- The digits of a natural number without trailing zeros, with the power of ten of the first
one. -/
def Digits.ofNat (n : Nat) (unit : Int) : Digits :=
  let digits := Nat.toDigits 10 n
  ⟨(digits.reverse.dropWhile (· == '0')).reverse, unit + digits.length - 1⟩

/-- The shortest digits of a positive floating-point number; seventeen are always enough. -/
def shortest (tieUp : Bool) (mantissa : Nat) (exponent : Int) : Digits :=
  let (point, unit) :=
    (Neighbourhood.ofFloat mantissa exponent).search tieUp 20 (magnitude mantissa exponent)
  .ofNat point unit

structure Layout where
  /-- Of two shortest forms that are equally near, whether the larger is taken or the even one. -/
  tieUp : Bool
  /-- The powers of ten of the first digit that are written without an exponent. -/
  positional : Int → Bool
  /-- Whether whole numbers keep a point and a zero. -/
  pointAlways : Bool

private def zeros (count : Int) : List Char := List.replicate count.toNat '0'

/-- The digits with a point at its place and no exponent. -/
def Layout.place (layout : Layout) (negative : Bool) (d : Digits) : Numeral :=
  let whole := if d.exponent < 0 then ['0']
    else d.digits.take (d.exponent.toNat + 1) ++ zeros (d.exponent + 1 - d.digits.length)
  let fraction := zeros (-d.exponent - 1) ++ d.digits.drop (d.exponent + 1).toNat
  ⟨negative, whole, if fraction = [] then if layout.pointAlways then some ['0'] else none
    else some fraction, none⟩

/-- One digit before the point and a power of ten. -/
def Layout.scale (negative : Bool) (d : Digits) : Numeral where
  negative := negative
  whole := d.digits.take 1
  fraction := if d.digits.length ≤ 1 then none else some (d.digits.drop 1)
  exponent := some ⟨if d.exponent < 0 then some .minus else some .plus,
    Nat.toDigits 10 d.exponent.natAbs⟩

def Layout.numeral (layout : Layout) (negative : Bool) (mantissa : Nat)
    (exponent : Int) : Numeral :=
  let d := if mantissa = 0 then ⟨['0'], 0⟩ else shortest layout.tieUp mantissa exponent
  if layout.positional d.exponent then layout.place negative d else Layout.scale negative d

/-- Numbers in texts for people are never written with an exponent, and whole numbers have no
point. -/
def displayLayout : Layout := ⟨true, fun _ => true, false⟩

def display (x : Float) : String :=
  match view x with
  | .nan => "NaN"
  | .infinite negative => if negative then "-inf" else "inf"
  | .finite negative mantissa exponent =>
    String.ofList (displayLayout.numeral negative mantissa exponent).chars

end MotionScript.Number
