/-!
# Written numbers

A numeral is a number as it stands in a text: a sign, the digits before the point, the digits after
it, and a power of ten. Digits are kept as written, so nothing is lost before a reader says what the
numeral is worth.
-/
namespace MotionScript.Number

inductive Sign | plus | minus deriving DecidableEq, Repr

structure PowerOfTen where
  sign : Option Sign
  digits : List Char
  deriving DecidableEq, Repr

structure Numeral where
  negative : Bool
  whole : List Char
  fraction : Option (List Char)
  exponent : Option PowerOfTen
  deriving DecidableEq, Repr

def Sign.char : Sign → Char
  | .plus => '+'
  | .minus => '-'

def PowerOfTen.chars (power : PowerOfTen) : List Char :=
  'e' :: (power.sign.map Sign.char).toList ++ power.digits

def Numeral.chars (n : Numeral) : List Char :=
  (if n.negative then ['-'] else []) ++ n.whole ++ (n.fraction.map ('.' :: ·)).getD [] ++
    (n.exponent.map PowerOfTen.chars).getD []

end MotionScript.Number
