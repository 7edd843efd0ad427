/-!
# Hexadecimal digits

The digits from 0 to 9 and the letters from a to f, small or capital, with their values.
-/
namespace MotionScript.Text

def hexValue? (c : Char) : Option Nat :=
  if c.isDigit then some (c.toNat - '0'.toNat)
  else if 'a' ≤ c ∧ c ≤ 'f' then some (c.toNat - 'a'.toNat + 10)
  else if 'A' ≤ c ∧ c ≤ 'F' then some (c.toNat - 'A'.toNat + 10)
  else none

/-- The number that digits write in a base; a digit must be less than the base. -/
def baseToNat? (base : Nat) (digits : List Char) : Option Nat :=
  digits.foldlM (fun n c => do
    let value ← hexValue? c
    if value < base then some (base * n + value) else none) 0

end MotionScript.Text
