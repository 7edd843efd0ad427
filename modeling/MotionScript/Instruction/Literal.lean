import MotionScript.Number.Reading

/-!
# Numbers in instructions

A literal in a line is an optional sign, digits, and optionally a point with further digits, as much
as can be taken, from left to right. Digits of every script make a literal, but only one written in
ASCII digits has a value; the others are passed over as a whole.
-/
namespace MotionScript
open Text Number

structure Literal where
  negative : Bool
  whole : List Char
  fraction : List Char
  deriving DecidableEq, Repr

namespace Literal

def value? (l : Literal) : Option Float :=
  let digits := l.whole ++ l.fraction
  if digits.all Char.isDigit
    then some (withSign l.negative (nearest (digitsToNat digits) (-l.fraction.length))) else none

def takeDigits? (text : List Char) : Option (List Char × List Char) :=
  match text.takeWhile isDecimalDigit with
  | [] => none
  | digits => some (digits, text.dropWhile isDecimalDigit)

def takeFraction : List Char → List Char × List Char
  | '.' :: rest => (rest.takeWhile isDecimalDigit, rest.dropWhile isDecimalDigit)
  | rest => ([], rest)

def take? (text : List Char) : Option (Literal × List Char) := do
  let (negative, rest) := splitSign text
  let (whole, rest) ← takeDigits? rest
  let (fraction, rest) := takeFraction rest
  return (⟨negative, whole, fraction⟩, rest)

theorem length_dropWhile_le {α : Type} (p : α → Bool) (l : List α) :
    (l.dropWhile p).length ≤ l.length :=
  (List.dropWhile_sublist p).length_le

theorem length_splitSign_le (text : List Char) : (splitSign text).2.length ≤ text.length := by
  unfold splitSign; split <;> simp

theorem length_takeFraction_le (text : List Char) : (takeFraction text).2.length ≤ text.length := by
  unfold takeFraction
  split
  · have := length_dropWhile_le isDecimalDigit (by assumption)
    simp only [List.length_cons]; omega
  · exact Nat.le_refl _

theorem length_takeDigits?_lt {text digits rest : List Char}
    (h : takeDigits? text = some (digits, rest)) :
    rest.length < text.length := by
  unfold takeDigits? at h
  split at h
  · simp at h
  · next ds hne =>
    cases h
    have h₁ := congrArg List.length
      (List.takeWhile_append_dropWhile (p := isDecimalDigit) (l := text))
    have h₂ : 0 < (text.takeWhile isDecimalDigit).length := List.length_pos_iff.2 hne
    simp only [List.length_append] at h₁; omega

theorem length_take?_lt {text rest : List Char} {l : Literal} (h : take? text = some (l, rest)) :
    rest.length < text.length := by
  unfold take? at h
  cases hd : takeDigits? (splitSign text).2 with
  | none => simp [hd] at h
  | some p =>
    simp [hd] at h
    have h₁ := length_takeDigits?_lt hd
    have h₂ := length_splitSign_le text
    have h₃ := length_takeFraction_le p.2
    rw [← h.2]; omega

/-- The literals of a text from left to right; the next search begins where the last literal
ends. -/
def scan (text : List Char) : List Literal :=
  match h : take? text with
  | some (literal, rest) =>
    have := length_take?_lt h
    literal :: scan rest
  | none =>
    match text with
    | [] => []
    | _ :: rest => scan rest
termination_by text.length

theorem scan_of_none {c : Char} {rest : List Char} (h : take? (c :: rest) = none) :
    scan (c :: rest) = scan rest := by
  rw [scan.eq_def]
  split
  next heq => rw [h] at heq; cases heq
  next => rfl

theorem scan_of_some {text rest : List Char} {l : Literal} (h : take? text = some (l, rest)) :
    scan text = l :: scan rest := by
  rw [scan.eq_def]
  split
  next heq => rw [h] at heq; cases heq; rfl
  next heq => rw [h] at heq; cases heq

def values (line : String) : List Float := (scan line.toList).filterMap value?

end Literal
end MotionScript
