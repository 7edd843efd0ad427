import MotionScript.Json.Shape
import MotionScript.Proofs.FloatRounding
import MotionScript.Proofs.ShortestDigits

/-!
# Finite numbers are read back

Reading a numeral never fails for digits that stand for less than one unit of their last place: a
negative power of ten is divided out. A large number is one multiplication, whose product is finite
because the shortest digits of a finite number lie in its neighbourhood. So of all numbers that are
written just the finite ones are read back; an infinity is written as nothing.
-/
namespace MotionScript

open Number Text

theorem Number.bounds_of_view {x : Float} {negative : Bool} {mantissa : Nat} {exponent : Int}
    (h : view x = .finite negative mantissa exponent) :
    mantissa < 2 ^ 53 ∧ -1074 ≤ exponent ∧ exponent ≤ 971 := by
  simp only [view, Binary64.ofBits, minExponent, Nat.pow_eq] at h
  split at h
  · split at h <;> cases h
  · split at h <;> injection h <;> omega

namespace Json

/-! ## The digits that are kept -/

theorem digit_le {c : Char} (hc : c.isDigit) : c.toNat - '0'.toNat ≤ 9 := by
  have hcode := toNat_of_isDigit hc
  show c.toNat - 0x30 ≤ 9
  omega

theorem digit_pos {c : Char} (hc : c.isDigit) (hne : c ≠ '0') : 0 < c.toNat - '0'.toNat := by
  have hcode := toNat_of_isDigit hc
  have hzero : c.toNat ≠ 0x30 := fun he => hne (Char.toNat_inj.1 he)
  show 0 < c.toNat - 0x30
  omega

theorem digitsToNat_cons (c : Char) (digits : List Char) :
    digitsToNat (c :: digits) =
      (c.toNat - '0'.toNat) * 10 ^ digits.length + digitsToNat digits := by
  rw [← List.singleton_append, digitsToNat_append]
  simp [digitsToNat]

namespace Scaled

def value (s : Scaled) : ℚ := s.significand * 10 ^ s.exponent

theorem le_maxWord_iff {n : Nat} : n ≤ maxWord ↔ n < 2 ^ 64 := Nat.le_sub_one_iff_lt (by decide)

theorem push?_of_lt {s : Scaled} {c : Char} (hc : c.isDigit)
    (hfits : 10 * s.significand + 9 < 2 ^ 64) :
    s.push? c = some ⟨10 * s.significand + (c.toNat - '0'.toNat), s.exponent⟩ :=
  if_pos (le_maxWord_iff.2 (Nat.lt_of_le_of_lt (Nat.add_le_add_left (digit_le hc) _) hfits))

theorem of_push? {s kept : Scaled} {c : Char} (h : s.push? c = some kept) :
    kept = ⟨10 * s.significand + (c.toNat - '0'.toNat), s.exponent⟩ ∧
      kept.significand < 2 ^ 64 := by
  unfold push? at h
  dsimp only at h
  split at h
  next hfits =>
    cases h
    exact ⟨rfl, le_maxWord_iff.1 hfits⟩
  next => cases h

theorem pushWhole_cons (s : Scaled) (c : Char) (digits : List Char) : s.pushWhole (c :: digits) =
    match s.push? c with
    | some s => s.pushWhole digits
    | none => { s with exponent := s.exponent + (digits.length + 1) } := (rfl)

theorem pushFraction_cons (s : Scaled) (c : Char) (digits : List Char) :
    s.pushFraction (c :: digits) =
    match s.push? c with
    | some s => ({ s with exponent := s.exponent - 1 } : Scaled).pushFraction digits
    | none => s := (rfl)

theorem pushWhole_of_le {digits : List Char} (hdigits : ∀ c ∈ digits, c.isDigit) (s : Scaled)
    (hfits : (s.significand + 1) * 10 ^ digits.length ≤ 2 ^ 64) :
    s.pushWhole digits = ⟨s.significand * 10 ^ digits.length + digitsToNat digits, s.exponent⟩ := by
  induction digits generalizing s with
  | nil =>
    show s = _
    simp [digitsToNat]
  | cons c digits ih =>
    have hdigit := digit_le (hdigits c (by simp))
    have hpos : 1 ≤ 10 ^ digits.length := Nat.one_le_pow _ _ (by decide)
    have hnext : (10 * s.significand + 10) * 10 ^ digits.length ≤ 2 ^ 64 := by
      rw [List.length_cons, Nat.pow_succ'] at hfits
      linarith
    have hpush := push?_of_lt (s := s) (hdigits c (by simp)) (by nlinarith)
    rw [pushWhole_cons, hpush]
    dsimp only
    rw [ih (fun c hc => hdigits c (by simp [hc])) _
      (Nat.le_trans (Nat.mul_le_mul_right _ (by dsimp only; omega)) hnext), digitsToNat_cons,
        List.length_cons, Nat.pow_succ']
    congr 1
    ring

theorem value_le (s : Scaled) (count rest : Nat) :
    s.value ≤ ((s.significand * 10 ^ count + rest : Nat) : ℚ) * 10 ^ (s.exponent - count) :=
  calc s.value = ((s.significand * 10 ^ count : Nat) : ℚ) * 10 ^ (s.exponent - count) := by
        rw [Nat.cast_mul, Nat.cast_pow, Nat.cast_ofNat, mul_assoc, ← zpow_natCast,
          ← zpow_add₀ (by norm_num), add_sub_cancel, value]
    _ ≤ _ := mul_le_mul_of_nonneg_right (Nat.cast_le.2 (Nat.le_add_right _ _)) (by positivity)

/-- Digits after the point make a number larger and its power of ten smaller, and together worth no
more. -/
theorem pushFraction_le (digits : List Char) (s : Scaled) :
    s.significand ≤ (s.pushFraction digits).significand ∧
      (s.pushFraction digits).exponent ≤ s.exponent ∧
      (s.significand < 2 ^ 64 → (s.pushFraction digits).significand < 2 ^ 64) ∧
      (s.pushFraction digits).value ≤
        ((s.significand * 10 ^ digits.length + digitsToNat digits : Nat) : ℚ) * 10 ^
          (s.exponent - digits.length) := by
  -- a digit that is kept goes on with a number ten times as large, so the bound is stated for all
  -- numbers to begin with
  induction digits generalizing s with
  | nil =>
    show _ ≤ s.significand ∧ s.exponent ≤ _ ∧ (_ → s.significand < _) ∧ s.value ≤ _
    simp [digitsToNat, value]
  | cons c digits ih =>
    rw [pushFraction_cons, digitsToNat_cons, List.length_cons]
    split
    next kept hpush =>
      obtain ⟨rfl, hword⟩ := of_push? hpush
      dsimp only
      obtain ⟨hlarger, hsmaller, hfits, hvalue⟩ :=
        ih ⟨10 * s.significand + (c.toNat - '0'.toNat), s.exponent - 1⟩
      dsimp only at hlarger hsmaller hfits hvalue hword
      refine ⟨by omega, by omega, fun _ => hfits hword, ?_⟩
      have hdigits : (10 * s.significand + (c.toNat - '0'.toNat)) * 10 ^ digits.length +
          digitsToNat digits =
          s.significand * 10 ^ (digits.length + 1) +
            ((c.toNat - '0'.toNat) * 10 ^ digits.length + digitsToNat digits) := by
        rw [Nat.pow_succ]
        ring
      rwa [hdigits, show s.exponent - 1 - digits.length =
        s.exponent - ((digits.length + 1 : Nat) : ℤ) by omega] at hvalue
    next hpush => exact ⟨Nat.le_refl _, Int.le_refl _, id, s.value_le _ _⟩

end Scaled

/-! ## Powers of ten -/

theorem scale?_isSome_of_neg {exponent : Int} (he : exponent < 0) (steps : Nat) (x : Float) :
    (scale? steps x exponent).isSome := by
  induction steps generalizing x exponent with
  | zero => rfl
  | succ steps ih =>
    rw [scale?]
    split
    · rw [if_neg (by omega)]
      rfl
    next hlarge =>
      split
      · rfl
      · rw [if_neg (by omega)]
        exact ih (by simp only [maxPower] at hlarge ⊢; omega) _

/-- A number that is not too large may be multiplied by its power of ten. -/
theorem scale?_isSome_of_small {significand : Nat} {power : Nat} (hpos : 0 < significand)
    (hword : significand < 2 ^ 64)
    (hsmall : significand * 10 ^ power * (2 ^ 53 + 1) ^ 2 < (2 ^ 54 - 1) * 2 ^ (970 + 106))
    (steps : Nat) :
    (scale? (steps + 1) significand.toUInt64.toFloat power).isSome := by
  -- a larger power of ten would be refused before the product is looked at
  have hpower : power ≤ maxPower := by
    by_contra hlarge
    have hten : 1 * 10 ^ (maxPower + 1) ≤ significand * 10 ^ power :=
      Nat.mul_le_mul hpos (Nat.pow_le_pow_right (by decide) (by omega))
    have hbeyond : (2 ^ 54 - 1) * 2 ^ (970 + 106) ≤ 1 * 10 ^ (maxPower + 1) * (2 ^ 53 + 1) ^ 2 := by
      decide +kernel
    exact absurd hsmall (Nat.not_lt.2 (Nat.le_trans hbeyond (Nat.mul_le_mul_right _ hten)))
  have hfinite := isFinite_mul (isNear_toFloat hpos hword) (isNear_powerOfTen hpower) hsmall
  rw [scale?, if_pos (by omega), if_pos (by omega), Int.natAbs_natCast]
  simp [hfinite]

/-! ## Numerals -/

theorem digitsToNat_lt {digits : List Char} (hdigits : ∀ c ∈ digits, c.isDigit) :
    digitsToNat digits < 10 ^ digits.length := by
  induction digits with
  | nil => decide
  | cons c digits ih =>
    have hdigit := digit_le (hdigits c (by simp))
    have hrest := ih fun c hc => hdigits c (by simp [hc])
    have hfirst := Nat.mul_le_mul_right (10 ^ digits.length) hdigit
    rw [digitsToNat_cons, List.length_cons, Nat.pow_succ]
    omega

theorem float?_isSome {n : Numeral} {s : Scaled}
    (hs : ((⟨0, 0⟩ : Scaled).pushWhole n.whole).pushFraction (n.fraction.getD []) = s)
    (hscale : (scale? 5 s.significand.toUInt64.toFloat (s.exponent + writtenPower n)).isSome) :
    (float? n).isSome := by
  rw [float?, hs]
  simpa using hscale

/-- A numeral with a point and no power of ten is read, if there are few digits before the point. -/
theorem float?_isSome_of_point {n : Numeral} (hn : n.Legal) (hfew : n.whole.length ≤ 16)
    {digits : List Char} (hfraction : n.fraction = some digits)
    (hexponent : n.exponent = none) : (float? n).isSome := by
  obtain ⟨hne, hdigits⟩ := hn.fraction digits hfraction
  obtain ⟨c, rest, rfl⟩ := List.exists_cons_of_ne_nil hne
  have hlength : 10 ^ n.whole.length ≤ 10 ^ 16 := Nat.pow_le_pow_right (by decide) hfew
  have hwhole := Scaled.pushWhole_of_le hn.whole.2 ⟨0, 0⟩ (by dsimp only; omega)
  have hfits := digitsToNat_lt hn.whole.2
  have hpush := Scaled.push?_of_lt (s := ⟨0 * 10 ^ n.whole.length + digitsToNat n.whole, 0⟩)
    (hdigits c (by simp))
    (by dsimp only; omega)
  refine float?_isSome rfl (scale?_isSome_of_neg ?_ 5 _)
  rw [hwhole, hfraction, Option.getD_some, Scaled.pushFraction_cons, hpush, writtenPower, hexponent]
  have hsmaller := (Scaled.pushFraction_le rest
    ⟨10 * (0 * 10 ^ n.whole.length + digitsToNat n.whole) + (c.toNat - '0'.toNat), 0 - 1⟩).2.1
  dsimp only at hsmaller ⊢
  omega

theorem writtenPower_scale (negative : Bool) (d : Digits) :
    writtenPower (Layout.scale negative d) = d.exponent := by
  rw [writtenPower, Layout.scale]
  by_cases hneg : d.exponent < 0
  · simp only [hneg, if_true, digitsToNat_toDigits]
    omega
  · simp only [hneg, if_false, digitsToNat_toDigits]
    omega

theorem exists_scaled (negative : Bool) {d : Digits} (hd : d.Leading) : ∃ s : Scaled,
    ((⟨0, 0⟩ : Scaled).pushWhole (Layout.scale negative d).whole).pushFraction
      ((Layout.scale negative d).fraction.getD []) = s ∧
      0 < s.significand ∧ s.significand < 2 ^ 64 ∧ s.exponent ≤ 0 ∧
      s.value * 10 ^ d.exponent ≤ d.value := by
  obtain ⟨⟨hne, hdigits⟩, hhead⟩ := hd
  obtain ⟨digits, exponent⟩ := d
  obtain ⟨c, rest, rfl⟩ := List.exists_cons_of_ne_nil hne
  dsimp only at hdigits hhead
  have hwhole := @Scaled.pushWhole_of_le [c] (by simpa using hdigits c (by simp)) ⟨0, 0⟩ (by simp)
  have hfraction : (Layout.scale negative ⟨c :: rest, exponent⟩).fraction.getD [] = rest := by
    simp only [Layout.scale]
    cases rest <;> simp
  have hpos : 0 < c.toNat - '0'.toNat :=
    digit_pos (hdigits c (by simp)) fun he => hhead (congrArg some he)
  have hdigit := digit_le (hdigits c (by simp))
  have hfirst : (⟨0, 0⟩ : Scaled).pushWhole (Layout.scale negative ⟨c :: rest, exponent⟩).whole =
      ⟨c.toNat - '0'.toNat, 0⟩ := by
    simpa [Layout.scale, digitsToNat] using hwhole
  obtain ⟨hlarger, hsmaller, hword, hvalue⟩ := Scaled.pushFraction_le rest ⟨c.toNat - '0'.toNat, 0⟩
  refine ⟨_, rfl, ?_⟩
  rw [hfirst, hfraction]
  refine ⟨Nat.lt_of_lt_of_le hpos hlarger, hword (by dsimp only; omega), hsmaller, ?_⟩
  calc (Scaled.pushFraction ⟨c.toNat - '0'.toNat, 0⟩ rest).value * 10 ^ exponent
      ≤ (digitsToNat (c :: rest) : ℚ) * 10 ^ (0 - (rest.length : ℤ)) * 10 ^ exponent := by
        rw [digitsToNat_cons]
        exact mul_le_mul_of_nonneg_right hvalue (by positivity)
    _ = Digits.value ⟨c :: rest, exponent⟩ := by
        rw [mul_assoc, ← zpow_add₀ (by norm_num), Digits.value, List.length_cons,
          show 0 - (rest.length : ℤ) + exponent =
            exponent + 1 - ((rest.length + 1 : Nat) : ℤ) by omega]

/-- A numeral with one digit before the point is read if it is worth less than the greatest finite
number and half a unit, and the rounding errors besides. -/
theorem float?_scale_of_small (negative : Bool) {d : Digits} (hd : d.Leading) {bound : Nat}
    (hvalue : d.value ≤ bound)
    (hbound : bound * (2 ^ 53 + 1) ^ 2 < (2 ^ 54 - 1) * 2 ^ (970 + 106)) :
    (float? (Layout.scale negative d)).isSome := by
  obtain ⟨s, hs, hpos, hword, -, hle⟩ := exists_scaled negative hd
  refine float?_isSome hs ?_
  rw [writtenPower_scale]
  rcases Int.lt_or_le (s.exponent + d.exponent) 0 with hneg | hnonneg
  · exact scale?_isSome_of_neg hneg 5 _
  · obtain ⟨power, hpower⟩ := Int.eq_ofNat_of_zero_le hnonneg
    have hsmall : s.significand * 10 ^ power ≤ bound := by
      rw [← Nat.cast_le (α := ℚ)]
      calc ((s.significand * 10 ^ power : Nat) : ℚ) = s.value * 10 ^ d.exponent := by
            rw [Scaled.value, mul_assoc, ← zpow_add₀ (by norm_num), hpower, Nat.cast_mul,
              Nat.cast_pow, zpow_natCast]
            rfl
        _ ≤ bound := le_trans hle hvalue
    rw [hpower]
    exact scale?_isSome_of_small hpos hword
      (Nat.lt_of_le_of_lt (Nat.mul_le_mul_right _ hsmall) hbound) 4

/-! ## Finite numbers -/

theorem float?_place (negative : Bool) {d : Digits} (hd : d.Regular) (he : d.exponent < 16) :
    (float? (layout.place negative d)).isSome := by
  have hlength := layout.length_whole_place negative d
  obtain ⟨digits, hdigits⟩ : ∃ digits, (layout.place negative d).fraction = some digits := by
    rw [Layout.fraction_place]
    split <;> exact ⟨_, rfl⟩
  exact float?_isSome_of_point (layout.legal_place negative hd) (by omega) hdigits rfl

variable {mantissa : Nat} {exponent : Int}

/-- The two greatest numbers are read, though their digits and the rounding errors might be worth
too much. -/
theorem float?_numeral_of_greatest (negative : Bool)
    (hm : mantissa = 2 ^ 53 - 1 ∨ mantissa = 2 ^ 53 - 2) :
    (float? (layout.numeral negative mantissa 971)).isSome := by
  rcases hm with rfl | rfl <;> revert negative <;> decide +kernel

/-- What still rounds to one of the other numbers leaves room for the rounding errors. -/
theorem neighbourhood_le (hm : mantissa < 2 ^ 53) (he' : exponent ≤ 971)
    (hgreatest : exponent = 971 → mantissa ≤ 2 ^ 53 - 3) :
    (4 * mantissa + 2 : ℚ) * 2 ^ (exponent - 2) ≤ (((2 ^ 54 - 5) * 2 ^ 970 : Nat) : ℚ) := by
  have hcast : (((2 ^ 54 - 5) * 2 ^ 970 : Nat) : ℚ) = ((2 ^ 54 - 5 : Nat) : ℚ) * 2 ^ (970 : ℤ) := by
    rw [Nat.cast_mul, Nat.cast_pow]
    rfl
  have hlast : ((2 ^ 54 - 5 : Nat) : ℚ) = 2 * (2 ^ 53 - 3) + 1 := by norm_num
  have hscale : (0 : ℚ) < 2 ^ (970 : ℤ) := by positivity
  rw [hcast, hlast]
  clear hcast hlast
  -- below the greatest exponent any number will do, since its unit is at most half as large
  rcases Int.lt_or_eq_of_le he' with hlt | rfl
  · have hunit : (2 : ℚ) ^ (exponent - 2) ≤ 2 ^ (970 : ℤ) * 2 ^ (-2 : ℤ) := by
      rw [← zpow_add₀ (by norm_num)]
      exact zpow_le_zpow_right₀ (by norm_num) (by omega)
    have hmantissa : (mantissa : ℚ) < 2 ^ 53 := by exact_mod_cast hm
    generalize (2 : ℚ) ^ (970 : ℤ) = scale at *
    calc (4 * mantissa + 2 : ℚ) * 2 ^ (exponent - 2) ≤
      (4 * mantissa + 2) * (scale * 2 ^ (-2 : ℤ)) :=
          mul_le_mul_of_nonneg_left hunit (by positivity)
      _ = (mantissa + 1 / 2) * scale := by norm_num; ring
      _ ≤ (2 * (2 ^ 53 - 3) + 1) * scale := mul_le_mul_of_nonneg_right (by linarith) hscale.le
  · have hunit : (2 : ℚ) ^ (971 - 2 : ℤ) = 2 ^ (970 : ℤ) * 2 ^ (-1 : ℤ) := by
      rw [← zpow_add₀ (by norm_num)]
      norm_num
    have hmantissa : (mantissa : ℚ) + 3 ≤ 2 ^ 53 := by
      exact_mod_cast (show mantissa + 3 ≤ 2 ^ 53 by have := hgreatest rfl; omega)
    rw [hunit]
    generalize (2 : ℚ) ^ (970 : ℤ) = scale at *
    calc (4 * mantissa + 2 : ℚ) * (scale * 2 ^ (-1 : ℤ)) = (2 * mantissa + 1) * scale := by
          norm_num
          ring
      _ ≤ (2 * (2 ^ 53 - 3) + 1) * scale := mul_le_mul_of_nonneg_right (by linarith) hscale.le

theorem float?_numeral (negative : Bool) (hm : mantissa < 2 ^ 53) (he : -1074 ≤ exponent)
    (he' : exponent ≤ 971) :
    (float? (layout.numeral negative mantissa exponent)).isSome := by
  by_cases hgreatest : exponent = 971 ∧ 2 ^ 53 - 3 < mantissa
  · obtain ⟨rfl, hlarge⟩ := hgreatest
    exact float?_numeral_of_greatest negative (by omega)
  rw [Layout.numeral]
  by_cases hzero : mantissa = 0
  · have hpositional : layout.positional (⟨['0'], 0⟩ : Digits).exponent = true := rfl
    rw [if_pos hzero, if_pos hpositional]
    exact float?_place negative Digits.regular_zero (by decide)
  · rw [if_neg hzero]
    obtain ⟨hd, hvalue⟩ := shortest_le layout.tieUp (Nat.pos_of_ne_zero hzero) hm he he'
    generalize shortest layout.tieUp mantissa exponent = d at *
    split
    next hpositional =>
      have hrange : -5 ≤ d.exponent ∧ d.exponent < 16 := by simpa [layout] using hpositional
      exact float?_place negative hd.regular hrange.2
    next hpositional =>
      exact float?_scale_of_small negative hd
        (le_trans hvalue (neighbourhood_le hm he' fun h => by omega)) (by decide +kernel)

theorem isLegal_ofFloat (x : Float) : (ofFloat x).IsLegal := by
  unfold ofFloat
  split
  next negative mantissa exponent hview =>
    obtain ⟨hm, he, he'⟩ := bounds_of_view hview
    exact layout.legal_numeral negative hm he he'
  next => trivial

/-- Of all numbers just the finite ones are read back. -/
theorem asFloat?_ofFloat (x : Float) : (asFloat? (ofFloat x)).isSome = isFinite x := by
  cases hview : view x with
  | finite negative mantissa exponent =>
    obtain ⟨hm, he, he'⟩ := bounds_of_view hview
    simp only [ofFloat, isFinite, hview]
    exact float?_numeral negative hm he he'
  | _ =>
    simp only [ofFloat, isFinite, hview]
    rfl

end Json
end MotionScript
