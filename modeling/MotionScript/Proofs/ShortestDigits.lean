import MotionScript.Proofs.JsonRoundTrip
import Mathlib.Algebra.Order.Field.Power
import Mathlib.Data.Rat.Cast.Order
import Mathlib.Tactic.Linarith
import Mathlib.Tactic.Ring

/-!
# What the shortest digits are worth

The search over ever finer grids ends at a positive point that does not lie above the upper end of
the neighbourhood of the number: either it hits the neighbourhood, or the last grid is so fine that
even the point below the number is positive. So the digits of a number form a numeral as it may be
written, and they are worth no more than what still rounds to the number.
-/
namespace MotionScript.Number

/-! ## Grids -/

theorem zpow_eq_div (b : ℚ) (e : ℤ) : b ^ e = b ^ e.toNat / b ^ (-e).toNat := by
  rcases Int.le_total 0 e with he | he
  · obtain ⟨n, rfl⟩ := Int.eq_ofNat_of_zero_le he
    simp
  · obtain ⟨n, hn⟩ := Int.eq_ofNat_of_zero_le (Int.neg_nonneg_of_nonpos he)
    obtain rfl : e = -n := by omega
    simp

namespace Neighbourhood

variable {h : Neighbourhood} {tieUp : Bool} {unit : Int}

theorem mul_onGrid_le_iff (h : Neighbourhood) (unit : Int) (point x : Nat) :
    point * (h.onGrid unit x).2 ≤ (h.onGrid unit x).1 ↔
      (point : ℚ) * 10 ^ unit ≤ x * 2 ^ h.exponent := by
  have h2 (n : Nat) : (0 : ℚ) < 2 ^ n := by positivity
  have h10 (n : Nat) : (0 : ℚ) < 10 ^ n := by positivity
  rw [zpow_eq_div 10 unit, zpow_eq_div 2 h.exponent, ← mul_div_assoc, ← mul_div_assoc,
    div_le_div_iff₀ (h10 _) (h2 _)]
  simp only [onGrid, Nat.pow_eq]
  rw [← Nat.cast_le (α := ℚ)]
  push_cast
  constructor <;> intro hle <;> linarith

theorem onGrid_scale_pos (h : Neighbourhood) (unit : Int) (x : Nat) : 0 < (h.onGrid unit x).2 := by
  simp only [onGrid, Nat.pow_eq]
  positivity

theorem contains_of_hit? {point : Nat} (hhit : h.hit? tieUp unit = some point) :
    h.contains unit point = true := by
  unfold hit? at hhit
  dsimp only at hhit
  split at hhit
  next hbelow habove =>
    split at hhit
    · cases hhit; exact habove
    · cases hhit; exact hbelow
  next hbelow _ => cases hhit; exact hbelow
  next _ habove => cases hhit; exact habove
  next => cases hhit

theorem between_of_contains {point : Nat} (hcontains : h.contains unit point = true) :
    (h.onGrid unit h.lower).1 ≤ point * (h.onGrid unit h.lower).2 ∧
      point * (h.onGrid unit h.upper).2 ≤ (h.onGrid unit h.upper).1 := by
  unfold contains at hcontains
  dsimp only at hcontains
  split at hcontains <;> simp only [Bool.and_eq_true, decide_eq_true_eq] at hcontains
  · exact hcontains
  · exact ⟨Nat.le_of_lt hcontains.1, Nat.le_of_lt hcontains.2⟩

theorem hit?_le {point : Nat} (hlower : 0 < h.lower) (hhit : h.hit? tieUp unit = some point) :
    0 < point ∧ (point : ℚ) * 10 ^ unit ≤ h.upper * 2 ^ h.exponent := by
  obtain ⟨hleft, hright⟩ := between_of_contains (contains_of_hit? hhit)
  refine ⟨Nat.pos_of_ne_zero ?_, (mul_onGrid_le_iff ..).1 hright⟩
  rintro rfl
  have hpos : 0 < (h.onGrid unit h.lower).1 := by
    simp only [onGrid, Nat.pow_eq]
    positivity
  omega

/-- What the search finds is positive and not too large, if on the last grid the number is one unit
or more. -/
theorem search_le (hlower : 0 < h.lower) (hupper : h.value ≤ h.upper) (grids : Nat) (unit : Int)
    (hfine : (10 : ℚ) ^ (unit - grids) ≤ h.value * 2 ^ h.exponent) :
    0 < (h.search tieUp grids unit).1 ∧
      ((h.search tieUp grids unit).1 : ℚ) * 10 ^ (h.search tieUp grids unit).2 ≤
        h.upper * 2 ^ h.exponent := by
  induction grids generalizing unit with
  | zero =>
    -- nothing was hit, so the point below the number is taken
    refine ⟨Nat.div_pos ?_ (h.onGrid_scale_pos unit h.value), ?_⟩
    · simpa using (h.mul_onGrid_le_iff unit 1 h.value).2 (by simpa using hfine)
    · calc (((h.onGrid unit h.value).1 / (h.onGrid unit h.value).2 : Nat) : ℚ) * 10 ^ unit ≤
          h.value * 2 ^ h.exponent :=
            (h.mul_onGrid_le_iff unit _ h.value).1 (Nat.div_mul_le_self _ _)
        _ ≤ h.upper * 2 ^ h.exponent :=
          mul_le_mul_of_nonneg_right (Nat.cast_le.2 hupper) (by positivity)
  | succ grids ih =>
    rw [search]
    split
    next point hhit => exact hit?_le hlower hhit
    next =>
      exact ih (unit - 1) (by
        rwa [show unit - 1 - (grids : ℤ) = unit - ((grids + 1 : Nat) : ℤ) by omega])

end Neighbourhood

/-- Ten grids below the first one even small numbers are one unit or more. -/
theorem ten_zpow_le_two_zpow {l : ℤ} (hl : -1074 ≤ l) (hl' : l ≤ 1023) :
    (10 : ℚ) ^ (l * 30103 / 100000 + 1 - 20) ≤ 2 ^ l := by
  -- `10 ^ 3` is less than `2 ^ 10`, which is enough above one, and `2 ^ 13` is less than `10 ^ 4`,
  -- which is enough below
  rcases Int.le_total 0 (l * 30103 / 100000 + 1 - 20) with hu | hu
  · obtain ⟨n, hn⟩ := Int.eq_ofNat_of_zero_le hu
    calc (10 : ℚ) ^ (l * 30103 / 100000 + 1 - 20) ≤ 10 ^ (3 * (n / 3 + 1) : ℤ) :=
      zpow_le_zpow_right₀ (by norm_num) (by omega)
      _ = (10 ^ 3) ^ (n / 3 + 1 : ℤ) := by rw [zpow_mul]; norm_num
      _ ≤ (2 ^ 10) ^ (n / 3 + 1 : ℤ) := zpow_le_zpow_left₀ (by omega) (by norm_num) (by norm_num)
      _ = 2 ^ (10 * (n / 3 + 1) : ℤ) := by rw [zpow_mul]; norm_num
      _ ≤ 2 ^ l := zpow_le_zpow_right₀ (by norm_num) (by omega)
  · obtain ⟨n, hn⟩ : ∃ n : Nat, (l * 30103 / 100000 + 1 - 20 : ℤ) ≤ -(4 * n) ∧ -(13 * n : ℤ) ≤ l :=
      ⟨(-(l * 30103 / 100000 + 1 - 20)).toNat / 4, by omega, by omega⟩
    calc (10 : ℚ) ^ (l * 30103 / 100000 + 1 - 20) ≤ 10 ^ (-(4 * n) : ℤ) :=
      zpow_le_zpow_right₀ (by norm_num) hn.1
      _ = ((10 ^ 4) ^ n)⁻¹ := by rw [zpow_neg, zpow_mul]; norm_num
      _ ≤ ((2 ^ 13) ^ n)⁻¹ :=
        inv_anti₀ (by positivity) (pow_le_pow_left₀ (by norm_num) (by norm_num) n)
      _ = 2 ^ (-(13 * n) : ℤ) := by rw [zpow_neg, zpow_mul]; norm_num
      _ ≤ 2 ^ l := zpow_le_zpow_right₀ (by norm_num) hn.2

/-! ## Digits -/

open Text

theorem digitsToNat_append (digits more : List Char) :
    digitsToNat (digits ++ more) = digitsToNat digits * 10 ^ more.length + digitsToNat more := by
  show Nat.ofDigitChars 10 (digits ++ more) 0 =
    Nat.ofDigitChars 10 digits 0 * 10 ^ more.length + Nat.ofDigitChars 10 more 0
  rw [Nat.ofDigitChars_append, Nat.ofDigitChars_eq_ofDigitChars_zero (l := more), Nat.mul_comm]

theorem digitsToNat_toDigits (n : Nat) : digitsToNat (Nat.toDigits 10 n) = n :=
  Nat.ofDigitChars_ten_toDigits

/-- Digits that begin a numeral: there are some, and the first is no zero. -/
structure Digits.Leading (d : Digits) : Prop where
  digits : AreDigits d.digits
  head : d.digits.head? ≠ some '0'

def Digits.value (d : Digits) : ℚ := digitsToNat d.digits * 10 ^ (d.exponent + 1 - d.digits.length)

theorem Digits.exists_zeros (n : Nat) (unit : Int) :
    ∃ count, Nat.toDigits 10 n = (Digits.ofNat n unit).digits ++ List.replicate count '0' := by
  have hzeros : (Nat.toDigits 10 n).rtakeWhile (· == '0') =
      List.replicate ((Nat.toDigits 10 n).rtakeWhile (· == '0')).length '0' :=
    List.eq_replicate_iff.2 ⟨rfl, fun c hc => by simpa using List.mem_rtakeWhile_imp hc⟩
  refine ⟨((Nat.toDigits 10 n).rtakeWhile (· == '0')).length, ?_⟩
  rw [← hzeros]
  exact List.rdropWhile_append_rtakeWhile.symm

theorem Digits.leading_ofNat {n : Nat} (hn : 0 < n) (unit : Int) :
    (Digits.ofNat n unit).Leading := by
  obtain ⟨count, hzeros⟩ := exists_zeros n unit
  have hhead := Json.head?_toDigits hn
  have hdigits := (Json.areDigits_toDigits n).2
  rw [hzeros] at hhead hdigits
  have hne : (Digits.ofNat n unit).digits ≠ [] := by
    intro hnil
    rw [hnil, List.nil_append] at hhead hzeros
    cases count with
    | zero => exact Nat.toDigits_ne_nil hzeros
    | succ count => exact hhead rfl
  obtain ⟨c, rest, hcons⟩ := List.exists_cons_of_ne_nil hne
  rw [hcons] at hhead hdigits
  refine ⟨⟨hne, fun c hc => hdigits c ?_⟩, ?_⟩
  · rw [hcons] at hc
    exact List.mem_append_left _ hc
  · rw [hcons]
    exact hhead

theorem Digits.value_ofNat (n : Nat) (unit : Int) :
    (Digits.ofNat n unit).value = n * 10 ^ unit := by
  obtain ⟨count, hzeros⟩ := exists_zeros n unit
  have hn : n = digitsToNat (Digits.ofNat n unit).digits * 10 ^ count := by
    have hvalue := digitsToNat_append (Digits.ofNat n unit).digits (List.replicate count '0')
    have hnothing : digitsToNat (List.replicate count '0') = 0 :=
      Nat.ofDigitChars_replicate_zero.trans (Nat.mul_zero _)
    rwa [← hzeros, digitsToNat_toDigits, List.length_replicate, hnothing, Nat.add_zero] at hvalue
  have hlength := congrArg List.length hzeros
  rw [List.length_append, List.length_replicate] at hlength
  have hexponent : (Digits.ofNat n unit).exponent + 1 - (Digits.ofNat n unit).digits.length =
      unit + count := by
    have : (Digits.ofNat n unit).exponent = unit + (Nat.toDigits 10 n).length - 1 := rfl
    omega
  rw [value, hexponent, zpow_add₀ (by norm_num), zpow_natCast, mul_left_comm]
  conv_rhs => rw [hn]
  push_cast
  exact mul_comm _ _

/-- The digits of a floating-point number are no more than what still rounds to it. -/
theorem shortest_le (tieUp : Bool) {mantissa : Nat} {exponent : Int} (hpos : 0 < mantissa)
    (hm : mantissa < 2 ^ 53) (he : -1074 ≤ exponent) (he' : exponent ≤ 971) :
    (shortest tieUp mantissa exponent).Leading ∧
      (shortest tieUp mantissa exponent).value ≤ (4 * mantissa + 2) * 2 ^ (exponent - 2) := by
  have hlower : 0 < (Neighbourhood.ofFloat mantissa exponent).lower := by
    simp only [Neighbourhood.ofFloat]
    split <;> omega
  have hupper : (Neighbourhood.ofFloat mantissa exponent).value ≤
      (Neighbourhood.ofFloat mantissa exponent).upper := by
    simp [Neighbourhood.ofFloat]
  have hlog : mantissa.log2 < 53 := (Nat.log2_lt (by omega)).2 hm
  have hfine : (10 : ℚ) ^ (magnitude mantissa exponent - (20 : Nat)) ≤
      (Neighbourhood.ofFloat mantissa exponent).value * 2 ^
        (Neighbourhood.ofFloat mantissa exponent).exponent := by
    have hlow : ((2 : ℚ) ^ mantissa.log2) ≤ mantissa := by
      exact_mod_cast Nat.log2_self_le (by omega)
    calc (10 : ℚ) ^ (magnitude mantissa exponent - (20 : Nat)) ≤
        2 ^ ((mantissa.log2 : ℤ) + exponent) :=
          ten_zpow_le_two_zpow (by omega) (by omega)
      _ = 2 ^ mantissa.log2 * 2 ^ exponent := by rw [zpow_add₀ (by norm_num), zpow_natCast]
      _ ≤ mantissa * 2 ^ exponent := mul_le_mul_of_nonneg_right hlow (by positivity)
      _ = (4 * mantissa) * 2 ^ (exponent - 2) := by rw [zpow_sub₀ (by norm_num)]; ring
      _ = _ := by simp [Neighbourhood.ofFloat]
  obtain ⟨hpoint, hle⟩ :=
    @Neighbourhood.search_le _ tieUp hlower hupper 20 (magnitude mantissa exponent) hfine
  refine ⟨Digits.leading_ofNat hpoint _, ?_⟩
  calc (shortest tieUp mantissa exponent).value = _ := Digits.value_ofNat _ _
    _ ≤ _ := hle
    _ = (4 * mantissa + 2) * 2 ^ (exponent - 2) := by simp [Neighbourhood.ofFloat]

/-! ## Layouts -/

/-- Digits that can be laid out: there are some, and the first is a zero only if it is the whole
number. -/
structure Digits.Regular (d : Digits) : Prop where
  digits : AreDigits d.digits
  head : d.digits.head? = some '0' → d.exponent = 0

theorem Digits.Leading.regular {d : Digits} (hd : d.Leading) : d.Regular :=
  ⟨hd.digits, fun h => absurd h hd.head⟩

theorem Digits.regular_zero : Regular ⟨['0'], 0⟩ := ⟨⟨by simp, by simp⟩, fun _ => rfl⟩

namespace Layout

theorem whole_place (layout : Layout) (negative : Bool) (d : Digits) :
    (layout.place negative d).whole =
    if d.exponent < 0 then ['0']
    else d.digits.take (d.exponent.toNat + 1) ++
      List.replicate (d.exponent + 1 - d.digits.length).toNat '0' := rfl

theorem fraction_place (layout : Layout) (negative : Bool) (d : Digits) :
    (layout.place negative d).fraction =
    if List.replicate (-d.exponent - 1).toNat '0' ++ d.digits.drop (d.exponent + 1).toNat = [] then
      if layout.pointAlways then some ['0'] else none
    else some
      (List.replicate (-d.exponent - 1).toNat '0' ++ d.digits.drop (d.exponent + 1).toNat) := rfl

theorem length_whole_place (layout : Layout) (negative : Bool) (d : Digits) :
    (layout.place negative d).whole.length ≤ d.exponent.toNat + 1 := by
  rw [whole_place]
  split
  · simp
  · rw [List.length_append, List.length_take, List.length_replicate]
    omega

theorem legal_place (layout : Layout) (negative : Bool) {d : Digits} (hd : d.Regular) :
    (layout.place negative d).Legal := by
  obtain ⟨⟨hne, hdigits⟩, hhead⟩ := hd
  have hzero (count : Nat) (c : Char) (hc : c ∈ List.replicate count '0') : c.isDigit := by
    rw [List.eq_of_mem_replicate hc]
    rfl
  have hpos : 0 < d.digits.length := List.length_pos_iff.2 hne
  refine ⟨⟨?_, ?_⟩, ?_, ?_, by simp [place]⟩
  · rw [whole_place]
    split <;> simp [hne]
  · rw [whole_place]
    split
    · simp
    · intro c hc
      rcases List.mem_append.1 hc with hc | hc
      · exact hdigits c (List.mem_of_mem_take hc)
      · exact hzero _ c hc
  · rw [whole_place]
    split
    · simp
    · intro h
      obtain ⟨c, rest, hcons⟩ := List.exists_cons_of_ne_nil hne
      have hexponent : d.exponent = 0 := hhead (by simpa [hcons] using h)
      rw [hexponent, List.length_append, List.length_take, List.length_replicate]
      omega
  · intro digits h
    rw [fraction_place] at h
    split at h
    · split at h <;> cases h
      exact ⟨by simp, by simp⟩
    next hfraction =>
      cases h
      refine ⟨hfraction, fun c hc => ?_⟩
      rcases List.mem_append.1 hc with hc | hc
      · exact hzero _ c hc
      · exact hdigits c (List.mem_of_mem_drop hc)

theorem legal_scale (negative : Bool) {d : Digits} (hd : AreDigits d.digits) :
    (scale negative d).Legal where
  whole := ⟨by simp [scale, hd.1], fun c hc => hd.2 c (List.mem_of_mem_take hc)⟩
  leading _ := by
    have hpos : 0 < d.digits.length := List.length_pos_iff.2 hd.1
    simp only [scale, List.length_take]
    omega
  fraction digits h := by
    simp only [scale] at h
    split at h
    · cases h
    next hlong =>
      cases h
      exact ⟨fun hnil => hlong (List.drop_eq_nil_iff.1 hnil),
        fun c hc => hd.2 c (List.mem_of_mem_drop hc)⟩
  exponent power h := by
    cases h
    exact Json.areDigits_toDigits _

theorem legal_numeral (layout : Layout) (negative : Bool) {mantissa : Nat} {exponent : Int}
    (hm : mantissa < 2 ^ 53) (he : -1074 ≤ exponent) (he' : exponent ≤ 971) :
    (layout.numeral negative mantissa exponent).Legal := by
  have hlegal (d : Digits) (hd : d.Regular) :
      (if layout.positional d.exponent then layout.place negative d
        else scale negative d).Legal := by
    split
    · exact legal_place layout negative hd
    · exact legal_scale negative hd.digits
  rw [numeral]
  refine hlegal _ ?_
  split
  · exact Digits.regular_zero
  next hne => exact (shortest_le layout.tieUp (Nat.pos_of_ne_zero hne) hm he he').1.regular

end Layout
end MotionScript.Number
