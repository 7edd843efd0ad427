import MotionScript.Json.Amount
import Mathlib.Tactic.Ring

/-!
# Rounding in floating-point multiplication

What the bits of a float say and what a multiplication makes of two floats are given by the logical
model of `Float`. Rounding to fifty-three bits errs by at most half a unit in the last place. So a
product is finite if the exact product lies below the greatest finite number and half a unit, which
is all that reading decimal texts needs.
-/
namespace MotionScript.Number
open Float.Model UnpackedFloat

theorem log2_eq {m k : Nat} (hm : 2 ^ k ≤ m) (hm' : m < 2 ^ (k + 1)) : m.log2 = k :=
  (Nat.log2_eq_iff (by have := Nat.two_pow_pos k; omega)).2 ⟨hm, hm'⟩

/-! ## The bits of a float -/

section

variable {m : Nat} {e : Int}

theorem toBits_pack (hpos : 0 < m) (hm : 2 ^ 52 ≤ m) (hm' : m < 2 ^ 53) (he : -1074 ≤ e)
    (he' : e ≤ 971) :
    (Float.toBits (.ofModel (.pack (.finite .positive m e hpos)))).toNat =
      (e + 1075).toNat * 2 ^ 52 + (m - 2 ^ 52) := by
  have hlog : m.log2 = 52 := log2_eq hm hm'
  have hbias : (Format.binary64.exponentBias : Int) = 1023 := rfl
  have hbiased :
      (e + Format.binary64.exponentBias + Format.binary64.mantissaBitsWithoutImplicit : Int) =
        e + 1075 := by
    rw [hbias]
    dsimp only
    omega
  have hexponent : (BitVec.ofNat 11 (e + 1075).toNat).toNat = (e + 1075).toNat := by
    rw [BitVec.toNat_ofNat]
    omega
  have hmantissa : (BitVec.ofNat 52 m).toNat = m - 2 ^ 52 := by
    rw [BitVec.toNat_ofNat]
    omega
  have hsign : UnpackedFloat.Sign.positive.toBitVec.toNat = 0 := rfl
  show (UnpackedFloat.pack Format.binary64 (.finite .positive m e hpos)).toNat = _
  unfold UnpackedFloat.pack
  dsimp only
  rw [hbiased, if_neg (by omega), if_pos (by rw [hlog]; rfl)]
  unfold packComponents
  rw [BitVec.toNat_append, BitVec.toNat_append, hexponent, hmantissa, hsign, Nat.zero_shiftLeft,
    Nat.zero_or, ← Nat.shiftLeft_add_eq_or_of_lt (by omega), Nat.shiftLeft_eq]

/-- What is packed is what is seen, unless it is tiny or too large. -/
theorem view_pack (hpos : 0 < m) (hm : 2 ^ 52 ≤ m) (hm' : m < 2 ^ 53) (he : -1074 ≤ e)
    (he' : e ≤ 971) :
    view (.ofModel (.pack (.finite .positive m e hpos))) = .finite false m e := by
  have hbits := toBits_pack hpos hm hm' he he'
  have hsign : ((e + 1075).toNat * 2 ^ 52 + (m - 2 ^ 52)) / 2 ^ 63 = 0 := by omega
  have hfield : ((e + 1075).toNat * 2 ^ 52 + (m - 2 ^ 52)) / 2 ^ 52 % 2 ^ 11 =
    (e + 1075).toNat := by omega
  have hfraction : ((e + 1075).toNat * 2 ^ 52 + (m - 2 ^ 52)) % 2 ^ 52 = m - 2 ^ 52 := by omega
  have hexponent : ((e + 1075).toNat : Int) - 1 + -1074 = e := by omega
  generalize Float.ofModel (.pack (.finite .positive m e hpos)) = x at hbits ⊢
  simp only [view, Binary64.ofBits, hbits, minExponent, Nat.pow_eq]
  rw [hsign, hfield, hfraction, if_neg (by omega), if_neg (by omega),
    Nat.add_sub_of_le hm, hexponent]
  rfl

theorem toNat_unpackMantissa (bits : UInt64) :
    (@unpackMantissa Format.binary64 bits.toBitVec).toNat = bits.toNat % 2 ^ 52 := by
  simp [unpackMantissa, BitVec.extractLsb, BitVec.extractLsb']

theorem toNat_unpackExponent (bits : UInt64) :
    (@unpackExponent Format.binary64 bits.toBitVec).toNat = bits.toNat / 2 ^ 52 % 2 ^ 11 := by
  simp [unpackExponent, BitVec.extractLsb, BitVec.extractLsb', Nat.shiftRight_eq_div_pow]

theorem toNat_unpackSign (bits : UInt64) :
    (@unpackSign Format.binary64 bits.toBitVec).toNat = bits.toNat / 2 ^ 63 := by
  have hlt : bits.toNat < 2 ^ 64 := bits.toNat_lt
  show (BitVec.extractLsb' 63 1 bits.toBitVec).toNat = _
  simp [BitVec.extractLsb', Nat.shiftRight_eq_div_pow]
  omega

theorem fields_of_view {x : Float} (h : view x = .finite false m e) (hm : 2 ^ 52 ≤ m) :
    x.toBits.toNat / 2 ^ 63 = 0 ∧ x.toBits.toNat / 2 ^ 52 % 2 ^ 11 ≠ 2047 ∧
      x.toBits.toNat / 2 ^ 52 % 2 ^ 11 ≠ 0 ∧
      m = 2 ^ 52 + x.toBits.toNat % 2 ^ 52 ∧
      e = ((x.toBits.toNat / 2 ^ 52 % 2 ^ 11 : Nat) : Int) - 1075 := by
  have hlt : x.toBits.toNat < 2 ^ 64 := x.toBits.toNat_lt
  simp only [view, Binary64.ofBits, minExponent, Nat.pow_eq] at h
  by_cases hspecial : x.toBits.toNat / 2 ^ 52 % 2 ^ 11 = 2047
  · rw [if_pos hspecial] at h
    split at h <;> cases h
  rw [if_neg hspecial] at h
  by_cases htiny : x.toBits.toNat / 2 ^ 52 % 2 ^ 11 = 0
  · rw [if_pos htiny] at h
    injection h
    omega
  rw [if_neg htiny] at h
  injection h with hnegative hm hexact
  have hsign : x.toBits.toNat / 2 ^ 63 ≠ 1 := by simpa using hnegative
  exact ⟨by omega, hspecial, htiny, hm.symm, by omega⟩

theorem unpack_of_view {x : Float} (h : view x = .finite false m e) (hm : 2 ^ 52 ≤ m) :
    ∃ hpos, x.toModel.unpack = .finite .positive m e hpos := by
  refine ⟨by omega, ?_⟩
  obtain ⟨hsign, hspecial, htiny, hmantissa, hexponent⟩ := fields_of_view h hm
  have hnotall : ¬ @unpackExponent Format.binary64 x.toBits.toBitVec = -1#_ := by
    intro heq
    rw [← toNat_unpackExponent, heq] at hspecial
    exact hspecial rfl
  have hnotzero : ¬ @unpackExponent Format.binary64 x.toBits.toBitVec = 0#_ := by
    intro heq
    rw [← toNat_unpackExponent, heq] at htiny
    exact htiny rfl
  have hpositive : @unpackSign Format.binary64 x.toBits.toBitVec = 0#1 :=
    BitVec.eq_of_toNat_eq ((toNat_unpackSign _).trans hsign)
  have hbias : (Format.binary64.exponentBias : Int) = 1023 := rfl
  show UnpackedFloat.unpack Format.binary64 x.toBits.toBitVec = _
  unfold UnpackedFloat.unpack
  dsimp only
  rw [if_neg hnotall, if_neg hnotzero, UnpackedFloat.finite.injEq]
  refine ⟨?_, ?_, ?_⟩
  · rw [UnpackedFloat.Sign.ofBitVec, if_pos hpositive]
  · -- the bit that is not written stands before the fraction
    rw [BitVec.toNat_append, toNat_unpackMantissa, BitVec.toNat_ofNat,
      ← Nat.shiftLeft_add_eq_or_of_lt (Nat.mod_lt _ (by decide)), hmantissa]
    rfl
  · rw [toNat_unpackExponent, hbias, hexponent]
    omega

end

/-! ## Rounding -/

theorem shift_succ (em : ExtendedMantissa) (k : Nat) : em >>> (k + 1) = (em >>> k).shiftRightOne :=
  rfl

theorem mantissa_shift (em : ExtendedMantissa) (k : Nat) :
    (em >>> k).mantissa = em.mantissa / 2 ^ k := by
  induction k with
  | zero => exact (Nat.div_one _).symm
  | succ k ih =>
    rw [shift_succ, ExtendedMantissa.shiftRightOne, ih, Nat.div_div_eq_div_mul, Nat.pow_succ]

theorem le_of_roundBit {m k : Nat}
    (h : ((⟨m, false, false⟩ : ExtendedMantissa) >>> k).roundBit = true) :
    2 ^ k ≤ 2 * (m % 2 ^ k) := by
  cases k with
  | zero => cases h
  | succ k =>
    rw [shift_succ, ExtendedMantissa.shiftRightOne, mantissa_shift] at h
    have hodd : m / 2 ^ k % 2 = 1 := by
      have : m / 2 ^ k % 2 ≠ 0 := by simpa using h
      omega
    have hmod : m % 2 ^ (k + 1) = m % 2 ^ k + 2 ^ k * (m / 2 ^ k % 2) := by
      rw [Nat.pow_succ, Nat.mod_mul]
    rw [hmod, hodd, Nat.pow_succ]
    omega

theorem roundedMantissa_cases (em : ExtendedMantissa) :
    em.roundedMantissa = em.mantissa ∨
      em.roundedMantissa = em.mantissa + 1 ∧ em.roundBit = true := by
  obtain ⟨m, round, sticky⟩ := em
  cases round <;> cases sticky <;>
    simp [ExtendedMantissa.roundedMantissa, ExtendedMantissa.accuracy, Accuracy.roundToNearestEven]
  omega

/-- Rounding to a multiple of `2 ^ k` errs by at most half of it. -/
theorem roundedMantissa_shift_le (m k : Nat) :
    let r := ((⟨m, false, false⟩ : ExtendedMantissa) >>> k).roundedMantissa
    m / 2 ^ k ≤ r ∧ r ≤ m / 2 ^ k + 1 ∧ 2 * (r * 2 ^ k) ≤ 2 * m + 2 ^ k := by
  intro r
  have hdiv : m / 2 ^ k * 2 ^ k + m % 2 ^ k = m := Nat.div_add_mod' m _
  rcases roundedMantissa_cases ((⟨m, false, false⟩ : ExtendedMantissa) >>> k) with h | ⟨h, hbit⟩
  · rw [mantissa_shift] at h
    simp only [r, h]
    omega
  · have hhalf := le_of_roundBit hbit
    rw [mantissa_shift] at h
    simp only [r, h, Nat.add_mul]
    omega

variable {m k : Nat} {e : Int}

theorem targetExponent_eq (hm : 2 ^ (52 + k) ≤ m) (hm' : m < 2 ^ (53 + k)) (he : -1074 ≤ e + k) :
    Format.binary64.targetExponent (totalExponent m e) = e + k := by
  have hlog : m.log2 = 52 + k := log2_eq hm (by rwa [show 52 + k + 1 = 53 + k by omega])
  have hbits : (Format.binary64.mantissaBits : Int) = 53 := rfl
  have hmin : Format.binary64.minExponent = -1074 := rfl
  rw [Format.targetExponent, totalExponent, hlog, hbits, hmin]
  omega

theorem shiftToTargetExponent_eq (hm : 2 ^ (52 + k) ≤ m) (hm' : m < 2 ^ (53 + k))
    (he : -1074 ≤ e + k) :
    shiftToTargetExponent Format.binary64 m e .exact =
      ((⟨m, false, false⟩ : ExtendedMantissa) >>> k, e + k) := by
  have hk : (e + k - e).toNat = k := by omega
  rw [shiftToTargetExponent, targetExponent_eq hm hm' he, shiftToExponent, hk]
  rfl

/-- Rounding to fifty-three bits errs by at most half a unit in the last place; a carry may make the
number one bit longer for a moment. -/
theorem exists_round (hm : 2 ^ (52 + k) ≤ m) (hm' : m < 2 ^ (53 + k)) (he : -1074 ≤ e + k)
    (sign : UnpackedFloat.Sign) :
    ∃ r j hpos, roundWithAccuracy Format.binary64 sign m e .exact =
        .finite sign r (e + (j : Nat)) hpos ∧
      2 ^ 52 ≤ r ∧ r < 2 ^ 53 ∧ 2 * (r * 2 ^ j) ≤ 2 * m + 2 ^ k := by
  obtain ⟨hle, hle', herror⟩ := roundedMantissa_shift_le m k
  have hlow : 2 ^ 52 ≤ m / 2 ^ k := by
    rw [Nat.le_div_iff_mul_le (Nat.two_pow_pos k), ← Nat.pow_add]
    exact hm
  have hhigh : m / 2 ^ k < 2 ^ 53 := by
    rw [Nat.div_lt_iff_lt_mul (Nat.two_pow_pos k), ← Nat.pow_add]
    exact hm'
  unfold roundWithAccuracy
  rw [shiftToTargetExponent_eq hm hm' he]
  dsimp only
  generalize ((⟨m, false, false⟩ : ExtendedMantissa) >>> k).roundedMantissa = r at *
  by_cases hcarry : r < 2 ^ 53
  · have hshift := shiftToTargetExponent_eq (k := 0) (e := e + k) (show 2 ^ (52 + 0) ≤ r by omega)
      hcarry (by omega)
    have hmantissa : ((⟨r, false, false⟩ : ExtendedMantissa) >>> 0).mantissa = r := by
      rw [mantissa_shift]
      exact Nat.div_one r
    rw [hshift]
    refine ⟨r, k, by omega, ?_, by omega, hcarry, herror⟩
    dsimp only
    rw [dif_neg (by omega), UnpackedFloat.finite.injEq]
    exact ⟨rfl, hmantissa, by omega⟩
  · have hr : r = 2 ^ 53 := by omega
    subst hr
    have hshift := shiftToTargetExponent_eq (m := 2 ^ 53) (k := 1) (e := e + k) (by decide)
      (by decide) (by omega)
    have hmantissa : ((⟨2 ^ 53, false, false⟩ : ExtendedMantissa) >>> 1).mantissa = 2 ^ 52 := by
      rw [mantissa_shift]
      rfl
    rw [hshift]
    refine ⟨2 ^ 52, k + 1, by decide, ?_, Nat.le_refl _, by decide, ?_⟩
    · dsimp only
      rw [dif_neg (by omega), UnpackedFloat.finite.injEq]
      exact ⟨rfl, hmantissa, by omega⟩
    · have hvalue : 2 ^ 52 * 2 ^ (k + 1) = 2 ^ 53 * 2 ^ k := by
        rw [← Nat.pow_add, ← Nat.pow_add, show 52 + (k + 1) = 53 + k by omega]
      rwa [hvalue]

/-- Half a unit in the last place carries a number of fifty-three bits no further than to the next
one. -/
theorem exponent_le {j r scale n : Nat} (hlow : 2 ^ (52 + k) ≤ m) (hr : 2 ^ 52 ≤ r)
    (herror : 2 * (r * 2 ^ j) ≤ 2 * m + 2 ^ k)
    (hsmall : m * 2 ^ scale < (2 ^ 54 - 1) * 2 ^ n) : j + scale ≤ n + 1 := by
  by_contra hlarge
  have hnext : 2 ^ (n + 1) = 2 * 2 ^ n := Nat.pow_succ'
  have hnext' : 2 ^ (n + 2) = 2 * 2 ^ (n + 1) := Nat.pow_succ'
  have hcarried : 2 ^ 52 * 2 ^ (n + 2) ≤ r * 2 ^ j * 2 ^ scale := by
    rw [Nat.mul_assoc, ← Nat.pow_add 2 j]
    exact Nat.mul_le_mul hr (Nat.pow_le_pow_right (by decide) (by omega))
  have hscaled := Nat.mul_le_mul_right (2 ^ scale) herror
  rw [Nat.add_mul, ← Nat.pow_add, Nat.mul_assoc 2, Nat.mul_assoc 2] at hscaled
  have hunit : 2 ^ (n + 1) < 2 ^ (k + scale) := by omega
  have hbeyond : 2 ^ 52 * 2 ^ (n + 2) ≤ m * 2 ^ scale :=
    calc 2 ^ 52 * 2 ^ (n + 2) ≤ 2 ^ 52 * 2 ^ (k + scale) :=
          Nat.mul_le_mul_left _
            (Nat.pow_le_pow_right (by decide) ((Nat.pow_lt_pow_iff_right (by decide)).1 hunit))
      _ = 2 ^ (52 + k) * 2 ^ scale := by rw [← Nat.pow_add, ← Nat.pow_add, Nat.add_assoc]
      _ ≤ m * 2 ^ scale := Nat.mul_le_mul_right _ hlow
  omega

/-- A number of at least fifty-three bits that is less than the greatest finite number and half a
unit is rounded to a finite number, which exceeds it by no more than one part in `2 ^ 53`. Both are
given in units of `2 ^ -t`. -/
theorem exists_view_round {t : Nat} (hm : 2 ^ 52 ≤ m) (he : 0 ≤ e + t) (ht : t ≤ 1074)
    (hsmall : m * 2 ^ (e + t).toNat < (2 ^ 54 - 1) * 2 ^ (970 + t)) :
    ∃ r e', view (.ofModel (.pack (roundWithAccuracy Format.binary64 .positive m e .exact))) =
        .finite false r e' ∧
      2 ^ 52 ≤ r ∧ e ≤ e' ∧
      r * 2 ^ (e' + t).toNat * 2 ^ 53 ≤ m * 2 ^ (e + t).toNat * (2 ^ 53 + 1) := by
  have hlog : 52 ≤ m.log2 := (Nat.le_log2 (by omega)).2 hm
  obtain ⟨k, hk⟩ : ∃ k, m.log2 = 52 + k := ⟨_, (Nat.add_sub_of_le hlog).symm⟩
  have hlow : 2 ^ (52 + k) ≤ m := by
    rw [← hk]
    exact Nat.log2_self_le (by omega)
  have hhigh : m < 2 ^ (53 + k) := by
    rw [show 53 + k = m.log2 + 1 by omega]
    exact Nat.lt_log2_self
  obtain ⟨r, j, hpos, hrounded, hr, hr', herror⟩ :=
    exists_round hlow hhigh (e := e) (by omega) .positive
  have hexponent := exponent_le hlow hr herror hsmall
  refine ⟨r, e + j, ?_, hr, by omega, ?_⟩
  · rw [hrounded, view_pack hpos hr hr' (by omega) (by omega)]
  · have hrelative : r * 2 ^ j * 2 ^ 53 ≤ m * (2 ^ 53 + 1) := by
      rw [Nat.pow_add] at hlow
      omega
    calc r * 2 ^ (e + j + t).toNat * 2 ^ 53 = r * 2 ^ j * 2 ^ 53 * 2 ^ (e + t).toNat := by
          rw [show (e + j + t).toNat = j + (e + t).toNat by omega, Nat.pow_add]
          ring
      _ ≤ m * (2 ^ 53 + 1) * 2 ^ (e + t).toNat := Nat.mul_le_mul_right _ hrelative
      _ = m * 2 ^ (e + t).toNat * (2 ^ 53 + 1) := Nat.mul_right_comm _ _ _

/-! ## Products -/

/-- A float that is not tiny and exceeds a natural number by no more than one part in `2 ^ 53`. -/
def IsNear (x : Float) (n : Nat) : Prop :=
  ∃ m e, view x = .finite false m e ∧ 2 ^ 52 ≤ m ∧ -53 ≤ e ∧
  m * 2 ^ (e + 53).toNat * 2 ^ 53 ≤ n * 2 ^ 53 * (2 ^ 53 + 1)

theorem toFloat_eq_round {n : Nat} (hpos : 0 < n) (hlt : n < 2 ^ 64) :
    n.toUInt64.toFloat = .ofModel (.pack (round Format.binary64 .positive n 0)) := by
  have hnat : n.toUInt64.toNat = n := Nat.mod_eq_of_lt hlt
  have hcompare : compare (n : Int) 0 = .gt := by
    simp only [compare, compareOfLessAndEq]
    rw [if_neg (by omega), if_neg (by omega)]
  have hnormal : normalize Format.binary64 n 0 .positive = round Format.binary64 .positive n 0 := by
    rw [UnpackedFloat.normalize, hcompare]
    rfl
  show Float.ofModel (.pack (normalize Format.binary64 (n.toUInt64.toNat : Int) 0 .positive)) = _
  rw [hnat, hnormal]

theorem isNear_toFloat {n : Nat} (hpos : 0 < n) (hlt : n < 2 ^ 64) :
    IsNear n.toUInt64.toFloat n := by
  have hlow : 2 ^ n.log2 ≤ n := Nat.log2_self_le (by omega)
  -- the number is made at least fifty-three bits long before it is rounded
  generalize hshort : 52 - n.log2 = short
  have hround : round Format.binary64 .positive n 0 =
      roundWithAccuracy Format.binary64 .positive (n * 2 ^ short) (-(short : Int)) .exact := by
    have htarget : Format.binary64.targetExponent (totalExponent n 0) = n.log2 - 52 := by
      have hbits : (Format.binary64.mantissaBits : Int) = 53 := rfl
      have hmin : Format.binary64.minExponent = -1074 := rfl
      rw [Format.targetExponent, totalExponent, hbits, hmin]
      omega
    rw [UnpackedFloat.round, htarget, decreaseExponent,
      show (0 - ((n.log2 : Int) - 52)).toNat = short by omega, Nat.shiftLeft_eq]
    simp
  have hlong : 2 ^ 52 ≤ n * 2 ^ short :=
    calc 2 ^ 52 ≤ 2 ^ (n.log2 + short) := Nat.pow_le_pow_right (by decide) (by omega)
      _ ≤ n * 2 ^ short := by
        rw [Nat.pow_add]
        exact Nat.mul_le_mul_right _ hlow
  have hexact : n * 2 ^ short * 2 ^ (-(short : Int) + (53 : Nat)).toNat = n * 2 ^ 53 := by
    rw [Nat.mul_assoc, ← Nat.pow_add,
      show short + (-(short : Int) + (53 : Nat)).toNat = 53 by omega]
  have hsmall : n * 2 ^ 53 < (2 ^ 54 - 1) * 2 ^ (970 + 53) :=
    Nat.lt_of_lt_of_le (Nat.mul_lt_mul_of_pos_right hlt (Nat.two_pow_pos 53)) (by decide +kernel)
  obtain ⟨r, e, hview, hr, he, hnear⟩ :=
    exists_view_round (e := -(short : Int)) (t := 53) hlong (by omega) (by decide) (by rwa [hexact])
  rw [hexact] at hnear
  exact ⟨r, e, by rw [toFloat_eq_round hpos hlt, hround, hview], hr, by omega, hnear⟩

def seenNear (n : Nat) : Bool :=
  match view (Json.powerOfTen n) with
  | .finite false m e =>
    2 ^ 52 ≤ m ∧ -53 ≤ e ∧ m * 2 ^ (e + 53).toNat * 2 ^ 53 ≤ 10 ^ n * 2 ^ 53 * (2 ^ 53 + 1)
  | _ => false

theorem isNear_of_seenNear {n : Nat} (h : seenNear n) : IsNear (Json.powerOfTen n) (10 ^ n) := by
  unfold seenNear at h
  split at h
  next m e hview => exact ⟨m, e, hview, of_decide_eq_true h⟩
  next => cases h

theorem isNear_powerOfTen {n : Nat} (hn : n ≤ Json.maxPower) :
    IsNear (Json.powerOfTen n) (10 ^ n) := by
  by_cases hfast : n ≤ 22
  · have hseen : ∀ n ≤ 22, seenNear n := by decide +kernel
    exact isNear_of_seenNear (hseen n hfast)
  · have hmodel : Json.powerOfTen n = .ofModel (.pack
        (roundWithAccuracy Format.binary64 .positive (2 ^ 53 * 10 ^ n) (-53) .exact)) := by
      have hn' : n ≤ 308 := hn
      rw [Json.powerOfTen, Float.ofScientific, dif_neg (fun h => hfast h.2)]
      show Float.ofModel (.pack (UnpackedFloat.ofScientific Format.binary64 1 (n : Int))) = _
      rw [UnpackedFloat.ofScientific, dif_neg (by decide), if_neg (by simp; omega),
        if_neg (by simp; omega), if_pos (by omega)]
      rfl
    have hlong : 2 ^ 52 ≤ 2 ^ 53 * 10 ^ n :=
      Nat.le_trans (by decide) (Nat.le_mul_of_pos_right _ (Nat.pow_pos (by decide)))
    have hexact : 2 ^ 53 * 10 ^ n * 2 ^ (-53 + ((53 : Nat) : Int)).toNat = 10 ^ n * 2 ^ 53 := by
      rw [show (-53 + ((53 : Nat) : Int)).toNat = 0 by omega, Nat.pow_zero, Nat.mul_one,
        Nat.mul_comm]
    have hsmall : 10 ^ n * 2 ^ 53 < (2 ^ 54 - 1) * 2 ^ (970 + 53) :=
      Nat.lt_of_le_of_lt (Nat.mul_le_mul_right _ (Nat.pow_le_pow_right (by decide) hn))
        (by decide +kernel)
    obtain ⟨r, e, hview, hr, he, hnear⟩ :=
      exists_view_round (e := -53) (t := 53) hlong (by omega) (by decide) (by rwa [hexact])
    rw [hexact] at hnear
    exact ⟨r, e, by rw [hmodel, hview], hr, by omega, hnear⟩

/-- A product is finite if the exact product is less than the greatest finite number and half a
unit. -/
theorem isFinite_mul {x y : Float} {a b : Nat} (hx : IsNear x a) (hy : IsNear y b)
    (hab : a * b * (2 ^ 53 + 1) ^ 2 < (2 ^ 54 - 1) * 2 ^ (970 + 106)) : isFinite (x * y) := by
  obtain ⟨m, e, hxview, hm, he, hxnear⟩ := hx
  obtain ⟨m', e', hyview, hm', he', hynear⟩ := hy
  obtain ⟨hpos, hxunpack⟩ := unpack_of_view hxview hm
  obtain ⟨hpos', hyunpack⟩ := unpack_of_view hyview hm'
  have hmul : x * y = .ofModel
      (.pack (roundWithAccuracy Format.binary64 .positive (m * m') (e + e') .exact)) := by
    show Float.ofModel
      (.pack (UnpackedFloat.mul Format.binary64 x.toModel.unpack y.toModel.unpack)) = _
    rw [hxunpack, hyunpack]
    rfl
  have hsmall : m * m' * 2 ^ (e + e' + (106 : Nat)).toNat < (2 ^ 54 - 1) * 2 ^ (970 + 106) := by
    rw [show (e + e' + (106 : Nat)).toNat = (e + 53).toNat + (e' + 53).toNat by omega,
      Nat.pow_add 2 (e + 53).toNat]
    generalize (2 ^ 54 - 1) * 2 ^ (970 + 106) = bound at *
    refine Nat.lt_of_mul_lt_mul_right (a := 2 ^ 106) ?_
    calc m * m' * (2 ^ (e + 53).toNat * 2 ^ (e' + 53).toNat) * 2 ^ 106
        = m * 2 ^ (e + 53).toNat * 2 ^ 53 * (m' * 2 ^ (e' + 53).toNat * 2 ^ 53) := by ring
      _ ≤ a * 2 ^ 53 * (2 ^ 53 + 1) * (b * 2 ^ 53 * (2 ^ 53 + 1)) := Nat.mul_le_mul hxnear hynear
      _ = a * b * (2 ^ 53 + 1) ^ 2 * 2 ^ 106 := by ring
      _ < bound * 2 ^ 106 := Nat.mul_lt_mul_of_pos_right hab (Nat.two_pow_pos 106)
  have hlong : 2 ^ 52 ≤ m * m' := Nat.le_trans hm (Nat.le_mul_of_pos_right m hpos')
  obtain ⟨r, e'', hview, -⟩ := exists_view_round hlong (t := 106) (by omega) (by decide) hsmall
  rw [hmul, isFinite, hview]

end MotionScript.Number
