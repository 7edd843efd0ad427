import MotionScript.Proofs.FloatRounding

/-!
# Every number that is read is finite

A decimal text is read by scaling an integer of 64 bits by a power of ten. A product that is too
large is refused, and a quotient cannot be too large, since what is divided is small to begin with
and a few divisions by powers of ten raise its exponent by little. So whatever is read can be
written again as a number.
-/
namespace MotionScript.Number
open Float.Model UnpackedFloat

def exponentField (x : Float) : Nat := x.toBits.toNat / 2 ^ 52 % 2 ^ 11

theorem isFinite_iff (x : Float) : isFinite x ↔ exponentField x ≠ 2047 := by
  simp only [isFinite, view, Binary64.ofBits, Nat.pow_eq, ← exponentField.eq_1]
  by_cases hspecial : exponentField x = 2047
  · rw [if_pos hspecial]
    refine iff_of_false ?_ fun hne => hne hspecial
    by_cases hfraction : x.toBits.toNat % 2 ^ 52 = 0
    · rw [if_pos hfraction]
      exact Bool.false_ne_true
    · rw [if_neg hfraction]
      exact Bool.false_ne_true
  · rw [if_neg hspecial]
    refine iff_of_true ?_ hspecial
    by_cases htiny : exponentField x = 0
    · rw [if_pos htiny]
    · rw [if_neg htiny]

/-- A number of at most fifty-three bits whose last stands no higher than a bound, or zero. -/
def Within (bound : Int) : UnpackedFloat → Prop
  | .zero _ => True
  | .finite _ m e _ => m < 2 ^ 53 ∧ e ≤ bound
  | _ => False

variable {bound : Int} {u : UnpackedFloat} {x : Float}

theorem Within.mono {bound' : Int} (hu : Within bound u) (h : bound ≤ bound') : Within bound' u :=
  match u, hu with
  | .zero _, _ => trivial
  | .finite .., ⟨hm, he⟩ => ⟨hm, Int.le_trans he h⟩

theorem Within.neg (hu : Within bound u) : Within bound u.neg :=
  match u, hu with
  | .zero _, _ => trivial
  | .finite .., h => h

/-! ## Packing and unpacking -/

theorem exponentField_pack (u : UnpackedFloat) :
    exponentField (.ofModel (.pack u)) =
      (unpackExponent (UnpackedFloat.pack Format.binary64 u)).toNat :=
  (toNat_unpackExponent (.ofBitVec (UnpackedFloat.pack Format.binary64 u))).symm

/-- What is not too large is packed with its exponent, or with none. -/
theorem Within.exponentField_le (hu : Within bound u) (hbound : bound ≤ 971) :
    exponentField (.ofModel (.pack u)) ≤ (bound + 1075).toNat := by
  rw [exponentField_pack]
  match u, hu with
  | .zero sign, _ =>
    show (unpackExponent (packComponents Format.binary64 sign 0 0)).toNat ≤ _
    rw [unpackExponent_packComponents]
    exact Nat.zero_le _
  | .finite sign m e hpos, ⟨_, he⟩ =>
    have hbias : (e + Format.binary64.exponentBias +
        Format.binary64.mantissaBitsWithoutImplicit : Int) = e + 1075 := by
      show e + ((1023 : Nat) : Int) + ((52 : Nat) : Int) = e + 1075
      omega
    unfold UnpackedFloat.pack
    dsimp only
    rw [hbias, if_neg (by show ¬ 2 ^ 11 ≤ _; omega)]
    split <;> rw [unpackExponent_packComponents]
    · calc (BitVec.ofNat 11 (e + 1075).toNat).toNat ≤ (e + 1075).toNat := by
            rw [BitVec.toNat_ofNat]
            exact Nat.mod_le _ _
        _ ≤ (bound + 1075).toNat := by omega
    · exact Nat.zero_le _

/-- What is unpacked has the exponent of its field, except that zero stands for the least. -/
theorem within_unpack (hx : exponentField x ≤ (bound + 1075).toNat) (hlow : -1074 ≤ bound)
    (hbound : bound ≤ 971) : Within bound x.toModel.unpack := by
  have hnotall : ¬ @unpackExponent Format.binary64 x.toBits.toBitVec = -1#_ := by
    intro heq
    have hfield : exponentField x = 2047 := by
      rw [exponentField, ← toNat_unpackExponent, heq]
      rfl
    omega
  have hfraction : (@unpackMantissa Format.binary64 x.toBits.toBitVec).toNat < 2 ^ 52 := by
    rw [toNat_unpackMantissa]
    exact Nat.mod_lt _ (by decide)
  have hbias : (Format.binary64.exponentBias +
      Format.binary64.mantissaBitsWithoutImplicit : Int) = 1075 := rfl
  have hexponent : ((@unpackExponent Format.binary64 x.toBits.toBitVec).toNat : Int) ≤
      bound + 1075 := by
    rw [toNat_unpackExponent]
    show (exponentField x : Int) ≤ _
    omega
  show Within bound (UnpackedFloat.unpack Format.binary64 x.toBits.toBitVec)
  unfold UnpackedFloat.unpack
  dsimp only
  rw [if_neg hnotall, hbias]
  by_cases htiny : @unpackExponent Format.binary64 x.toBits.toBitVec = 0#_
  · rw [if_pos htiny]
    by_cases hzero : @unpackMantissa Format.binary64 x.toBits.toBitVec = 0#_
    · rw [dif_pos hzero]
      trivial
    · rw [dif_neg hzero, htiny]
      exact ⟨by omega, by show ((0 : Nat) : Int) - 1075 + 1 ≤ bound; omega⟩
  · rw [if_neg htiny]
    exact ⟨BitVec.isLt _, by omega⟩

theorem Within.unpack_pack (hu : Within bound u) (hlow : -1074 ≤ bound) (hbound : bound ≤ 971) :
    Within bound (Float.ofModel (.pack u)).toModel.unpack :=
  within_unpack (hu.exponentField_le hbound) hlow hbound

theorem isFinite_iff_within (x : Float) : isFinite x ↔ Within 971 x.toModel.unpack := by
  rw [isFinite_iff]
  constructor
  · intro hfield
    have hlt : exponentField x < 2 ^ 11 := Nat.mod_lt _ (by decide)
    exact within_unpack (by omega) (by decide) (Int.le_refl _)
  · intro hx hfield
    have hall : @unpackExponent Format.binary64 x.toBits.toBitVec = -1#_ :=
      BitVec.eq_of_toNat_eq ((toNat_unpackExponent _).trans hfield)
    change Within 971 (UnpackedFloat.unpack Format.binary64 x.toBits.toBitVec) at hx
    unfold UnpackedFloat.unpack at hx
    dsimp only at hx
    rw [if_pos hall] at hx
    split at hx <;> exact hx

theorem isFinite_of_within (hx : Within bound x.toModel.unpack)
    (hbound : bound ≤ 971) : isFinite x :=
  (isFinite_iff_within x).2 (hx.mono hbound)

/-! ## Rounding and division -/

theorem mantissa_ofMantissaAndAccuracy (m : Nat) (accuracy : Accuracy) :
    (ExtendedMantissa.ofMantissaAndAccuracy m accuracy).mantissa = m := by
  unfold ExtendedMantissa.ofMantissaAndAccuracy
  split <;> rfl

/-- After the shift there are at most fifty-three bits left, and no more bits have been dropped than
needed. -/
theorem shiftToTargetExponent_le {m : Nat} {e : Int} (accuracy : Accuracy) (hlow : -1074 ≤ bound)
    (he : e ≤ bound) (hm : totalExponent m e ≤ bound + 53) :
    (shiftToTargetExponent Format.binary64 m e accuracy).1.mantissa < 2 ^ 53 ∧
      (shiftToTargetExponent Format.binary64 m e accuracy).2 ≤ bound := by
  have htarget : Format.binary64.targetExponent (totalExponent m e) =
    max (totalExponent m e - 53) (-1074) := rfl
  simp only [shiftToTargetExponent, shiftToExponent, htarget, mantissa_shift,
    mantissa_ofMantissaAndAccuracy]
  generalize hk : (max (totalExponent m e - 53) (-1074) - e).toNat = k
  rw [totalExponent] at hm hk
  refine ⟨?_, by omega⟩
  rw [Nat.div_lt_iff_lt_mul (Nat.two_pow_pos k), ← Nat.pow_add]
  calc m < 2 ^ (m.log2 + 1) := Nat.lt_log2_self
    _ ≤ 2 ^ (53 + k) := Nat.pow_le_pow_right (by decide) (by omega)

theorem log2_le_of_lt {m k : Nat} (hm : m < 2 ^ (k + 1)) : m.log2 ≤ k := by
  by_cases hzero : m = 0
  · rw [hzero]
    exact Nat.zero_le k
  · exact Nat.le_of_lt_succ ((Nat.log2_lt hzero).2 hm)

/-- Rounding to fifty-three bits may carry, and so raise the exponent by one. -/
theorem within_roundWithAccuracy {m : Nat} {e : Int} (sign : UnpackedFloat.Sign)
    (accuracy : Accuracy) (hlow : -1074 < bound) (he : e < bound)
    (hm : totalExponent m e < bound + 53) :
    Within bound (roundWithAccuracy Format.binary64 sign m e accuracy) := by
  obtain ⟨-, he'⟩ := shiftToTargetExponent_le accuracy (Int.le_sub_one_of_lt hlow)
    (Int.le_sub_one_of_lt he) (m := m) (by omega)
  obtain ⟨hshifted, -⟩ :=
    shiftToTargetExponent_le accuracy (Int.le_of_lt hlow) (Int.le_of_lt he) (Int.le_of_lt hm)
  unfold roundWithAccuracy
  dsimp only
  generalize shiftToTargetExponent Format.binary64 m e accuracy = shifted at *
  have hrounded : shifted.1.roundedMantissa ≤ 2 ^ 53 := by
    rcases roundedMantissa_cases shifted.1 with h | ⟨h, -⟩ <;> omega
  have hlog : shifted.1.roundedMantissa.log2 ≤ 53 :=
    log2_le_of_lt (Nat.lt_of_le_of_lt hrounded (by decide))
  have htotal : totalExponent shifted.1.roundedMantissa shifted.2 ≤ bound + 53 := by
    rw [totalExponent]
    omega
  obtain ⟨hfinal, hexponent⟩ :=
    shiftToTargetExponent_le .exact (Int.le_of_lt hlow) (by omega) htotal
  generalize shiftToTargetExponent Format.binary64 shifted.1.roundedMantissa shifted.2
    .exact = final at *
  by_cases hzero : final.1.mantissa = 0
  · rw [dif_pos hzero]
    trivial
  · rw [dif_neg hzero]
    exact ⟨hfinal, hexponent⟩

/-- A 64-bit integer is less than `2 ^ 12` units of fifty-three bits. -/
theorem within_toFloat (word : UInt64) : Within 12 word.toFloat.toModel.unpack := by
  by_cases hpos : 0 < word.toNat
  · have hlog : word.toNat.log2 ≤ 63 := log2_le_of_lt word.toNat_lt
    have hfloat := toFloat_eq_round hpos word.toNat_lt
    rw [show word.toNat.toUInt64 = word from UInt64.ofNat_toNat] at hfloat
    rw [hfloat]
    refine Within.unpack_pack ?_ (by decide) (by decide)
    unfold UnpackedFloat.round decreaseExponent
    dsimp only
    generalize (0 - Format.binary64.targetExponent (totalExponent word.toNat 0)).toNat = k
    have hlong : (word.toNat <<< k).log2 ≤ 63 + k := by
      refine log2_le_of_lt ?_
      rw [Nat.shiftLeft_eq, Nat.add_right_comm, Nat.pow_add]
      exact Nat.mul_lt_mul_of_pos_right word.toNat_lt (Nat.two_pow_pos k)
    refine within_roundWithAccuracy .positive .exact (by decide) (by omega) ?_
    rw [totalExponent]
    omega
  · have hzero : word = 0 := UInt64.toNat_inj.1 (by simpa using hpos)
    rw [hzero]
    exact within_unpack (by decide +kernel) (by decide) (by decide)

/-- The quotient that is rounded has at most one bit more than the dividend was shifted by. -/
theorem divCore_le {m m' : Nat} {e e' : Int} (hm : m < 2 ^ 53) (he : e ≤ bound) (hm' : 2 ^ 52 ≤ m')
    (he' : -53 ≤ e') (hlow : -1074 ≤ bound) :
    (divCore Format.binary64 m e m' e').2.1 ≤ bound ∧
      totalExponent (divCore Format.binary64 m e m' e').1 (divCore Format.binary64 m e m' e').2.1 ≤
        bound + 54 := by
  have hlog : m.log2 ≤ 52 := log2_le_of_lt hm
  have hlog' : 52 ≤ m'.log2 := (Nat.le_log2 (by omega)).2 hm'
  have htarget (total : Int) :
    Format.binary64.targetExponent total = max (total - 53) (-1074) := rfl
  simp only [divCore, htarget, totalExponent]
  generalize ht : min (e - e') _ = target
  have hquotient : (m <<< (e - e' - target).toNat / m').log2 ≤ (e - e' - target).toNat := by
    refine log2_le_of_lt ((Nat.div_lt_iff_lt_mul (by omega)).2 ?_)
    calc m <<< (e - e' - target).toNat = m * 2 ^ (e - e' - target).toNat := Nat.shiftLeft_eq _ _
      _ < 2 ^ 53 * 2 ^ (e - e' - target).toNat := Nat.mul_lt_mul_of_pos_right hm (Nat.two_pow_pos _)
      _ = 2 ^ ((e - e' - target).toNat + 1) * 2 ^ 52 := by
        rw [← Nat.pow_add, ← Nat.pow_add]; congr 1; omega
      _ ≤ 2 ^ ((e - e' - target).toNat + 1) * m' := Nat.mul_le_mul_left _ hm'
  omega

/-- A division by a number of at least a half raises the exponent by at most two. -/
theorem within_div {y : Float} {n : Nat} (hx : Within bound x.toModel.unpack) (hy : IsNear y n)
    (hlow : -1074 ≤ bound) (hbound : bound ≤ 969) : Within (bound + 2) (x / y).toModel.unpack := by
  obtain ⟨m', e', hview, hm', he', -⟩ := hy
  obtain ⟨hpos', hunpack⟩ := unpack_of_view hview hm'
  have hdiv : x / y = .ofModel (.pack
      (UnpackedFloat.div Format.binary64 x.toModel.unpack (.finite .positive m' e' hpos'))) := by
    rw [← hunpack]
    rfl
  rw [hdiv]
  refine Within.unpack_pack ?_ (by omega) (by omega)
  match x.toModel.unpack, hx with
  | .zero sign, _ => exact trivial
  | .finite sign m e hpos, ⟨hm, he⟩ =>
    obtain ⟨hexponent, htotal⟩ := divCore_le hm he hm' he' hlow
    have hlow' : -1074 < bound + 2 := by omega
    exact within_roundWithAccuracy (sign / .positive) (divCore Format.binary64 m e m' e').2.2 hlow'
      (Int.lt_of_le_of_lt hexponent (by omega)) (Int.lt_of_le_of_lt htotal (by omega))

/-! ## Reading -/

/-- At most `steps` divisions are made, each of which raises the exponent by at most two. -/
theorem isFinite_of_scale? {steps : Nat} {y : Float} {exponent : Int}
    (hx : Within bound x.toModel.unpack) (hlow : -1074 ≤ bound) (hbound : bound + 2 * steps ≤ 971)
    (h : Json.scale? steps x exponent = some y) : isFinite y := by
  induction steps generalizing x exponent bound with
  | zero =>
    cases h
    decide +kernel
  | succ steps ih =>
    have hquotient {power : Nat} (hpower : power ≤ Json.maxPower) :
        Within (bound + 2) (x / Json.powerOfTen power).toModel.unpack :=
      within_div hx (isNear_powerOfTen hpower) hlow (by omega)
    rw [Json.scale?] at h
    by_cases hpower : exponent.natAbs ≤ Json.maxPower
    · rw [if_pos hpower] at h
      by_cases hraise : 0 ≤ exponent
      · rw [if_pos hraise] at h
        obtain ⟨hfinite, hy⟩ := Option.ite_none_right_eq_some.1 h
        cases hy
        exact hfinite
      · rw [if_neg hraise] at h
        cases h
        exact isFinite_of_within (hquotient hpower) (by omega)
    · rw [if_neg hpower] at h
      split at h
      next =>
        cases h
        exact isFinite_of_within hx (by omega)
      next =>
        split at h
        next => cases h
        next => exact ih (hquotient (Nat.le_refl _)) (by omega) (by omega) h

theorem isFinite_neg (hx : isFinite x) : isFinite (-x) :=
  isFinite_of_within
    (Within.unpack_pack ((isFinite_iff_within x).1 hx).neg (by decide) (Int.le_refl _))
      (Int.le_refl _)

/-- Whatever a numeral is read as can be written again. -/
theorem isFinite_of_float? {n : Numeral} (h : Json.float? n = some x) : isFinite x := by
  obtain ⟨y, hscale, rfl⟩ := Option.map_eq_some_iff.1 h
  have hy : isFinite y := isFinite_of_scale? (within_toFloat _) (by decide) (by decide) hscale
  cases hsign : n.negative with
  | false => exact hy
  | true => exact isFinite_neg hy

end MotionScript.Number
