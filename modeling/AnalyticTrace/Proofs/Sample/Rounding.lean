import AnalyticTrace.Proofs.Sample.Packing

namespace AnalyticTrace

open Float.Model (Format UnpackedFloat totalExponent)
open Float.Model.UnpackedFloat

variable {spec : Format}

theorem mantissa_shiftRight (em : ExtendedMantissa) (k : Nat) :
    (em >>> k).mantissa = em.mantissa / 2 ^ k := by
  induction k with
  | zero => exact (Nat.div_one _).symm
  | succ k ih =>
    have hstep : (em >>> (k + 1)).mantissa = (em >>> k).mantissa / 2 := rfl
    rw [hstep, ih, Nat.div_div_eq_div_mul, Nat.pow_succ]

theorem mantissa_ofMantissaAndAccuracy (m : Nat) (accuracy : Accuracy) :
    (ExtendedMantissa.ofMantissaAndAccuracy m accuracy).mantissa = m := by
  rcases accuracy with _ | o
  · rfl
  · cases o with
    | lt => rfl
    | eq => rfl
    | gt => rfl

theorem le_roundToNearestEven (m : Nat) (accuracy : Accuracy) :
    m ≤ accuracy.roundToNearestEven m := by
  rcases accuracy with _ | o
  · exact Nat.le_refl m
  · cases o with
    | lt => exact Nat.le_refl m
    | eq => exact Nat.le_add_right _ _
    | gt => exact Nat.le_succ m

structure Fitting (spec : Format) (m : Nat) (e : Int) : Prop where
  pos : 0 < m
  lt : m < 2 ^ spec.mantissaBits
  le : spec.minExponent ≤ e

theorem fitting_shiftToTargetExponent {m : Nat} {e : Int} (hm : 0 < m)
    (he : spec.minExponent ≤ e) (accuracy : Accuracy) :
    Fitting spec (shiftToTargetExponent spec m e accuracy).1.mantissa
      (shiftToTargetExponent spec m e accuracy).2 := by
  rw [shiftToTargetExponent, shiftToExponent]
  simp only [mantissa_shiftRight, mantissa_ofMantissaAndAccuracy]
  generalize hk : (spec.targetExponent (totalExponent m e) - e).toNat = k
  have hbits : 0 < spec.mantissaBits := Nat.add_pos_left Nat.one_pos _
  -- What is shifted out is at least the excess of bits, and never all of them.
  rw [Format.targetExponent, totalExponent] at hk
  refine ⟨Nat.div_pos ?_ (Nat.two_pow_pos k), Nat.div_lt_of_lt_mul ?_, by omega⟩
  · calc 2 ^ k ≤ 2 ^ m.log2 := Nat.pow_le_pow_right Nat.two_pos (by omega)
      _ ≤ m := Nat.log2_self_le (Nat.ne_of_gt hm)
  · calc m < 2 ^ (m.log2 + 1) := Nat.lt_log2_self
      _ ≤ 2 ^ (k + spec.mantissaBits) := Nat.pow_le_pow_right Nat.two_pos (by omega)
      _ = 2 ^ k * 2 ^ spec.mantissaBits := Nat.pow_add _ _ _

theorem roundWithAccuracy_fitting (s : Sign) {m : Nat} {e : Int} (hm : 0 < m)
    (he : spec.minExponent ≤ e) (accuracy : Accuracy) :
    ∃ m' e', ∃ h : Fitting spec m' e',
      roundWithAccuracy spec s m e accuracy = .finite s m' e' h.pos := by
  have hfirst := fitting_shiftToTargetExponent hm he accuracy
  have hrounded := Nat.lt_of_lt_of_le hfirst.pos (le_roundToNearestEven _
    (shiftToTargetExponent spec m e accuracy).1.accuracy)
  have hsecond := fitting_shiftToTargetExponent hrounded hfirst.le .exact
  exact ⟨_, _, hsecond, dif_neg (Nat.ne_of_gt hsecond.pos)⟩

theorem roundWithAccuracy_ne_notANumber (s : Sign) (m : Nat) (e : Int) (accuracy : Accuracy) :
    roundWithAccuracy spec s m e accuracy ≠ .notANumber := by
  intro hnan
  by_cases hzero : (shiftToTargetExponent spec
      (shiftToTargetExponent spec m e accuracy).1.roundedMantissa
      (shiftToTargetExponent spec m e accuracy).2 .exact).1.mantissa = 0
  · cases (dif_pos hzero).symm.trans hnan
  · cases (dif_neg hzero).symm.trans hnan

theorem round_fitting (s : Sign) {m : Nat} {e : Int} (hm : 0 < m) (he : spec.minExponent ≤ e) :
    ∃ m' e', ∃ h : Fitting spec m' e', UnpackedFloat.round spec s m e = .finite s m' e' h.pos := by
  apply roundWithAccuracy_fitting
  · rw [Nat.shiftLeft_eq]
    exact Nat.mul_pos hm (Nat.two_pow_pos _)
  · rw [Format.targetExponent]
    omega

theorem Fitting.unpack_pack_ne_zero {m : Nat} {e : Int} (h : Fitting spec m e) (s s' : Sign) :
    unpack spec (pack spec (.finite s m e h.pos)) ≠ .zero s' := by
  intro hzero
  rw [unpack_pack_finite h.pos h.lt h.le] at hzero
  by_cases hover : 2 ^ spec.exponentBits ≤ biased spec e + 1
  · rw [if_pos hover] at hzero
    cases hzero
  · rw [if_neg hover] at hzero
    by_cases hlow : m < 2 ^ spec.mantissaBitsWithoutImplicit
    · rw [if_pos hlow] at hzero
      cases hzero
    · rw [if_neg hlow] at hzero
      cases hzero

theorem unpack_pack_round {m : Nat} {e : Int} (s s' : Sign) (hm : 0 < m)
    (he : spec.minExponent ≤ e) :
    unpack spec (pack spec (UnpackedFloat.round spec s m e)) ≠ .zero s' := by
  obtain ⟨m', e', hfit, hround⟩ := round_fitting s hm he
  rw [hround]
  exact hfit.unpack_pack_ne_zero _ _

theorem unpack_pack_normalize {m : Int} {e : Int} (he : spec.minExponent ≤ e) :
    unpack spec (pack spec (UnpackedFloat.normalize spec m e .positive)) ≠ .zero .negative := by
  rw [UnpackedFloat.normalize]
  cases h : compare m 0 with
  | lt =>
    have hm : 0 < (-m).toNat := by
      rw [Int.compare_eq_lt] at h
      omega
    exact unpack_pack_round .negative .negative hm he
  | eq =>
    change unpack spec (pack spec (.zero .positive)) ≠ _
    rw [unpack_pack (f := .zero .positive) trivial]
    intro hzero
    cases hzero
  | gt =>
    have hm : 0 < m.toNat := by
      rw [Int.compare_eq_gt] at h
      omega
    exact unpack_pack_round .positive .negative hm he

end AnalyticTrace
