import Mathlib.Data.ZMod.Basic
import AnalyticTrace.Analytic.Mask
import AnalyticTrace.Proofs.Exact.Real
import AnalyticTrace.Proofs.Fourier.Sums

namespace AnalyticTrace

variable [Angle] {n k : ℕ}

theorem maskWeight_eq (n k : ℕ) :
    (maskWeight n k : ℝ) =
      if k = 0 then 1 else if 2 * k < n then 2 else if 2 * k = n then 1 else 0 := by
  rw [maskWeight]
  split
  · rfl
  · split
    · have hl : k < n / 2 ↔ 2 * k < n := by omega
      have he : k = n / 2 ↔ 2 * k = n := by omega
      simp only [two_eq, hl, he]
    · have hl : k ≤ n / 2 ↔ 2 * k < n := by omega
      have he : ¬ 2 * k = n := by omega
      simp only [two_eq, hl, if_neg he]

theorem maskWeight_zero (n : ℕ) : (maskWeight n 0 : ℝ) = 1 := by
  rw [maskWeight_eq, if_pos rfl]

theorem maskWeight_lower (hk : k ≠ 0) (h : 2 * k < n) : (maskWeight n k : ℝ) = 2 := by
  rw [maskWeight_eq, if_neg hk, if_pos h]

theorem maskWeight_middle (hk : k ≠ 0) (h : 2 * k = n) : (maskWeight n k : ℝ) = 1 := by
  rw [maskWeight_eq, if_neg hk, if_neg (by omega), if_pos h]

theorem maskWeight_upper (h : n < 2 * k) : (maskWeight n k : ℝ) = 0 := by
  rw [maskWeight_eq, if_neg (by omega), if_neg (by omega), if_neg (by omega)]

theorem maskWeight_add_mirror (hk : k ≠ 0) (hn : k < n) :
    (maskWeight n k : ℝ) + maskWeight n (n - k) = 2 := by
  rcases Nat.lt_trichotomy (2 * k) n with h | h | h
  · rw [maskWeight_lower hk h, maskWeight_upper (by omega), add_zero]
  · rw [maskWeight_middle hk h, maskWeight_middle (by omega) (by omega), one_add_one_eq_two]
  · rw [maskWeight_upper h, maskWeight_lower (by omega) (by omega), zero_add]

theorem maskWeight_mul_mirror (hk : k ≠ 0) (hn : k < n) :
    (maskWeight n k : ℝ) * maskWeight n (n - k) = if 2 * k = n then 1 else 0 := by
  rcases Nat.lt_trichotomy (2 * k) n with h | h | h
  · rw [maskWeight_upper (k := n - k) (by omega), mul_zero, if_neg h.ne]
  · rw [maskWeight_middle hk h, maskWeight_middle (by omega) (by omega), mul_one, if_pos h]
  · rw [maskWeight_upper h, zero_mul, if_neg h.ne']

theorem maskWeight_add_neg [NeZero n] (k : ZMod n) :
    (maskWeight n k.val : ℝ) + maskWeight n (-k).val = 2 := by
  by_cases hk : k = 0
  · rw [hk, neg_zero, ZMod.val_zero, maskWeight_zero, one_add_one_eq_two]
  · have hv : k.val ≠ 0 := fun h => hk ((ZMod.val_eq_zero k).1 h)
    rw [ZMod.neg_val, if_neg hk, maskWeight_add_mirror hv k.val_lt]

/-- Of a bin and its mirror image one is empty, unless they are the same. -/
theorem maskWeight_mul_neg [NeZero n] (k : ZMod n) :
    (maskWeight n k.val : ℝ) * maskWeight n (-k).val = if -k = k then 1 else 0 := by
  by_cases hk : k = 0
  · rw [hk, neg_zero, ZMod.val_zero, maskWeight_zero, mul_one, if_pos rfl]
  · have hv : k.val ≠ 0 := fun h => hk ((ZMod.val_eq_zero k).1 h)
    rw [ZMod.neg_val, if_neg hk, maskWeight_mul_mirror hv k.val_lt]
    simp only [ZMod.neg_eq_self_iff, hk, false_or]

theorem maskWeight_sub_one_sq [NeZero n] (k : ZMod n) :
    ((maskWeight n k.val : ℝ) - 1) ^ 2 = if -k = k then 0 else 1 := by
  have hsum := maskWeight_add_neg k
  have hproduct := maskWeight_mul_neg k
  rw [← eq_sub_iff_add_eq'] at hsum
  rw [hsum] at hproduct
  split
  · rename_i hk
    rw [if_pos hk] at hproduct
    linarith
  · rename_i hk
    rw [if_neg hk] at hproduct
    linarith

/-- A bin and its mirror image share a weight of two, and the mean has a weight of one. -/
theorem sum_maskWeight (n : ℕ) : ∑ k : Fin n, (maskWeight n k : ℝ) = n := by
  cases n with
  | zero => simp
  | succ m =>
    have hmirror : ∑ k : ZMod (m + 1), (maskWeight (m + 1) (-k).val : ℝ) =
        ∑ k : ZMod (m + 1), maskWeight (m + 1) k.val :=
      Equiv.sum_comp (Equiv.neg _) fun k : ZMod (m + 1) => (maskWeight (m + 1) k.val : ℝ)
    have htwice : 2 * ∑ k : ZMod (m + 1), (maskWeight (m + 1) k.val : ℝ) = 2 * (m + 1 : ℕ) := by
      calc 2 * ∑ k : ZMod (m + 1), (maskWeight (m + 1) k.val : ℝ)
        _ = ∑ k : ZMod (m + 1), (maskWeight (m + 1) k.val : ℝ) +
            ∑ k : ZMod (m + 1), (maskWeight (m + 1) (-k).val : ℝ) := by rw [hmirror, two_mul]
        _ = ∑ k : ZMod (m + 1), 2 := by
          rw [← Finset.sum_add_distrib]
          exact Finset.sum_congr rfl fun k _ => maskWeight_add_neg k
        _ = 2 * (m + 1 : ℕ) := by
          rw [Finset.sum_const, Finset.card_univ, ZMod.card, nsmul_eq_mul, mul_comm]
    rw [sum_onResidues]
    linarith

/-- Weights for the bins of a one-sided spectrum. -/
structure OneSidedWeights {n : ℕ} (h : Vector ℝ n) : Prop where
  sum : ∑ k, h.get k = n
  mean (k : Fin n) : k.val = 0 → h.get k = 1
  pair (k j : Fin n) : k.val + j.val = n → h.get k + h.get j = 2
  middle (k : Fin n) : 2 * k.val = n → h.get k = 1
  upper (k : Fin n) : n / 2 < k.val → h.get k = 0

theorem OneSidedWeights.get_eq {h : Vector ℝ n} (hh : OneSidedWeights h) (k : Fin n) :
    h.get k = maskWeight n k := by
  obtain hzero | hpos := Nat.eq_zero_or_pos k.val
  · rw [hh.mean k hzero, hzero, maskWeight_zero]
  · obtain hlower | hmiddle | hupper := Nat.lt_trichotomy (2 * k.val) n
    · have hmirror : n / 2 < n - k.val := Nat.div_lt_of_lt_mul (by omega)
      have hpair := hh.pair k ⟨n - k.val, by omega⟩ (Nat.add_sub_of_le k.isLt.le)
      rw [hh.upper ⟨n - k.val, by omega⟩ hmirror, add_zero] at hpair
      rw [hpair, maskWeight_lower hpos.ne' hlower]
    · rw [hh.middle k hmiddle, maskWeight_middle hpos.ne' hmiddle]
    · rw [hh.upper k (Nat.div_lt_of_lt_mul hupper), maskWeight_upper hupper]

theorem OneSidedWeights.of_get {h : Vector ℝ n} (hh : ∀ k : Fin n, h.get k = maskWeight n k) :
    OneSidedWeights h where
  sum := (Finset.sum_congr rfl fun k _ => hh k).trans (sum_maskWeight n)
  mean k hk := by rw [hh, hk, maskWeight_zero]
  pair k j hkj := by
    have hj : j.val = n - k.val := by omega
    rw [hh, hh, hj, maskWeight_add_mirror (by omega) k.isLt]
  middle k hk := by rw [hh, maskWeight_middle (by omega) hk]
  upper k hk := by rw [hh, maskWeight_upper (by omega)]

/-- The weights of the mask are one-sided, and no others are. -/
theorem hilbertMask_oneSided (n : ℕ) :
    ∃ h : Vector ℝ n, hilbertMask n = h.toArray ∧ OneSidedWeights h ∧
      ∀ w, OneSidedWeights w → w = h := by
  refine ⟨Vector.ofFn fun k => maskWeight n k, rfl, .of_get fun k => ?_, fun w hw => ?_⟩
  · exact Vector.getElem_ofFn k.isLt
  · apply Vector.ext
    intro i hi
    rw [Vector.getElem_ofFn]
    exact hw.get_eq ⟨i, hi⟩

end AnalyticTrace
