import AnalyticTrace.Proofs.Fourier.Symmetry

namespace AnalyticTrace

variable {n : ℕ} [NeZero n]

/-- The transform may stand on either factor of a sum of products. -/
theorem sum_dft_mul (f g : ZMod n → ℂ) : ∑ k, ZMod.dft f k * g k = ∑ j, f j * ZMod.dft g j := by
  simp only [ZMod.dft_apply, smul_eq_mul, Finset.sum_mul, Finset.mul_sum]
  rw [Finset.sum_comm]
  apply Finset.sum_congr rfl
  intro j _
  apply Finset.sum_congr rfl
  intro k _
  rw [mul_comm j k]
  ring

/-- Products of samples add up to products of mirrored bins. -/
theorem sum_mul_eq_bins (f g : ZMod n → ℂ) :
    ∑ j, f j * g j = (n : ℂ)⁻¹ * ∑ k, ZMod.dft f k * ZMod.dft g (-k) := by
  have hg (j : ZMod n) : ZMod.dft (fun k => ZMod.dft g (-k)) j = n * g j := by
    simp only [ZMod.dft_comp_neg, ZMod.dft_dft, neg_neg, smul_eq_mul]
  rw [sum_dft_mul, Finset.mul_sum]
  apply Finset.sum_congr rfl
  intro j _
  rw [hg, mul_left_comm, inv_mul_cancel_left₀ (NeZero.ne (n : ℂ))]

theorem middle_iff (hn : Even n) {k : ZMod n} : 2 * k.val = n ↔ k = (n / 2 : ℕ) := by
  have hpos := NeZero.pos n
  obtain ⟨m, hm⟩ := hn
  have hmiddle : ((n / 2 : ℕ) : ZMod n).val = n / 2 := ZMod.val_cast_of_lt (by omega)
  constructor
  · intro hk
    apply ZMod.val_injective
    omega
  · rintro rfl
    omega

/-- A bin is its own mirror image at the mean and, if there is one, in the middle. -/
theorem sum_own_mirror (g : ZMod n → ℂ) :
    ∑ k, (if -k = k then g k else 0) = g 0 + if Even n then g (n / 2 : ℕ) else 0 := by
  have hsplit (k : ZMod n) : (if -k = k then g k else 0) =
      (if k = 0 then g k else 0) + if 2 * k.val = n then g k else 0 := by
    by_cases hk : k = 0
    · subst hk
      have hmiddle : ¬2 * (0 : ZMod n).val = n := by
        rw [ZMod.val_zero]
        exact (NeZero.ne n).symm
      rw [if_pos neg_zero, if_pos rfl, if_neg hmiddle, add_zero]
    · simp only [ZMod.neg_eq_self_iff, hk, false_or, if_false, zero_add]
  simp only [hsplit]
  rw [Finset.sum_add_distrib, Finset.sum_ite_eq', if_pos (Finset.mem_univ 0)]
  congr 1
  by_cases hn : Even n
  · simp only [middle_iff hn, if_pos hn]
    rw [Finset.sum_ite_eq', if_pos (Finset.mem_univ _)]
  · rw [if_neg hn]
    apply Finset.sum_eq_zero
    intro k _
    exact if_neg fun hk => hn ⟨k.val, by omega⟩

section RealBins
variable (f : ZMod n → ℝ)

theorem realBins_zero : realBins f 0 = (∑ j, f j : ℝ) := by
  rw [realBins, ZMod.dft_apply_zero, Complex.ofReal_sum]

theorem realBins_middle {k : ZMod n} (hk : 2 * k.val = n) :
    realBins f k = (∑ j, (-1) ^ j.val * f j : ℝ) := by
  rw [realBins, ZMod.dft_apply, Complex.ofReal_sum]
  apply Finset.sum_congr rfl
  intro j _
  rw [stdAddChar_middle hk, smul_eq_mul]
  push_cast
  rfl

/-- What a signal has in the bins that are their own mirror images: its mean and, over an even
number of points, a part that alternates. -/
noncomputable def ownMirrorPart (j : ZMod n) : ℝ :=
  (n : ℝ)⁻¹ * ∑ i, f i + if Even n then (-1) ^ j.val * ((n : ℝ)⁻¹ * ∑ i, (-1) ^ i.val * f i) else 0

theorem stdAddChar_middle_mul {k : ZMod n} (hk : 2 * k.val = n) (j : ZMod n) :
    ZMod.stdAddChar (k * j) = ((-1) ^ j.val : ℂ) := by
  rw [← stdAddChar_middle hk, ← mul_neg, neg_eq_of_middle hk, mul_comm]

theorem invDFT_own_mirror (j : ZMod n) :
    ZMod.dft.symm (fun k => if -k = k then realBins f k else 0) j = ownMirrorPart f j := by
  have hterm (k : ZMod n) : ZMod.stdAddChar (k * j) • (if -k = k then realBins f k else 0) =
      if -k = k then ZMod.stdAddChar (k * j) * realBins f k else 0 := by
    rw [smul_eq_mul, mul_ite, mul_zero]
  rw [ZMod.invDFT_apply]
  simp only [hterm]
  rw [sum_own_mirror, zero_mul, AddChar.map_zero_eq_one, one_mul, realBins_zero, smul_eq_mul,
    ownMirrorPart]
  by_cases hn : Even n
  · have hk := (middle_iff hn).2 rfl
    rw [if_pos hn, if_pos hn, stdAddChar_middle_mul hk, realBins_middle f hk]
    push_cast
    ring
  · rw [if_neg hn, if_neg hn]
    push_cast
    ring

end RealBins
end AnalyticTrace
