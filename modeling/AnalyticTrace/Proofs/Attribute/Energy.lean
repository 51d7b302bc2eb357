import AnalyticTrace.Proofs.Analytic.Quadrature
import AnalyticTrace.Proofs.Attribute.Selection

namespace AnalyticTrace

section Sums
variable [Angle] [Transform ℝ] [ExactTransform] {n : ℕ} [NeZero n] (x : Array ℝ)

/-- Of the products of mirrored bins only those of a bin with itself are left. -/
theorem sum_sq_analyticVector :
    ∑ j, onResidues (analyticVector n x) j * onResidues (analyticVector n x) j =
      ((n : ℝ)⁻¹ * ((∑ j, padded n x j) ^ 2 +
        if Even n then (∑ j, (-1) ^ j.val * padded n x j) ^ 2 else 0) : ℝ) := by
  have hbins (k : ZMod n) : realBins (padded n x) k * (maskWeight n k.val : ℝ) *
      (realBins (padded n x) (-k) * (maskWeight n (-k).val : ℝ)) =
        if -k = k then realBins (padded n x) k ^ 2 else 0 := by
    have hweights : ((maskWeight n k.val : ℝ) : ℂ) * (maskWeight n (-k).val : ℝ) =
        ((if -k = k then 1 else 0 : ℝ) : ℂ) := by
      exact_mod_cast maskWeight_mul_neg k
    rw [mul_mul_mul_comm, hweights]
    by_cases hk : -k = k
    · rw [if_pos hk, if_pos hk, hk, Complex.ofReal_one, mul_one, pow_two]
    · rw [if_neg hk, if_neg hk, Complex.ofReal_zero, mul_zero]
  rw [sum_mul_eq_bins, dft_analyticVector]
  simp only [hbins]
  rw [sum_own_mirror, realBins_zero]
  by_cases hn : Even n
  · rw [if_pos hn, if_pos hn, realBins_middle _ ((middle_iff hn).2 rfl)]
    push_cast
    rfl
  · rw [if_neg hn, if_neg hn]
    push_cast
    rfl

theorem sum_mul_quadrature : ∑ j, padded n x j * quadrature n x j = 0 := by
  have him := congrArg Complex.im (sum_sq_analyticVector x (n := n))
  rw [Complex.im_sum, Complex.ofReal_im] at him
  have hterm (j : ZMod n) : (onResidues (analyticVector n x) j *
      onResidues (analyticVector n x) j).im = 2 * (padded n x j * quadrature n x j) := by
    rw [Complex.mul_im, re_analyticVector, quadrature]
    ring
  simp only [hterm] at him
  rw [← Finset.mul_sum] at him
  exact (mul_eq_zero.1 him).resolve_left two_ne_zero

theorem sum_sq_quadrature : ∑ j, quadrature n x j ^ 2 = ∑ j, padded n x j ^ 2 -
    (n : ℝ)⁻¹ * ((∑ j, padded n x j) ^ 2 +
      if Even n then (∑ j, (-1) ^ j.val * padded n x j) ^ 2 else 0) := by
  have hre := congrArg Complex.re (sum_sq_analyticVector x (n := n))
  rw [Complex.re_sum, Complex.ofReal_re] at hre
  have hterm (j : ZMod n) : (onResidues (analyticVector n x) j *
      onResidues (analyticVector n x) j).re = padded n x j ^ 2 - quadrature n x j ^ 2 := by
    rw [Complex.mul_re, re_analyticVector, quadrature]
    ring
  simp only [hterm] at hre
  rw [Finset.sum_sub_distrib] at hre
  linarith

end Sums

section Traces
variable {n : ℕ}

theorem instantaneousAttributes_toArray {α : Type} [Sample α] [Transform α] (hn : 0 < n)
    (x : Vector α n) : instantaneousAttributes x.toArray =
      .ok (.ofAnalytic (analyticVector n x.toArray).toArray) := by
  obtain ⟨x, rfl⟩ := x
  exact instantaneousAttributes_eq hn

theorem norm_sq [Angle] (z : Cplx ℝ) : z.norm ^ 2 = z.re ^ 2 + z.im ^ 2 :=
  Real.sq_sqrt (add_nonneg (sq_nonneg _) (sq_nonneg _))

/-- The quadrature of a trace is orthogonal to it, and the envelope has the energy of both: twice
that of the trace, less what the mean and the alternating part have of it. -/
theorem instantaneousAttributes_energy [Angle] [Transform ℝ] [ExactTransform] (hn : 0 < n)
    (x : Vector ℝ n) :
    ∃ phase envelope hilbert : Vector ℝ n,
      instantaneousAttributes x.toArray =
          .ok ⟨phase.toArray, envelope.toArray, hilbert.toArray⟩ ∧
        ∑ i, x.get i * hilbert.get i = 0 ∧
        ∑ i, envelope.get i ^ 2 = 2 * ∑ i, x.get i ^ 2 - (∑ i, x.get i) ^ 2 / n -
          if Even n then (∑ i : Fin n, (-1) ^ i.val * x.get i) ^ 2 / n else 0 := by
  have : NeZero n := ⟨hn.ne'⟩
  have hsample (j : ZMod n) : x.get ⟨j.val, j.val_lt⟩ = padded n x.toArray j :=
    (padded_toArray x j).symm
  have hhilbert (j : ZMod n) : ((analyticVector n x.toArray).map Cplx.im).get ⟨j.val, j.val_lt⟩ =
      quadrature n x.toArray j := Vector.getElem_map ..
  have henvelope (j : ZMod n) :
      ((analyticVector n x.toArray).map Cplx.norm).get ⟨j.val, j.val_lt⟩ ^ 2 =
        padded n x.toArray j ^ 2 + quadrature n x.toArray j ^ 2 := by
    rw [← re_analyticVector, quadrature, onResidues, Cplx.toComplex_re, Cplx.toComplex_im,
      ← norm_sq]
    exact congrArg (· ^ 2) (Vector.getElem_map ..)
  refine ⟨(analyticVector n x.toArray).map phaseOf, (analyticVector n x.toArray).map Cplx.norm,
    (analyticVector n x.toArray).map Cplx.im, ?_, ?_, ?_⟩
  · rw [instantaneousAttributes_toArray hn]
    simp only [Vector.toArray_map]
    rfl
  · simp only [sum_onResidues, hsample, hhilbert]
    exact sum_mul_quadrature x.toArray
  · simp only [sum_onResidues, hsample, henvelope]
    rw [Finset.sum_add_distrib, sum_sq_quadrature]
    split
    · ring
    · ring

theorem instantaneousAttributes_energy_four :
    0 < 4 ∧ ∃ phase envelope hilbert : Vector ℝ 4,
      instantaneousAttributes #[(1 : ℝ), 2, 3, 5] =
          .ok ⟨phase.toArray, envelope.toArray, hilbert.toArray⟩ ∧
        hilbert.get 0 + 2 * hilbert.get 1 + 3 * hilbert.get 2 + 5 * hilbert.get 3 = 0 ∧
        ∑ i, envelope.get i ^ 2 = 91 / 2 := by
  have hpos : 0 < 4 := by decide
  have heven : Even 4 := by decide
  obtain ⟨phase, envelope, hilbert, hrun, horthogonal, henergy⟩ :=
    instantaneousAttributes_energy hpos #v[(1 : ℝ), 2, 3, 5]
  refine ⟨hpos, phase, envelope, hilbert, hrun, ?_, ?_⟩
  · simpa [Fin.sum_univ_four, Vector.get] using horthogonal
  · rw [henergy, if_pos heven]
    norm_num [Fin.sum_univ_four, Vector.get]

end Traces
end AnalyticTrace
