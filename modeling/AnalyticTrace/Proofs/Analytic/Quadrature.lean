import AnalyticTrace.Proofs.Analytic.Composition
import AnalyticTrace.Proofs.Fourier.Parseval

namespace AnalyticTrace

open Complex (I)

section Bins
variable [Angle] [Transform ℝ] [ExactTransform] {n : ℕ} [NeZero n]

theorem re_analyticVector (x : Array ℝ) (j : ZMod n) :
    (onResidues (analyticVector n x) j).re = padded n x j :=
  samples_iff.1 ((isAnalyticSignal_iff_eq x _).2 rfl).samples j

/-- The imaginary part of the analytic signal. -/
noncomputable def quadrature (n : ℕ) [NeZero n] (x : Array ℝ) (j : ZMod n) : ℝ :=
  (onResidues (analyticVector n x) j).im

theorem onResidues_analyticVector (x : Array ℝ) (j : ZMod n) :
    onResidues (analyticVector n x) j = padded n x j + I * quadrature n x j := by
  rw [← re_analyticVector, mul_comm]
  exact (Complex.re_add_im _).symm

/-- Every bin is turned by a quarter of a cycle, back below the middle and forward above it; a bin
that is its own mirror image is emptied. -/
theorem realBins_quadrature (x : Array ℝ) (k : ZMod n) :
    realBins (quadrature n x) k =
      -I * ((maskWeight n k.val : ℝ) - 1) * realBins (padded n x) k := by
  have hparts : onResidues (analyticVector n x) =
      (fun j => (padded n x j : ℂ)) + fun j => I * quadrature n x j :=
    funext (onResidues_analyticVector x)
  have hbins : realBins (padded n x) k * (maskWeight n k.val : ℝ) =
      realBins (padded n x) k + I * realBins (quadrature n x) k := by
    calc realBins (padded n x) k * (maskWeight n k.val : ℝ)
      _ = ZMod.dft (onResidues (analyticVector n x)) k := by rw [dft_analyticVector]
      _ = realBins (padded n x) k + ZMod.dft (fun j => I * quadrature n x j) k := by
        rw [hparts, map_add]
        rfl
      _ = realBins (padded n x) k + I * realBins (quadrature n x) k := by
        rw [ZMod.dft_const_mul]
        rfl
  linear_combination I * hbins + realBins (quadrature n x) k * Complex.I_mul_I

/-- Turned twice, every bin comes out opposite, but for those that are emptied. -/
theorem realBins_quadrature_twice {x h : Array ℝ} (hh : padded n h = quadrature n x) (k : ZMod n) :
    realBins (quadrature n h) k =
      (if -k = k then realBins (padded n x) k else 0) - realBins (padded n x) k := by
  have hsquare : (((maskWeight n k.val : ℝ) : ℂ) - 1) ^ 2 =
      ((if -k = k then 0 else 1 : ℝ) : ℂ) := by
    exact_mod_cast maskWeight_sub_one_sq k
  have hturns : realBins (quadrature n h) k =
      -(((maskWeight n k.val : ℝ) : ℂ) - 1) ^ 2 * realBins (padded n x) k := by
    rw [realBins_quadrature, hh, realBins_quadrature]
    linear_combination (((maskWeight n k.val : ℝ) : ℂ) - 1) ^ 2 * realBins (padded n x) k *
      Complex.I_mul_I
  rw [hturns, hsquare]
  by_cases hk : -k = k
  · rw [if_pos hk, if_pos hk, Complex.ofReal_zero, neg_zero, zero_mul, sub_self]
  · rw [if_neg hk, if_neg hk, Complex.ofReal_one, neg_one_mul, zero_sub]

/-- Turned twice, a signal comes out opposite, without what is its own mirror image. -/
theorem quadrature_twice {x h : Array ℝ} (hh : padded n h = quadrature n x) (j : ZMod n) :
    quadrature n h j = ownMirrorPart (padded n x) j - padded n x j := by
  have hsignal : (fun j => (quadrature n h j : ℂ)) =
      ZMod.dft.symm (fun k => if -k = k then realBins (padded n x) k else 0) -
        fun j => (padded n x j : ℂ) := by
    rw [← ZMod.dft.symm_apply_apply fun j => (padded n x j : ℂ), ← map_sub,
      LinearEquiv.eq_symm_apply]
    exact funext (realBins_quadrature_twice hh)
  have hat := congrFun hsignal j
  rw [Pi.sub_apply, invDFT_own_mirror, ← Complex.ofReal_sub] at hat
  exact Complex.ofReal_injective hat

end Bins

section Samples
variable {n : ℕ}

theorem analyticSignal_toArray {α : Type} [Sample α] [Transform α] (hn : 0 < n) (x : Vector α n) :
    analyticSignal x.toArray = .ok (analyticVector n x.toArray).toArray := by
  obtain ⟨x, rfl⟩ := x
  exact analyticSignal_eq hn

variable [NeZero n]

theorem padded_toArray (x : Vector ℝ n) (j : ZMod n) :
    padded n x.toArray j = x.get ⟨j.val, j.val_lt⟩ := by
  rw [padded, ← Array.getElem_eq_getD (h := j.val_lt.trans_eq x.size_toArray.symm)]
  rfl

theorem ownMirrorPart_padded (x : Vector ℝ n) (j : ZMod n) :
    ownMirrorPart (padded n x.toArray) j = (n : ℝ)⁻¹ * ∑ i, x.get i +
      if Even n then (-1) ^ j.val * ((n : ℝ)⁻¹ * ∑ i : Fin n, (-1) ^ i.val * x.get i) else 0 := by
  simp only [ownMirrorPart, padded_toArray, sum_onResidues]

end Samples

/-- The imaginary part of the imaginary part: the trace upside down, less its mean and, over an even
number of samples, less what alternates in it. -/
theorem analyticSignal_twice [Angle] [Transform ℝ] [ExactTransform] {n : ℕ} (hn : 0 < n)
    (x : Vector ℝ n) :
    ∃ y z : Vector (Cplx ℝ) n, analyticSignal x.toArray = .ok y.toArray ∧
      analyticSignal (y.map Cplx.im).toArray = .ok z.toArray ∧
      ∀ i : Fin n, (z.get i).im = -(x.get i - (n : ℝ)⁻¹ * ∑ j, x.get j -
        if Even n then (-1) ^ i.val * ((n : ℝ)⁻¹ * ∑ j : Fin n, (-1) ^ j.val * x.get j)
        else 0) := by
  have : NeZero n := ⟨hn.ne'⟩
  refine ⟨_, _, analyticSignal_toArray hn x, analyticSignal_toArray hn _, ?_⟩
  intro i
  have hquadrature : padded n ((analyticVector n x.toArray).map Cplx.im).toArray =
      quadrature n x.toArray := by
    funext j
    rw [padded_toArray]
    exact Vector.getElem_map ..
  have hi : ((i.val : ZMod n)).val = i.val := ZMod.val_cast_of_lt i.isLt
  have hturned := quadrature_twice hquadrature (i.val : ZMod n)
  rw [ownMirrorPart_padded, padded_toArray, quadrature, onResidues] at hturned
  simp only [hi] at hturned
  refine hturned.trans ?_
  ring

theorem analyticSignal_twice_four :
    0 < 4 ∧ ∃ y z : Vector (Cplx ℝ) 4, analyticSignal #[(1 : ℝ), 2, 3, 5] = .ok y.toArray ∧
      analyticSignal (y.map Cplx.im).toArray = .ok z.toArray ∧ (z.get 3).im = -(3 / 2) := by
  have hpos : 0 < 4 := by decide
  have heven : Even 4 := by decide
  obtain ⟨y, z, hy, hz, htwice⟩ := analyticSignal_twice hpos #v[(1 : ℝ), 2, 3, 5]
  refine ⟨hpos, y, z, hy, hz, ?_⟩
  rw [htwice, if_pos heven]
  norm_num [Fin.sum_univ_four, Vector.get]

end AnalyticTrace
