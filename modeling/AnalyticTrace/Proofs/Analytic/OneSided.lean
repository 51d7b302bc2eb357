import AnalyticTrace.Proofs.Analytic.Mask
import AnalyticTrace.Proofs.Analytic.Pipeline
import AnalyticTrace.Proofs.Fourier.MixedRadix
import AnalyticTrace.Proofs.Fourier.Spectrum
import AnalyticTrace.Proofs.Fourier.Symmetry

namespace AnalyticTrace

open Complex (I exp)
open scoped Real ComplexConjugate

variable {n : ℕ} [NeZero n]

/-- What the mask makes of the bins of a real signal: mirrored bins still add up to twice the
signal's, the upper half is empty, and a bin that is its own mirror image is real. -/
structure OneSidedBins (f : ZMod n → ℝ) (Y : ZMod n → ℂ) : Prop where
  mirror : ∀ k, Y k + conj (Y (-k)) = 2 * realBins f k
  upper : ∀ k : ZMod n, n < 2 * k.val → Y k = 0
  zero : (Y 0).im = 0
  middle : ∀ k : ZMod n, 2 * k.val = n → (Y k).im = 0

theorem eq_of_add_conj {z w : ℂ} (h : z + conj z = 2 * w) (hz : z.im = 0) : z = w := by
  rw [Complex.conj_eq_iff_im.2 hz, ← two_mul] at h
  exact mul_left_cancel₀ two_ne_zero h

section Mask
variable [Angle]

theorem oneSidedBins_mask (f : ZMod n → ℝ) :
    OneSidedBins f fun k => realBins f k * (maskWeight n k.val : ℝ) where
  mirror k := by
    have hw : ((maskWeight n k.val : ℝ) : ℂ) + (maskWeight n (-k).val : ℝ) = 2 := by
      exact_mod_cast maskWeight_add_neg k
    rw [map_mul, realBins_neg, Complex.conj_ofReal, ← mul_add, hw, mul_comm]
  upper k hk := by rw [maskWeight_upper hk, Complex.ofReal_zero, mul_zero]
  zero := by rw [Complex.im_mul_ofReal, realBins_im neg_zero, zero_mul]
  middle k hk := by rw [Complex.im_mul_ofReal, realBins_im (neg_eq_of_middle hk), zero_mul]

theorem OneSidedBins.eq_mask {f : ZMod n → ℝ} {Y : ZMod n → ℂ} (h : OneSidedBins f Y) :
    Y = fun k => realBins f k * (maskWeight n k.val : ℝ) := by
  funext k
  by_cases hk : k = 0
  · subst hk
    have hm := h.mirror 0
    rw [neg_zero] at hm
    rw [ZMod.val_zero, maskWeight_zero, Complex.ofReal_one, mul_one]
    exact eq_of_add_conj hm h.zero
  · have hv : k.val ≠ 0 := fun hv => hk ((ZMod.val_eq_zero k).1 hv)
    have hlt := k.val_lt
    rcases Nat.lt_trichotomy (2 * k.val) n with hl | hl | hl
    -- The mirror image of a lower bin is empty, so the lower bin has all of the sum.
    · have hu : Y (-k) = 0 := h.upper (-k) (by rw [ZMod.neg_val, if_neg hk]; omega)
      have hm := h.mirror k
      rw [hu, map_zero, add_zero] at hm
      rw [hm, maskWeight_lower hv hl, Complex.ofReal_ofNat, mul_comm]
    · have hm := h.mirror k
      rw [neg_eq_of_middle hl] at hm
      rw [maskWeight_middle hv hl, Complex.ofReal_one, mul_one]
      exact eq_of_add_conj hm (h.middle k hl)
    · rw [h.upper k hl, maskWeight_upper hl, Complex.ofReal_zero, mul_zero]

end Mask

def padded (n : ℕ) (x : Array ℝ) (j : ZMod n) : ℝ := x.getD j.val 0

section Sequences
variable [Angle]

theorem dft_analyticVector [Transform ℝ] [ExactTransform] (x : Array ℝ) :
    ZMod.dft (onResidues (analyticVector n x)) =
      fun k => realBins (padded n x) k * (maskWeight n k.val : ℝ) := by
  have hload : onResidues (Vector.ofFn fun i : Fin n => Cplx.ofReal (x.getD i 0)) =
      fun j => (padded n x j : ℂ) := by
    funext j
    simp [onResidues, padded]
  rw [analyticVector, onResidues_inverse, LinearEquiv.apply_symm_apply]
  funext k
  rw [realBins, ← hload, ← onResidues_forward]
  simp only [onResidues, Fin.getElem_fin, Vector.getElem_ofFn, Cplx.toComplex_scale]
  rfl

/-- The bins are all there is to an analytic signal. -/
theorem analyticVector_eq_of_bins [Transform ℝ] [ExactTransform] {x : Array ℝ}
    {z : Vector (Cplx ℝ) n}
    (h : ∀ k, ZMod.dft (onResidues z) k = realBins (padded n x) k * (maskWeight n k.val : ℝ)) :
    analyticVector n x = z := by
  apply onResidues_injective
  apply ZMod.dft.injective
  rw [dft_analyticVector]
  exact (funext h).symm

end Sequences

/-- An analytic signal of a trace over `n` points, said without a transform of the trace: it
continues the samples into the complex plane without negative frequencies, and adds neither a mean
nor a part of the highest frequency of its own. -/
structure IsAnalyticSignal {n : ℕ} (x : Array ℝ) (z : Vector (Cplx ℝ) n) : Prop where
  samples : (z.map Cplx.re).toArray = resize n x
  upper_bins : ∀ k : Fin n, n / 2 < k →
    ∑ j : Fin n, z[j].toComplex * exp (-(2 * π * I * (j * k : ℕ) / n)) = 0
  mean : ∑ i : Fin n, z[i].im = 0
  alternating : Even n → ∑ i : Fin n, (-1) ^ (i : ℕ) * z[i].im = 0

theorem samples_iff {x : Array ℝ} {z : Vector (Cplx ℝ) n} :
    (z.map Cplx.re).toArray = resize n x ↔ ∀ j, (onResidues z j).re = padded n x j := by
  rw [resize_eq_ofFn, ← Vector.toArray_ofFn, Vector.toArray_inj]
  constructor
  · intro h j
    have hj := congrArg (·[(⟨j.val, j.val_lt⟩ : Fin n)]) h
    simpa [onResidues, padded] using hj
  · intro h
    apply Vector.ext
    intro i hi
    have hj := h (i : ZMod n)
    simpa [onResidues, padded, ZMod.val_cast_of_lt hi] using hj

theorem upper_bins_iff {z : Vector (Cplx ℝ) n} :
    (∀ k : Fin n, n / 2 < k →
        ∑ j : Fin n, z[j].toComplex * exp (-(2 * π * I * (j * k : ℕ) / n)) = 0) ↔
      ∀ k : ZMod n, n < 2 * k.val → ZMod.dft (onResidues z) k = 0 := by
  constructor
  · intro h k hk
    rw [dft_onResidues]
    exact h ⟨k.val, k.val_lt⟩ (Nat.div_lt_of_lt_mul hk)
  · intro h k hk
    have hv : (k.val : ZMod n).val = k := ZMod.val_cast_of_lt k.isLt
    have hz := h (k.val : ZMod n) (by omega)
    rwa [dft_onResidues, hv] at hz

theorem alternating_iff {z : Vector (Cplx ℝ) n} :
    (Even n → ∑ i : Fin n, (-1) ^ (i : ℕ) * z[i].im = 0) ↔
      ∀ k : ZMod n, 2 * k.val = n → (ZMod.dft (onResidues z) k).im = 0 := by
  have hsum : ∑ i : Fin n, (-1) ^ (i : ℕ) * z[i].im =
      ∑ j : ZMod n, (-1) ^ j.val * (onResidues z j).im := sum_onResidues _
  rw [hsum]
  constructor
  · intro h k hk
    rw [dft_middle_im hk]
    exact h ⟨k.val, by omega⟩
  · rintro h ⟨m, hm⟩
    have hn := NeZero.pos n
    have hv : 2 * (m : ZMod n).val = n := by rw [ZMod.val_cast_of_lt (by omega)]; omega
    rw [← dft_middle_im hv]
    exact h _ hv

theorem isAnalyticSignal_iff {x : Array ℝ} {z : Vector (Cplx ℝ) n} :
    IsAnalyticSignal x z ↔ OneSidedBins (padded n x) (ZMod.dft (onResidues z)) := by
  have hmean : ∑ i : Fin n, z[i].im = (ZMod.dft (onResidues z) 0).im := by
    rw [dft_zero_im]
    exact sum_onResidues _
  constructor
  · rintro ⟨hs, hu, hm, ha⟩
    exact ⟨(re_eq_iff_bins _ _).1 (samples_iff.1 hs), upper_bins_iff.1 hu, hmean ▸ hm,
      alternating_iff.1 ha⟩
  · rintro ⟨hs, hu, hm, ha⟩
    exact ⟨samples_iff.2 ((re_eq_iff_bins _ _).2 hs), upper_bins_iff.2 hu, hmean.trans hm,
      alternating_iff.2 ha⟩

theorem HilbertTransformer.components_of_ok {components : Option ℕ} {t : HilbertTransformer}
    (h : HilbertTransformer.ofComponents components = .ok t) : t.components = components := by
  rw [HilbertTransformer.ofComponents] at h
  split at h
  · cases h
  · cases h
    rfl

section Sequences
variable [Angle]

theorem isAnalyticSignal_iff_eq [Transform ℝ] [ExactTransform] (x : Array ℝ)
    (z : Vector (Cplx ℝ) n) : IsAnalyticSignal x z ↔ z = analyticVector n x := by
  rw [isAnalyticSignal_iff]
  constructor
  · intro h
    apply onResidues_injective
    apply ZMod.dft.injective
    rw [h.eq_mask, dft_analyticVector]
  · intro h
    rw [h, dft_analyticVector]
    exact oneSidedBins_mask _

/-- A transformer computes the only analytic signal that a trace has. -/
theorem HilbertTransformer.run_unique [Transform ℝ] [ExactTransform] {components : Option ℕ}
    {t : HilbertTransformer} (ht : HilbertTransformer.ofComponents components = .ok t)
    {input : Buffer ℝ} {x : Array ℝ} (hread : input.read = .ok x)
    (hx : components = none → 0 < x.size) :
    ∃ y : Vector (Cplx ℝ) (components.getD x.size),
      t.run input = .ok y.toArray ∧
        ∀ z : Vector (Cplx ℝ) (components.getD x.size), IsAnalyticSignal x z ↔ z = y := by
  obtain rfl := components_of_ok ht
  have hpos : 0 < t.components.getD x.size := by
    have hne := t.components_ne_zero
    cases hc : t.components with
    | none => exact hx hc
    | some m =>
      rw [hc] at hne
      exact Nat.pos_of_ne_zero fun hm => hne (congrArg some hm)
  have : NeZero (t.components.getD x.size) := ⟨Nat.ne_of_gt hpos⟩
  exact ⟨_, (run_of_read t hread).trans (runTrace_eq hpos), isAnalyticSignal_iff_eq x⟩

end Sequences

theorem exp_three_quarters (j : ℕ) : exp (-(2 * π * I * (j * 3 : ℕ) / (4 : ℕ))) = I ^ j := by
  have he : -(2 * π * I * (j * 3 : ℕ) / (4 : ℕ)) = j * (π / 2 * I - 2 * π * I) := by
    push_cast
    ring
  rw [he, Complex.exp_nat_mul, Complex.exp_sub, Complex.exp_two_pi_mul_I, div_one,
    Complex.exp_pi_div_two_mul_I]

theorem isAnalyticSignal_cosine :
    IsAnalyticSignal #[1, 0, -1] (#v[⟨1, 0⟩, ⟨0, 1⟩, ⟨-1, 0⟩, ⟨0, -1⟩] : Vector (Cplx ℝ) 4) where
  samples := by
    rw [resize_eq_ofFn]
    simp [Array.ofFn_succ]
  upper_bins k hk := by
    obtain rfl : k = 3 := by omega
    have hroot (j : Fin 4) : exp (-(2 * π * I * (j * (3 : Fin 4) : ℕ) / (4 : ℕ))) = I ^ (j : ℕ) :=
      exp_three_quarters j
    simp only [hroot, Fin.sum_univ_four]
    simp [Cplx.toComplex, Complex.ext_iff, pow_succ]
  mean := by simp [Fin.sum_univ_four]
  alternating _ := by
    simp [Fin.sum_univ_four]
    norm_num

theorem HilbertTransformer.run_unique_cosine :
    HilbertTransformer.ofComponents (some 4) = .ok ⟨some 4, by decide⟩ ∧
      HilbertTransformer.run ⟨some 4, by decide⟩ (.list #[(1 : ℝ), 0, -1]) =
        .ok #[⟨1, 0⟩, ⟨0, 1⟩, ⟨-1, 0⟩, ⟨0, -1⟩] := by
  have hbuild : HilbertTransformer.ofComponents (some 4) = .ok ⟨some 4, by decide⟩ := rfl
  have hread : (Buffer.list #[(1 : ℝ), 0, -1]).read = .ok #[1, 0, -1] := rfl
  obtain ⟨y, hy, hunique⟩ := HilbertTransformer.run_unique hbuild hread nofun
  refine ⟨hbuild, ?_⟩
  rw [hy, ← (hunique _).1 isAnalyticSignal_cosine]

end AnalyticTrace
