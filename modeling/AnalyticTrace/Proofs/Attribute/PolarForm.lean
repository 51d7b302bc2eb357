import AnalyticTrace.Proofs.Analytic.OneSided
import AnalyticTrace.Proofs.Storage.RunInto

namespace AnalyticTrace

open scoped Real

/-- All that is asked of an angle here: it has the direction of its vector and lies within half a
turn. Both ends are allowed, so a vector on the negative axis has two such angles, and the zero
vector has any. -/
class PolarAngle [Angle] : Prop where
  mem (y x : ℝ) : Angle.angle y x ∈ Set.Icc (-π) π
  cos (y x : ℝ) : Sample.hypot x y * Real.cos (Angle.angle y x) = x
  sin (y x : ℝ) : Sample.hypot x y * Real.sin (Angle.angle y x) = y

theorem norm_eq_hypot [Angle] (x y : ℝ) : ‖(⟨x, y⟩ : ℂ)‖ = Sample.hypot x y :=
  Complex.norm_eq_sqrt_sq_add_sq _

instance : PolarAngle where
  mem _ _ := Set.Ioc_subset_Icc_self (Complex.arg_mem_Ioc _)
  cos y x := norm_eq_hypot x y ▸ Complex.norm_mul_cos_arg ⟨x, y⟩
  sin y x := norm_eq_hypot x y ▸ Complex.norm_mul_sin_arg ⟨x, y⟩

section Fold
variable [Angle]

theorem phaseOf_cases (z : Cplx ℝ) :
    z.arg = -π ∧ phaseOf z = π ∨ z.arg ≠ -π ∧ phaseOf z = z.arg := by
  by_cases h : z.arg = -π
  · exact .inl ⟨h, if_pos (beq_iff_eq.2 h)⟩
  · exact .inr ⟨h, if_neg fun he => h (eq_of_beq he)⟩

/-- The fold goes half a turn on instead of half a turn back, to the same direction. -/
theorem cos_phaseOf (z : Cplx ℝ) : Real.cos (phaseOf z) = Real.cos z.arg := by
  obtain ⟨harg, hfold⟩ | ⟨-, hkeep⟩ := phaseOf_cases z
  · rw [hfold, harg, Real.cos_neg]
  · rw [hkeep]

theorem sin_phaseOf (z : Cplx ℝ) : Real.sin (phaseOf z) = Real.sin z.arg := by
  obtain ⟨harg, hfold⟩ | ⟨-, hkeep⟩ := phaseOf_cases z
  · rw [hfold, harg, Real.sin_neg, Real.sin_pi, neg_zero]
  · rw [hkeep]

variable [PolarAngle]

theorem phaseOf_mem (z : Cplx ℝ) : phaseOf z ∈ Set.Ioc (-π) π := by
  obtain ⟨-, hfold⟩ | ⟨hne, hkeep⟩ := phaseOf_cases z
  · rw [hfold]
    exact ⟨neg_lt_self Real.pi_pos, le_rfl⟩
  · obtain ⟨hlow, hhigh⟩ := PolarAngle.mem z.im z.re
    rw [hkeep]
    exact ⟨lt_of_le_of_ne hlow hne.symm, hhigh⟩

theorem norm_mul_cos_phaseOf (z : Cplx ℝ) : z.norm * Real.cos (phaseOf z) = z.re := by
  rw [cos_phaseOf]
  exact PolarAngle.cos z.im z.re

theorem norm_mul_sin_phaseOf (z : Cplx ℝ) : z.norm * Real.sin (phaseOf z) = z.im := by
  rw [sin_phaseOf]
  exact PolarAngle.sin z.im z.re

end Fold

/-- Phase, envelope and Hilbert component as the polar coordinates of the analytic signal over `n`
points, whose horizontal legs are the samples of the trace and zeros behind them. -/
structure PolarForm {n : ℕ} (x : Array ℝ) (phase envelope hilbert : Vector ℝ n) : Prop where
  phase_mem : ∀ i : Fin n, phase.get i ∈ Set.Ioc (-π) π
  envelope_nonneg : ∀ i : Fin n, 0 ≤ envelope.get i
  horizontal : ∀ i : Fin n, envelope.get i * Real.cos (phase.get i) = x.getD i 0
  vertical : ∀ i : Fin n, envelope.get i * Real.sin (phase.get i) = hilbert.get i
  analytic : IsAnalyticSignal x (Vector.ofFn fun i : Fin n => ⟨x.getD i 0, hilbert.get i⟩)

theorem PolarForm.of_analytic [Angle] [PolarAngle] {n : ℕ} {x : Array ℝ} {z : Vector (Cplx ℝ) n}
    (h : IsAnalyticSignal x z) :
    PolarForm x (z.map phaseOf) (z.map Cplx.norm) (z.map Cplx.im) := by
  have hmap {β : Type} (f : Cplx ℝ → β) (i : Fin n) : (z.map f).get i = f (z.get i) :=
    Vector.getElem_map ..
  have hsamples : z.map Cplx.re = Vector.ofFn fun i : Fin n => x.getD i 0 := by
    rw [← Vector.toArray_inj, Vector.toArray_ofFn, ← resize_eq_ofFn]
    exact h.samples
  have hre (i : Fin n) : (z.get i).re = x.getD i 0 := by
    rw [← hmap Cplx.re, hsamples]
    exact Vector.getElem_ofFn ..
  have hz : (Vector.ofFn fun i : Fin n => ⟨x.getD i 0, (z.map Cplx.im).get i⟩) = z := by
    apply Vector.ext
    intro i hi
    rw [Vector.getElem_ofFn, hmap, ← hre]
    rfl
  refine ⟨fun i => ?_, fun i => ?_, fun i => ?_, fun i => ?_, hz.symm ▸ h⟩
  · rw [hmap]
    exact phaseOf_mem _
  · rw [hmap]
    exact Real.sqrt_nonneg _
  · rw [hmap, hmap, norm_mul_cos_phaseOf, hre]
  · rw [hmap, hmap, hmap, norm_mul_sin_phaseOf]

namespace PolarExtractor

/-- The outputs are polar coordinates at every sample, on the branch cut and where the signal
vanishes too. -/
theorem run_polarForm [Angle] [PolarAngle] [Transform ℝ] [ExactTransform] {components : Option ℕ}
    {k : PolarExtractor} (hk : ofComponents components = .ok k) {input : Buffer ℝ} {x : Array ℝ}
    (hread : input.read = .ok x) (hx : components = none → 0 < x.size) :
    ∃ phase envelope hilbert : Vector ℝ (components.getD x.size),
      k.run input = .ok ⟨phase.toArray, envelope.toArray, hilbert.toArray⟩ ∧
        PolarForm x phase envelope hilbert := by
  obtain ⟨t, ht, hkt⟩ := bind_eq_ok.1 hk
  cases hkt
  obtain rfl := HilbertTransformer.components_of_ok ht
  have hpos := HilbertTransformer.outputLength_pos hx
  have : NeZero (t.components.getD x.size) := ⟨Nat.ne_of_gt hpos⟩
  have hanalytic := (isAnalyticSignal_iff_eq x (analyticVector (t.components.getD x.size) x)).2 rfl
  refine ⟨_, _, _, run_eq_ok.2 ⟨x, hread, _, HilbertTransformer.runTrace_eq hpos, ?_⟩,
    .of_analytic hanalytic⟩
  simp only [Vector.toArray_map]
  rfl

/-- Two samples, and a zero behind them. -/
theorem run_polarForm_padded :
    ofComponents (some 3) = .ok ⟨⟨some 3, by decide⟩⟩ ∧
      ∃ phase envelope hilbert : Vector ℝ 3,
        run ⟨⟨some 3, by decide⟩⟩ (.list #[(1 : ℝ), -2]) =
            .ok ⟨phase.toArray, envelope.toArray, hilbert.toArray⟩ ∧
          PolarForm #[1, -2] phase envelope hilbert := by
  have hbuild : ofComponents (some 3) = .ok ⟨⟨some 3, by decide⟩⟩ := rfl
  have hread : (Buffer.list #[(1 : ℝ), -2]).read = .ok #[1, -2] := rfl
  exact ⟨hbuild, run_polarForm hbuild hread nofun⟩

end PolarExtractor
end AnalyticTrace
