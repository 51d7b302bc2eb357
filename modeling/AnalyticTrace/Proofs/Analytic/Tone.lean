import AnalyticTrace.Proofs.Analytic.OneSided

namespace AnalyticTrace

open Complex (I exp)
open scoped Real

/-- The angle at sample `i` of a tone that goes through `k` cycles in `n` samples. -/
noncomputable def toneAngle (n k : ℕ) (φ : ℝ) (i : ℕ) : ℝ := turnAngle n (k * i) + φ

noncomputable def tone (n k : ℕ) (A φ : ℝ) : Array ℝ :=
  Array.ofFn fun i : Fin n => A * Real.cos (toneAngle n k φ i)

theorem tone_four : tone 4 1 2 0 = #[2, 0, -2, 0] := by
  have hangle (i : ℕ) : toneAngle 4 1 0 i = i * (π / 2) := by
    rw [toneAngle, turnAngle]
    push_cast
    ring
  have hthree : (3 : ℝ) * (π / 2) = π / 2 + π := by ring
  simp [tone, Array.ofFn_succ, hangle, hthree, Real.cos_add_pi, mul_div_cancel₀]

/-- The tone, and a quarter of a cycle behind it the same tone as imaginary part. -/
noncomputable def rotatingTone (n k : ℕ) (A φ : ℝ) : Vector (Cplx ℝ) n :=
  Vector.ofFn fun i : Fin n => ⟨A * Real.cos (toneAngle n k φ i), A * Real.sin (toneAngle n k φ i)⟩

theorem toComplex_turning (A θ : ℝ) :
    Cplx.toComplex ⟨A * Real.cos θ, A * Real.sin θ⟩ = A * exp (θ * I) := by
  apply Complex.ext
  · simp [Complex.exp_ofReal_mul_I_re]
  · simp [Complex.exp_ofReal_mul_I_im]

section Spectrum
variable {n k : ℕ} [NeZero n] (hk : k < n) (A φ : ℝ)
include hk

theorem onResidues_rotatingTone (j : ZMod n) :
    onResidues (rotatingTone n k A φ) j = A * exp (φ * I) * ZMod.stdAddChar (j * (k : ZMod n)) := by
  have hangle : ((toneAngle n k φ j.val : ℝ) : ℂ) * I =
      φ * I + 2 * π * I * (j.val * k : ℕ) / n := by
    rw [toneAngle, turnAngle]
    push_cast
    ring
  rw [stdAddChar_mul, ZMod.val_cast_of_lt hk, mul_assoc, ← Complex.exp_add, ← hangle]
  simp only [onResidues, rotatingTone, Fin.getElem_fin, Vector.getElem_ofFn, toComplex_turning]

/-- All of it is in one bin. -/
theorem dft_rotatingTone {b : ZMod n} (hb : b.val ≠ k) :
    ZMod.dft (onResidues (rotatingTone n k A φ)) b = 0 := by
  have hne : (k : ZMod n) - b ≠ 0 := by
    intro h
    rw [← sub_eq_zero.1 h, ZMod.val_cast_of_lt hk] at hb
    exact hb rfl
  have hshift (j : ZMod n) : ZMod.stdAddChar (-(j * b)) * ZMod.stdAddChar (j * (k : ZMod n)) =
      ZMod.stdAddChar (j * ((k : ZMod n) - b)) := by
    rw [← AddChar.map_add_eq_mul]
    congr 1
    ring
  calc ZMod.dft (onResidues (rotatingTone n k A φ)) b
    _ = ∑ j : ZMod n, A * exp (φ * I) * ZMod.stdAddChar (j * ((k : ZMod n) - b)) := by
      rw [ZMod.dft_apply]
      apply Finset.sum_congr rfl
      intro j _
      rw [onResidues_rotatingTone hk, smul_eq_mul, ← hshift]
      ring
    _ = A * exp (φ * I) * 0 := by
      rw [← Finset.mul_sum, AddChar.sum_mulShift _ (ZMod.isPrimitive_stdAddChar n), if_neg hne,
        Nat.cast_zero]
    _ = 0 := mul_zero _

end Spectrum

theorem re_rotatingTone {n k : ℕ} [NeZero n] (A φ : ℝ) (j : ZMod n) :
    (onResidues (rotatingTone n k A φ) j).re = padded n (tone n k A φ) j := by
  have hj : j.val < (tone n k A φ).size := by
    rw [tone, Array.size_ofFn]
    exact j.val_lt
  rw [padded, ← Array.getElem_eq_getD (h := hj)]
  simp [onResidues, rotatingTone, tone]

/-- A tone below the middle bin is continued by turning. -/
theorem isAnalyticSignal_tone {n k : ℕ} (hk : 0 < k) (hn : 2 * k < n) (A φ : ℝ) :
    IsAnalyticSignal (tone n k A φ) (rotatingTone n k A φ) := by
  have : NeZero n := ⟨by omega⟩
  have hbin {b : ZMod n} (hb : b.val ≠ k) := dft_rotatingTone (by omega) A φ hb
  refine isAnalyticSignal_iff.2 ⟨(re_eq_iff_bins _ _).1 (re_rotatingTone A φ), ?_, ?_, ?_⟩
  · intro b hb
    exact hbin (by omega)
  · rw [hbin (by rw [ZMod.val_zero]; omega), Complex.zero_im]
  · intro b hb
    rw [hbin (by omega), Complex.zero_im]

theorem analyticVector_tone [Angle] [Transform ℝ] [ExactTransform] {n k : ℕ} (hk : 0 < k)
    (hn : 2 * k < n) (A φ : ℝ) :
    analyticVector n (tone n k A φ) = rotatingTone n k A φ := by
  have : NeZero n := ⟨by omega⟩
  exact ((isAnalyticSignal_iff_eq _ _).1 (isAnalyticSignal_tone hk hn A φ)).symm

end AnalyticTrace
