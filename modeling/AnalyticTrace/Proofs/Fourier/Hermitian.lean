import AnalyticTrace.Proofs.Fourier.Inversion
import AnalyticTrace.Proofs.Fourier.Symmetry

namespace AnalyticTrace

open scoped ComplexConjugate

/-- The bin of the opposite frequency. The mean has none but itself, and neither has the middle of
an even number of bins. -/
def mirror {n : ℕ} (k : Fin n) : Fin n := ⟨(n - k) % n, Nat.mod_lt _ k.pos⟩

/-- Opposite frequencies have conjugate bins. -/
def IsHermitian {α : Type} [Sample α] {n : ℕ} (s : Vector (Cplx α) n) : Prop :=
  ∀ k : Fin n, s.get (mirror k) = (s.get k).conj

section Bins
variable {n : ℕ} [NeZero n]

theorem mirror_residue (k : ZMod n) :
    mirror (⟨k.val, k.val_lt⟩ : Fin n) = ⟨(-k).val, (-k).val_lt⟩ :=
  Fin.ext (ZMod.neg_val' k).symm

/-- A signal is real if and only if it is its own conjugate, and conjugation mirrors the bins. -/
theorem im_eq_zero_iff_bins (y : ZMod n → ℂ) :
    (∀ j, (y j).im = 0) ↔ ∀ k, ZMod.dft y (-k) = conj (ZMod.dft y k) := by
  calc (∀ j, (y j).im = 0)
    _ ↔ (fun j => conj (y j)) = y := by simp only [funext_iff, Complex.conj_eq_iff_im]
    _ ↔ ZMod.dft (fun j => conj (y j)) = ZMod.dft y := (EmbeddingLike.apply_eq_iff_eq _).symm
    _ ↔ ∀ k, conj (ZMod.dft y (-k)) = ZMod.dft y k := by simp only [funext_iff, dft_conj]
    _ ↔ ∀ k, ZMod.dft y (-k) = conj (ZMod.dft y k) :=
      forall_congr' fun k => star_eq_iff_star_eq.trans eq_comm

variable [Angle]

theorem isHermitian_iff (s : Vector (Cplx ℝ) n) :
    IsHermitian s ↔ ∀ k, onResidues s (-k) = conj (onResidues s k) := by
  rw [IsHermitian, forall_onResidues]
  refine forall_congr' fun k => ?_
  rw [mirror_residue]
  exact Cplx.toComplex_injective.eq_iff.symm

variable [Transform ℝ] [ExactTransform]

theorem isHermitian_forward_iff (v : Vector (Cplx ℝ) n) :
    IsHermitian (Transform.forward v) ↔ ∀ i, (v.get i).im = 0 := by
  rw [isHermitian_iff, onResidues_forward, ← im_eq_zero_iff_bins, forall_onResidues]
  rfl

end Bins

/-- A spectrum is that of a real signal if and only if it is Hermitian. -/
theorem ifft_real_iff_isHermitian [Angle] [Transform ℝ] [ExactTransform] {n : ℕ} (hn : 0 < n) :
    (∀ s : Vector (Cplx ℝ) n, ∃ y : Vector (Cplx ℝ) n, ifft s.toArray = .ok y.toArray ∧
      ((∀ i, (y.get i).im = 0) ↔ IsHermitian s)) ∧
    ∀ x : Vector ℝ n, ∃ s : Vector (Cplx ℝ) n, rfftFull x.toArray = .ok s.toArray ∧
      IsHermitian s := by
  have : NeZero n := ⟨hn.ne'⟩
  constructor
  · intro s
    refine ⟨_, ifft_eq s hn, ?_⟩
    rw [← isHermitian_forward_iff, forward_inverse]
  · intro x
    have hload : rfftFull x.toArray = fft (x.map Cplx.ofReal).toArray := by
      rw [rfftFull, Vector.toArray_map]
    refine ⟨_, hload.trans (fft_eq _ hn), ?_⟩
    rw [isHermitian_forward_iff]
    intro i
    exact congrArg Cplx.im (Vector.getElem_map ..)

/-- Three bins with a mirrored pair, and the same with the pair out of step. -/
theorem ifft_real_iff_isHermitian_three :
    0 < 3 ∧ (∃ y : Vector (Cplx ℝ) 3, ifft #[(⟨1, 0⟩ : Cplx ℝ), ⟨2, 3⟩, ⟨2, -3⟩] = .ok y.toArray ∧
      ∀ i, (y.get i).im = 0) ∧
    ∃ y : Vector (Cplx ℝ) 3, ifft #[(⟨1, 0⟩ : Cplx ℝ), ⟨2, 3⟩, ⟨2, 3⟩] = .ok y.toArray ∧
      ¬∀ i, (y.get i).im = 0 := by
  have hpos : 0 < 3 := by decide
  obtain ⟨hifft, -⟩ := ifft_real_iff_isHermitian hpos
  obtain ⟨y, hy, hreal⟩ := hifft #v[⟨1, 0⟩, ⟨2, 3⟩, ⟨2, -3⟩]
  obtain ⟨z, hz, hunreal⟩ := hifft #v[⟨1, 0⟩, ⟨2, 3⟩, ⟨2, 3⟩]
  refine ⟨hpos, ⟨y, hy, hreal.2 ?_⟩, z, hz, fun h => ?_⟩
  · intro k
    fin_cases k
    · exact Cplx.ext rfl neg_zero.symm
    · rfl
    · exact Cplx.ext rfl (neg_neg (3 : ℝ)).symm
  · have hmirrored : (3 : ℝ) = -3 := congrArg Cplx.im (hunreal.1 h 1)
    norm_num at hmirrored

end AnalyticTrace
