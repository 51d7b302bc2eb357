import Mathlib.Analysis.Fourier.ZMod
import AnalyticTrace.Fourier.Transform
import AnalyticTrace.Proofs.Exact.Real

namespace AnalyticTrace

open Complex (I exp)
open scoped Real

/-- Both transforms are the sums that define them. -/
class ExactTransform [Transform ℝ] : Prop where
  forward_apply {n : ℕ} (x : Vector (Cplx ℝ) n) (k : Fin n) :
    ((Transform.forward x).get k).toComplex =
      ∑ j : Fin n, (x.get j).toComplex * exp (-(2 * π * I * (j * k : ℕ) / n))
  backward_apply {n : ℕ} (x : Vector (Cplx ℝ) n) (k : Fin n) :
    ((Transform.backward x).get k).toComplex =
      ∑ j : Fin n, (x.get j).toComplex * exp (2 * π * I * (j * k : ℕ) / n)

variable {n : ℕ} [NeZero n]

def onResidues (x : Vector (Cplx ℝ) n) (j : ZMod n) : ℂ :=
  x[(⟨j.val, j.val_lt⟩ : Fin n)].toComplex

theorem onResidues_injective : Function.Injective (onResidues (n := n)) := by
  intro x y h
  apply Vector.ext
  intro i hi
  have he := congrFun h (i : ZMod n)
  simp only [onResidues, Fin.getElem_fin, ZMod.val_cast_of_lt hi] at he
  exact Cplx.toComplex_injective he

theorem sum_onResidues {M : Type} [AddCommMonoid M] (f : Fin n → M) :
    ∑ j : Fin n, f j = ∑ j : ZMod n, f ⟨j.val, j.val_lt⟩ := by
  cases n with
  | zero => exact (NeZero.ne 0 rfl).elim
  | succ n => rfl

theorem forall_onResidues {p : Fin n → Prop} :
    (∀ i, p i) ↔ ∀ j : ZMod n, p ⟨j.val, j.val_lt⟩ := by
  cases n with
  | zero => exact (NeZero.ne 0 rfl).elim
  | succ n => rfl

theorem stdAddChar_mul (j k : ZMod n) :
    ZMod.stdAddChar (j * k) = exp (2 * π * I * (j.val * k.val : ℕ) / n) := by
  have h : j * k = (((j.val * k.val : ℕ) : ℤ) : ZMod n) := by
    rw [Int.cast_natCast, Nat.cast_mul, ZMod.natCast_zmod_val, ZMod.natCast_zmod_val]
  rw [h, ZMod.stdAddChar_coe, Int.cast_natCast]

theorem stdAddChar_neg_mul (j k : ZMod n) :
    ZMod.stdAddChar (-(j * k)) = exp (-(2 * π * I * (j.val * k.val : ℕ) / n)) := by
  rw [AddChar.map_neg_eq_inv, stdAddChar_mul, Complex.exp_neg]

theorem dft_onResidues (x : Vector (Cplx ℝ) n) (k : ZMod n) :
    ZMod.dft (onResidues x) k =
      ∑ j : Fin n, (x.get j).toComplex * exp (-(2 * π * I * (j * k.val : ℕ) / n)) := by
  rw [ZMod.dft_apply, sum_onResidues]
  apply Finset.sum_congr rfl
  intro j _
  rw [stdAddChar_neg_mul, smul_eq_mul, mul_comm]
  rfl

theorem onResidues_scale [Angle] (x : Vector (Cplx ℝ) n) (c : ℝ) :
    onResidues (x.map (·.scale c)) = (c : ℂ) • onResidues x := by
  funext j
  simp [onResidues, mul_comm]

variable [Transform ℝ] [ExactTransform]

theorem onResidues_forward (x : Vector (Cplx ℝ) n) :
    onResidues (Transform.forward x) = ZMod.dft (onResidues x) := by
  funext k
  rw [dft_onResidues]
  exact ExactTransform.forward_apply x ⟨k.val, k.val_lt⟩

theorem onResidues_backward (x : Vector (Cplx ℝ) n) :
    onResidues (Transform.backward x) = (n : ℂ) • ZMod.dft.symm (onResidues x) := by
  funext k
  rw [Pi.smul_apply, ZMod.invDFT_apply, smul_inv_smul₀ (NeZero.ne (n : ℂ))]
  refine (ExactTransform.backward_apply x ⟨k.val, k.val_lt⟩).trans ?_
  rw [sum_onResidues]
  apply Finset.sum_congr rfl
  intro j _
  rw [stdAddChar_mul, smul_eq_mul, mul_comm]
  rfl

theorem onResidues_inverse [Angle] (x : Vector (Cplx ℝ) n) :
    onResidues ((Transform.backward x).map (·.scale (1 / Sample.ofNat n))) =
      ZMod.dft.symm (onResidues x) := by
  have hcount : ((1 / Sample.ofNat n : ℝ) : ℂ) = (n : ℂ)⁻¹ := by
    simp [Sample.ofNat]
  rw [onResidues_scale, onResidues_backward, hcount, inv_smul_smul₀ (NeZero.ne (n : ℂ))]

end AnalyticTrace
