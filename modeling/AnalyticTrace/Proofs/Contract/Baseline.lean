import Mathlib.Analysis.Fourier.ZMod
import AnalyticTrace.Contract.Baseline
import AnalyticTrace.Proofs.Analytic.Composition

namespace AnalyticTrace

open Complex (I exp)
open scoped Real

theorem sum_map_zipIdx {β M : Type} [AddCommMonoid M] (xs : List β) (f : β → ℕ → M) :
    (xs.zipIdx.map fun p => f p.1 p.2).sum = ∑ j : Fin xs.length, f xs[j] j := by
  rw [← List.sum_ofFn]
  congr 1
  apply List.ext_getElem
  · simp
  · intro i hi hi'
    simp

section Sums
variable [Angle]

theorem toComplex_foldl_add {β : Type} (f : β → Cplx ℝ) (xs : List β) (start : Cplx ℝ) :
    (xs.foldl (fun acc x => acc + f x) start).toComplex =
      start.toComplex + (xs.map fun x => (f x).toComplex).sum := by
  induction xs generalizing start with
  | nil => simp
  | cons x xs ih =>
    rw [List.foldl_cons, ih, Cplx.toComplex_add, List.map_cons, List.sum_cons, add_assoc]

namespace Baseline

theorem angle_mul_I (sign : ℝ) (n k j : ℕ) :
    ((angle sign n k j : ℝ) : ℂ) * I = sign * (2 * π * I) * (k * j % n : ℕ) / n := by
  have hangle : angle sign n k j = sign * 2 * π * (k * j % n : ℕ) / n := by
    rw [angle, two_eq]
    rfl
  rw [hangle]
  push_cast
  ring

/-- Leaving out whole turns does not show. -/
theorem toComplex_bin {sign : ℝ} (hsign : exp (sign * (2 * π * I)) = 1) (x : Array (Cplx ℝ))
    (k : ℕ) : (bin sign x k).toComplex =
      ∑ j : Fin x.size, x[j].toComplex * exp (sign * (2 * π * I) * (j * k : ℕ) / x.size) := by
  obtain ⟨xs⟩ := x
  have hfold := toComplex_foldl_add (fun p : Cplx ℝ × ℕ => p.1 *
    ⟨Sample.cos (angle sign xs.length k p.2), Sample.sin (angle sign xs.length k p.2)⟩) xs.zipIdx 0
  rw [Cplx.toComplex_zero, zero_add, sum_map_zipIdx xs fun z j => (z *
    ⟨Sample.cos (angle sign xs.length k j), Sample.sin (angle sign xs.length k j)⟩).toComplex]
    at hfold
  refine hfold.trans (Finset.sum_congr rfl fun j _ => ?_)
  have hturn := toComplex_direction (angle sign xs.length k j)
  rw [angle_mul_I, exp_turn_mod hsign j.pos, Nat.mul_comm] at hturn
  rw [Cplx.toComplex_mul]
  exact congrArg _ hturn

theorem scale_one (z : Cplx ℝ) : z.scale 1 = z := by
  rw [Cplx.scale, mul_one, mul_one]

variable [Transform ℝ] [ExactTransform]

theorem bin_backward (x : Array (Cplx ℝ)) (k : Fin x.size) :
    bin 1 x k = (Transform.backward x.toVector).get k := by
  have hsign : exp ((1 : ℝ) * (2 * π * I)) = 1 := by
    rw [Complex.ofReal_one, one_mul, Complex.exp_two_pi_mul_I]
  apply Cplx.toComplex_injective
  rw [toComplex_bin hsign, ExactTransform.backward_apply, Complex.ofReal_one, one_mul]
  rfl

theorem bin_forward (x : Array (Cplx ℝ)) (k : Fin x.size) :
    bin (-1) x k = (Transform.forward x.toVector).get k := by
  have hsign : exp ((-1 : ℝ) * (2 * π * I)) = 1 := by
    rw [Complex.ofReal_neg, Complex.ofReal_one, neg_one_mul, Complex.exp_neg,
      Complex.exp_two_pi_mul_I, inv_one]
  apply Cplx.toComplex_injective
  rw [toComplex_bin hsign, ExactTransform.forward_apply, Complex.ofReal_neg, Complex.ofReal_one,
    neg_one_mul]
  simp only [neg_mul, neg_div]
  rfl

theorem dft_eq_forward (x : Array (Cplx ℝ)) :
    dft x false = (Transform.forward x.toVector).toArray := by
  apply Array.ext
  · simp [dft]
  · intro k hk hk'
    have hbin := bin_forward x ⟨k, by simpa [dft] using hk⟩
    simp [dft, scale_one, hbin, Vector.get]

theorem dft_eq_inverse (x : Array (Cplx ℝ)) :
    dft x true =
      ((Transform.backward x.toVector).map (·.scale (1 / Sample.ofNat x.size))).toArray := by
  apply Array.ext
  · simp [dft]
  · intro k hk hk'
    have hbin := bin_backward x ⟨k, by simpa [dft] using hk⟩
    simp [dft, hbin, Vector.get]

theorem fft_eq_dft {x : Array (Cplx ℝ)} (h : 0 < x.size) : fft x = .ok (dft x false) := by
  rw [dft_eq_forward]
  exact fft_eq x.toVector h

theorem ifft_eq_dft {x : Array (Cplx ℝ)} (h : 0 < x.size) : ifft x = .ok (dft x true) := by
  rw [dft_eq_inverse]
  exact ifft_eq x.toVector h

theorem analyticSignal_eq_analytic {x : Array ℝ} (h : 0 < x.size) :
    analyticSignal x = .ok (analytic x) := by
  have hsize : (x.map Cplx.ofReal).size = x.size := Array.size_map ..
  have hbins := fft_ofReal x h
  have hsignal := ifft_weighed x h
  rw [fft_eq_dft (h.trans_eq hsize.symm), Except.ok.injEq] at hbins
  have hweighed : (Array.zipWith Cplx.scale (traceBins x.size x).toArray
      (hilbertMask x.size)).size = x.size := by
    simp [hilbertMask]
  rw [ifft_eq_dft (h.trans_eq hweighed.symm), Except.ok.injEq, ← hbins] at hsignal
  rw [analyticSignal_eq h, ← hsignal, analytic]

/-- Sums by the definition, with every number of steps reduced, are what the transforms compute, and
so is the analytic signal that is made of them. -/
theorem transforms_eq_dft :
    (∀ x : Array (Cplx ℝ), 0 < x.size →
      fft x = .ok (dft x false) ∧ ifft x = .ok (dft x true)) ∧
      ∀ x : Array ℝ, 0 < x.size → analyticSignal x = .ok (analytic x) :=
  ⟨fun _ h => ⟨fft_eq_dft h, ifft_eq_dft h⟩, fun _ h => analyticSignal_eq_analytic h⟩

end Baseline
end Sums

theorem Baseline.transforms_eq_dft_three :
    fft #[(⟨1, 0⟩ : Cplx ℝ), ⟨0, 1⟩] = .ok (dft #[⟨1, 0⟩, ⟨0, 1⟩] false) ∧
      ifft #[(⟨1, 0⟩ : Cplx ℝ), ⟨0, 1⟩] = .ok (dft #[⟨1, 0⟩, ⟨0, 1⟩] true) ∧
        analyticSignal #[(1 : ℝ), -2, 3] = .ok (analytic #[1, -2, 3]) := by
  obtain ⟨hcomplex, hreal⟩ := transforms_eq_dft
  obtain ⟨hforward, hinverse⟩ := hcomplex #[⟨1, 0⟩, ⟨0, 1⟩] (by decide)
  exact ⟨hforward, hinverse, hreal #[1, -2, 3] (by decide)⟩

end AnalyticTrace
