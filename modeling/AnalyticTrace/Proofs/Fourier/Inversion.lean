import AnalyticTrace.Proofs.Fourier.MixedRadix
import AnalyticTrace.Proofs.Analytic.Pipeline
import AnalyticTrace.Proofs.Fourier.Spectrum

namespace AnalyticTrace

section Runs
variable {α : Type} [Sample α]

theorem planFor_eq {n : Nat} (arg : String) (h : 0 < n) : planFor arg n = .ok ⟨n, h⟩ := by
  rw [planFor, Plan.ofLength_eq h]
  rfl

variable [Transform α] {n : Nat}

theorem fft_eq (v : Vector (Cplx α) n) (h : 0 < n) :
    fft v.toArray = .ok (Transform.forward v).toArray := by
  obtain ⟨x, rfl⟩ := v
  have hw := (Plan.mk x.size h).workspace_holds ⟨x, rfl⟩
  exact bind_eq_ok.2 ⟨_, planFor_eq "x" h, Workspace.finish_eq (Plan.forward_holds hw)⟩

theorem ifft_eq (v : Vector (Cplx α) n) (h : 0 < n) :
    ifft v.toArray =
      .ok ((Transform.backward v).map (·.scale (1 / Sample.ofNat n))).toArray := by
  obtain ⟨x, rfl⟩ := v
  have hw := (Plan.mk x.size h).workspace_holds ⟨x, rfl⟩
  exact bind_eq_ok.2 ⟨_, planFor_eq "spectrum" h, Workspace.finish_eq (Plan.inverse_holds hw)⟩

theorem fftN_eq_fft (x : Array (Cplx α)) (h : 0 < n) :
    fftN x n = fft (Vector.ofFn fun i : Fin n => x.getD i 0).toArray := by
  rw [fftN, if_neg (Nat.ne_of_gt h), resize_eq_ofFn, Vector.toArray_ofFn]

end Runs

section Exact
variable [Angle] [Transform ℝ] [ExactTransform] {n : ℕ}

theorem inverse_forward [NeZero n] (v : Vector (Cplx ℝ) n) :
    (Transform.backward (Transform.forward v)).map (·.scale (1 / Sample.ofNat n)) = v := by
  apply onResidues_injective
  rw [onResidues_inverse, onResidues_forward, LinearEquiv.symm_apply_apply]

theorem forward_inverse [NeZero n] (v : Vector (Cplx ℝ) n) :
    Transform.forward ((Transform.backward v).map (·.scale (1 / Sample.ofNat n))) = v := by
  apply onResidues_injective
  rw [onResidues_forward, onResidues_inverse, LinearEquiv.apply_symm_apply]

theorem ifft_fft (v : Vector (Cplx ℝ) n) (h : 0 < n) :
    ∃ s : Vector (Cplx ℝ) n, fft v.toArray = .ok s.toArray ∧ ifft s.toArray = .ok v.toArray := by
  have : NeZero n := ⟨Nat.ne_of_gt h⟩
  refine ⟨Transform.forward v, fft_eq v h, ?_⟩
  rw [ifft_eq _ h, inverse_forward]

theorem fft_ifft (v : Vector (Cplx ℝ) n) (h : 0 < n) :
    ∃ x : Vector (Cplx ℝ) n, ifft v.toArray = .ok x.toArray ∧ fft x.toArray = .ok v.toArray := by
  have : NeZero n := ⟨Nat.ne_of_gt h⟩
  refine ⟨_, ifft_eq v h, ?_⟩
  rw [fft_eq _ h, forward_inverse]

/-- Either transform takes back what the other one did, at every length; a transform over a set
number of points leaves the sequence cut off or filled up with zeros. -/
theorem transforms_invert (x : Array (Cplx ℝ)) :
    (∀ n, 0 < n → ∃ s, fftN x n = .ok s ∧
      ifft s = .ok (Array.ofFn fun i : Fin n => x.getD i 0)) ∧
    (0 < x.size → (∃ s, fft x = .ok s ∧ ifft s = .ok x) ∧
      ∃ y, ifft x = .ok y ∧ fft y = .ok x) := by
  constructor
  · intro n hn
    obtain ⟨s, hforward, hinverse⟩ := ifft_fft (Vector.ofFn fun i : Fin n => x.getD i 0) hn
    rw [← fftN_eq_fft x hn] at hforward
    rw [Vector.toArray_ofFn] at hinverse
    exact ⟨_, hforward, hinverse⟩
  · intro hx
    obtain ⟨s, hs⟩ := ifft_fft ⟨x, rfl⟩ hx
    obtain ⟨y, hy⟩ := fft_ifft ⟨x, rfl⟩ hx
    exact ⟨⟨s.toArray, hs⟩, y.toArray, hy⟩

end Exact

theorem transforms_invert_pair :
    (∃ s : Array (Cplx ℝ), fftN #[⟨1, 0⟩, ⟨0, 1⟩] 3 = .ok s ∧
      ifft s = .ok #[⟨1, 0⟩, ⟨0, 1⟩, 0]) ∧
    ∃ y : Array (Cplx ℝ), ifft #[⟨1, 0⟩, ⟨0, 1⟩] = .ok y ∧ fft y = .ok #[⟨1, 0⟩, ⟨0, 1⟩] := by
  obtain ⟨hresized, hsame⟩ := transforms_invert #[(⟨1, 0⟩ : Cplx ℝ), ⟨0, 1⟩]
  obtain ⟨s, hforward, hinverse⟩ := hresized 3 (by decide)
  refine ⟨⟨s, hforward, ?_⟩, (hsame (by decide)).2⟩
  rw [hinverse]
  simp [Array.ofFn_succ]

end AnalyticTrace
