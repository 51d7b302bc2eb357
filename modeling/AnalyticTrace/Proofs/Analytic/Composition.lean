import AnalyticTrace.Proofs.Analytic.OneSided
import AnalyticTrace.Proofs.Fourier.Inversion
import AnalyticTrace.Sample.Float

namespace AnalyticTrace

section Padding
variable {β : Type} [Zero β] {n : Nat}

theorem size_resize (n : Nat) (x : Array β) : (resize n x).size = n := by
  rw [resize_eq_ofFn, Array.size_ofFn]

theorem getD_resize (x : Array β) {i : Nat} (hi : i < n) : (resize n x).getD i 0 = x.getD i 0 := by
  rw [resize_eq_ofFn, ← Array.getElem_eq_getD (h := by rwa [Array.size_ofFn]), Array.getElem_ofFn]

end Padding

variable {α : Type} [Sample α]

theorem getD_map_ofReal (x : Array α) (i : Nat) :
    (x.map Cplx.ofReal).getD i 0 = Cplx.ofReal (x.getD i 0) :=
  getD_map_zero rfl x i

theorem zipWith_hilbertMask {n : Nat} (v : Vector (Cplx α) n) :
    Array.zipWith Cplx.scale v.toArray (hilbertMask n) =
      (Vector.ofFn fun k : Fin n => (v.get k).scale (maskWeight n k)).toArray := by
  apply Array.ext
  · simp [hilbertMask]
  · intro k hk hk'
    simp [hilbertMask, Vector.get]

variable [Transform α] {n : Nat}

/-- The bins of a trace over `n` points. -/
def traceBins (n : Nat) (x : Array α) : Vector (Cplx α) n :=
  Transform.forward (Vector.ofFn fun i : Fin n => Cplx.ofReal (x.getD i 0))

theorem fft_ofReal (x : Array α) (h : 0 < x.size) :
    fft (x.map Cplx.ofReal) = .ok (traceBins x.size x).toArray := by
  have hload : x.map Cplx.ofReal =
      (Vector.ofFn fun i : Fin x.size => Cplx.ofReal (x.getD i 0)).toArray := by
    apply Array.ext
    · simp
    · intro i hi hi'
      simp
  rw [hload, fft_eq _ h]
  rfl

theorem fftN_ofReal (x : Array α) (h : 0 < n) :
    fftN (x.map Cplx.ofReal) n = .ok (traceBins n x).toArray := by
  rw [fftN_eq_fft _ h, fft_eq _ h]
  simp only [getD_map_ofReal]
  rfl

theorem ifft_weighed (x : Array α) (h : 0 < n) :
    ifft (Array.zipWith Cplx.scale (traceBins n x).toArray (hilbertMask n)) =
      .ok (analyticVector n x).toArray := by
  rw [zipWith_hilbertMask, ifft_eq _ h]
  rfl

/-- Padding twice is padding once. -/
theorem analyticVector_resize (n : Nat) (x : Array α) :
    analyticVector n (resize n x) = analyticVector n x := by
  have hload (i : Fin n) : (resize n x).getD i 0 = x.getD i 0 := getD_resize x i.isLt
  simp only [analyticVector, hload]

theorem analyticSignal_eq {x : Array α} (h : 0 < x.size) :
    analyticSignal x = .ok (analyticVector x.size x).toArray :=
  HilbertTransformer.runTrace_eq (t := ⟨none, by decide⟩) h

theorem analyticSignal_resize (x : Array α) (h : 0 < n) :
    analyticSignal (resize n x) = .ok (analyticVector n x).toArray := by
  rw [analyticSignal_eq (by rwa [size_resize]), size_resize, analyticVector_resize]

namespace HilbertTransformer

theorem ofComponents_eq_error {n : Option Nat} {e : ConfigError} :
    ofComponents n = .error e ↔
      n = some 0 ∧ e = .invalidArgument "n" "number of Fourier components must be > 0" := by
  rw [ofComponents]
  by_cases h : n = some 0
  · rw [dif_pos h]
    exact ⟨fun he => by cases he; exact ⟨h, rfl⟩, fun he => by rw [he.2]⟩
  · rw [dif_neg h]
    refine iff_of_false (fun he => ?_) fun he => h he.1
    cases he

theorem runTrace_eq_error {t : HilbertTransformer} {x : Array α} {e : RunError} :
    t.runTrace x = .error e ↔ t.components = none ∧ x = #[] ∧ e = .invalidLength "x" := by
  by_cases hpos : 0 < t.outputLength x.size
  · rw [runTrace_eq hpos]
    refine iff_of_false nofun fun ⟨hnone, hx, _⟩ => ?_
    rw [outputLength, hnone, hx] at hpos
    exact Nat.lt_irrefl 0 hpos
  · obtain ⟨hnone, hsize⟩ := Classical.not_imp.1 fun h => hpos (outputLength_pos h)
    have hx : x = #[] := Array.eq_empty_of_size_eq_zero (Nat.eq_zero_of_not_pos hsize)
    have hplan : t.plan x.size = .error (.invalidLength "x") := if_pos (Nat.eq_zero_of_not_pos hpos)
    have hrun : t.runTrace x = .error (.invalidLength "x") := bind_eq_error.2 (.inl hplan)
    rw [hrun, Except.error.injEq, eq_comm]
    exact ⟨fun he => ⟨hnone, hx, he⟩, fun he => he.2.2⟩

end HilbertTransformer

/-- A strided array is its entries, whether these are gathered or read where they lie. -/
theorem hilbert_eq (s : Strided α) {components : Option Nat} {t : HilbertTransformer}
    (ht : HilbertTransformer.ofComponents components = .ok t) :
    hilbert s components = t.runTrace s.toArray := by
  rw [hilbert, ht]
  by_cases hs : s.contiguous = true
  · have hread : (Buffer.array s).read = .ok s.toArray := if_pos hs
    exact (if_pos hs).trans (t.run_of_read hread)
  · exact if_neg hs

/-- The analytic signal of a trace over `n` points, and all the ways that lead to it. -/
structure SignalByAllWays (components : Option Nat) (x : Array α) (n : Nat) (y : Array (Cplx α)) :
    Prop where
  composed : ∃ spectrum, spectrum.size = n ∧ fftN (x.map Cplx.ofReal) n = .ok spectrum ∧
    ifft (Array.zipWith Cplx.scale spectrum (hilbertMask n)) = .ok y
  padded : analyticSignal (resize n x) = .ok y
  transformer : ∃ t, HilbertTransformer.ofComponents components = .ok t ∧
    ∀ input : Buffer α, input.read = .ok x → t.run input = .ok y
  strided : ∀ s : Strided α, s.toArray = x → hilbert s components = .ok y

namespace HilbertTransformer

theorem ofComponents_eq_ok {components : Option Nat} (h : components ≠ some 0) :
    ofComponents components = .ok ⟨components, h⟩ :=
  dif_neg h

theorem signalByAllWays {components : Option Nat} {x : Array α}
    (h : 0 < components.getD x.size) :
    SignalByAllWays components x (components.getD x.size)
      (analyticVector (components.getD x.size) x).toArray := by
  have hne : components ≠ some 0 := by
    rintro rfl
    exact Nat.lt_irrefl 0 h
  have hbuild := ofComponents_eq_ok hne
  have hrun : runTrace ⟨components, hne⟩ x =
      .ok (analyticVector (components.getD x.size) x).toArray := runTrace_eq h
  refine ⟨⟨_, Vector.size_toArray _, fftN_ofReal x h, ifft_weighed x h⟩, analyticSignal_resize x h,
    ⟨_, hbuild, fun input hread => (run_of_read _ hread).trans hrun⟩, fun s hs => ?_⟩
  rw [hilbert_eq s hbuild, hs, hrun]

/-- Work in place comes to the same as the plain transforms put one after the other, and can only
fail where there is no point to work on. -/
theorem run_eq_composition (components : Option Nat) (x : Array α) :
    (∀ e, ofComponents components = .error e ↔ components = some 0 ∧
      e = .invalidArgument "n" "number of Fourier components must be > 0") ∧
    (∀ t e, ofComponents components = .ok t → (t.run (.list x) = .error e ↔
      components = none ∧ x = #[] ∧ e = .invalidLength "x")) ∧
    (0 < components.getD x.size →
      ∃ y, SignalByAllWays components x (components.getD x.size) y) := by
  refine ⟨fun e => ofComponents_eq_error, fun t e ht => ?_, fun h => ⟨_, signalByAllWays h⟩⟩
  have hread : (Buffer.list x).read = .ok x := rfl
  rw [run_of_read t hread, runTrace_eq_error, components_of_ok ht]

theorem run_eq_composition_short :
    run ⟨none, by decide⟩ (.list (#[] : Array Float)) = .error (.invalidLength "x") ∧
      ∃ y, SignalByAllWays (some 3) #[(1 : Float), 2] 3 y := by
  obtain ⟨-, hfails, -⟩ := run_eq_composition none (#[] : Array Float)
  obtain ⟨-, -, hways⟩ := run_eq_composition (some 3) #[(1 : Float), 2]
  exact ⟨(hfails ⟨none, by decide⟩ _ rfl).2 ⟨rfl, rfl, rfl⟩, hways (by decide)⟩

end HilbertTransformer
end AnalyticTrace
