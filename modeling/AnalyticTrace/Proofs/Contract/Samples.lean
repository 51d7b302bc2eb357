import AnalyticTrace.Contract.Trial
import AnalyticTrace.Proofs.Analytic.Composition
import AnalyticTrace.Proofs.Grid.Contents

namespace AnalyticTrace

variable {α : Type}

theorem Cplx.size_splitParts {zs : Array (Cplx α)} {n : Nat} (h : zs.size = n) :
    (splitParts zs).size = 2 * n := by
  rw [splitParts, Array.size_append, Array.size_map, Array.size_map, Nat.two_mul, h]

variable [Sample α]

namespace Baseline

theorem size_syntheticTrace (n : Nat) : (syntheticTrace n : Array α).size = n :=
  Array.size_ofFn

theorem size_dft (x : Array (Cplx α)) (inverse : Bool) : (dft x inverse).size = x.size :=
  Array.size_ofFn

theorem size_analytic (x : Array α) : (analytic x).size = x.size := by
  rw [analytic, size_dft, Array.size_zipWith, size_dft, Array.size_map, hilbertMask,
    Array.size_ofFn, Nat.min_self]

theorem size_foldl_unwrapStep (p : Array α) (is : List Nat) (state : Array α × α) :
    (is.foldl (unwrapStep p) state).1.size = state.1.size := by
  induction is generalizing state with
  | nil => rfl
  | cons i is ih =>
    rw [List.foldl_cons, ih]
    exact Array.size_modify ..

theorem size_unwrap (p : Array α) : (unwrap p).size = p.size :=
  size_foldl_unwrapStep p _ (p, 0)

theorem size_gradient (x : Array α) (dt : α) : (gradient x dt).size = x.size :=
  Array.size_ofFn

end Baseline

namespace Trial

/-- The samples of a trial's output. Complex ones count twice. -/
def samples : Trial → Nat
  | forward | analyticEven => 1024
  | inverse | analyticOdd => 1022
  | phase | envelope | quadrature => 511
  | unwrapping => 400
  | derivative | frequency => 512
  | gridEnvelope => 14400

theorem size_even : (even : Array α).size = 512 :=
  Baseline.size_syntheticTrace 512

theorem size_odd : (odd : Array α).size = 511 :=
  Baseline.size_syntheticTrace 511

theorem size_oddSpectrum : (oddSpectrum : Array (Cplx α)).size = 511 := by
  rw [oddSpectrum, Baseline.size_dft, Array.size_map, size_odd]

theorem size_wrappedPhase : (wrappedPhase : Array α).size = 400 :=
  Array.size_ofFn

theorem wavelets_reads : ∃ traces : List (Array α),
    wavelets.Reads traces ∧ traces.length = 48 ∧ wavelets.samples traces = 300 :=
  ⟨_, TraceGrid.reads_array (Nat.succ_pos 299) (.inr rfl), List.length_ofFn,
    TraceGrid.samples_array _⟩

variable [Transform α]

theorem analyze_eq {x : Array α} (h : 0 < x.size) :
    analyze x = .ok (analyticVector x.size x).toArray := by
  have hrun := HilbertTransformer.runTrace_eq (t := ⟨none, nofun⟩) (x := x) h
  exact bind_eq_ok.2 ⟨_, rfl, bind_eq_ok.2 ⟨_, rfl, hrun⟩⟩

theorem polar_eq {x : Array α} (h : 0 < x.size) :
    polar x = .ok (.ofAnalytic (analyticVector x.size x).toArray) :=
  instantaneousAttributes_eq h

theorem frequencies_eq (hdt : checkSpacing (sampleInterval : α) "sample_interval" = .ok ())
    {x : Array α} (h : 0 < x.size) :
    frequencies x = .ok (AttributeExtractor.attributeOf sampleInterval x
      (analyticVector x.size x).toArray .frequency) := by
  have hconfig : AttributeExtractor.ofConfig ⟨[.frequency], (sampleInterval : α), false⟩ =
      .ok ⟨[.frequency], sampleInterval, false⟩ :=
    AttributeExtractor.ofConfig_eq_ok.2 ⟨rfl, nofun, List.nodup_singleton _, hdt⟩
  rw [frequencies, hconfig]
  exact bind_eq_ok.2 ⟨_, rfl, bind_eq_ok.2 ⟨_, AttributeExtractor.runTrace_eq _ h, rfl⟩⟩

theorem run_wavelets (k : GridPolarExtractor) : ∃ polar : Polar (Grid α),
    k.run wavelets = .ok polar ∧ polar.envelope.data.size = 14400 := by
  obtain ⟨traces, hreads, hrows, hcols⟩ := wavelets_reads (α := α)
  obtain ⟨polar, hpolar⟩ := GridPolarExtractor.perTrace hreads
  obtain ⟨hrowCount, hcolCount⟩ := hpolar.shape polar.envelope (by simp)
  refine ⟨polar, hpolar.run k, ?_⟩
  rw [polar.envelope.size_data, hrowCount, hcolCount, hrows, hcols]

/-- The library computes every trial. -/
theorem exists_candidate (hdt : checkSpacing (sampleInterval : α) "sample_interval" = .ok ())
    (t : Trial) : ∃ out : Array α, t.candidate = .ok out ∧ out.size = t.samples := by
  have heven : 0 < (even : Array α).size := Nat.lt_of_lt_of_eq (by decide) size_even.symm
  have hodd : 0 < (odd : Array α).size := Nat.lt_of_lt_of_eq (by decide) size_odd.symm
  have hpolar := polar_eq hodd
  have hpart (f : Cplx α → α) :
      ((analyticVector (odd : Array α).size odd).toArray.map f).size = 511 := by
    rw [Array.size_map, Vector.size_toArray, size_odd]
  cases t with
  | forward =>
    rw [candidate, rfftFull, fft_ofReal _ heven]
    exact ⟨_, rfl, Cplx.size_splitParts (n := 512) ((Vector.size_toArray _).trans size_even)⟩
  | inverse =>
    have hpos : 0 < (oddSpectrum : Array (Cplx α)).size :=
      Nat.lt_of_lt_of_eq (by decide) size_oddSpectrum.symm
    have hinverse := ifft_eq oddSpectrum.toVector hpos
    rw [candidate, hinverse]
    exact ⟨_, rfl,
      Cplx.size_splitParts (n := 511) ((Vector.size_toArray _).trans size_oddSpectrum)⟩
  | analyticEven =>
    rw [candidate, analyze_eq heven]
    exact ⟨_, rfl, Cplx.size_splitParts (n := 512) ((Vector.size_toArray _).trans size_even)⟩
  | analyticOdd =>
    rw [candidate, analyze_eq hodd]
    exact ⟨_, rfl, Cplx.size_splitParts (n := 511) ((Vector.size_toArray _).trans size_odd)⟩
  | phase =>
    rw [candidate, hpolar]
    exact ⟨_, rfl, hpart phaseOf⟩
  | envelope =>
    rw [candidate, hpolar]
    exact ⟨_, rfl, hpart Cplx.norm⟩
  | quadrature =>
    rw [candidate, hpolar]
    exact ⟨_, rfl, hpart Cplx.im⟩
  | unwrapping => exact ⟨_, rfl, (Unwrapper.size_runTrace _ _).trans size_wrappedPhase⟩
  | derivative =>
    exact ⟨_, timeDerivative_eq hdt even, (AnalyticTrace.size_gradient _ _).trans size_even⟩
  | frequency =>
    exact ⟨_, frequencies_eq hdt heven,
      (AttributeExtractor.size_attributeOf _ (Vector.size_toArray _) _).trans size_even⟩
  | gridEnvelope =>
    obtain ⟨polar, hrun, hsize⟩ := run_wavelets (α := α) ⟨true⟩
    rw [candidate, hrun]
    exact ⟨_, rfl, hsize⟩

theorem exists_baseline (t : Trial) :
    ∃ out : Array α, t.baseline = .ok out ∧ out.size = t.samples := by
  have hanalytic (f : Cplx α → α) : ((Baseline.analytic (odd : Array α)).map f).size = 511 := by
    rw [Array.size_map, Baseline.size_analytic, size_odd]
  cases t with
  | forward =>
    have hload : (even.map (Cplx.ofReal (α := α))).size = 512 := (Array.size_map ..).trans size_even
    exact ⟨_, rfl, Cplx.size_splitParts (n := 512) ((Baseline.size_dft _ _).trans hload)⟩
  | inverse =>
    exact ⟨_, rfl,
      Cplx.size_splitParts (n := 511) ((Baseline.size_dft _ _).trans size_oddSpectrum)⟩
  | analyticEven =>
    exact ⟨_, rfl, Cplx.size_splitParts (n := 512) ((Baseline.size_analytic _).trans size_even)⟩
  | analyticOdd =>
    exact ⟨_, rfl, Cplx.size_splitParts (n := 511) ((Baseline.size_analytic _).trans size_odd)⟩
  | phase => exact ⟨_, rfl, hanalytic Cplx.arg⟩
  | envelope => exact ⟨_, rfl, hanalytic Cplx.norm⟩
  | quadrature => exact ⟨_, rfl, hanalytic Cplx.im⟩
  | unwrapping => exact ⟨_, rfl, (Baseline.size_unwrap _).trans size_wrappedPhase⟩
  | derivative => exact ⟨_, rfl, (Baseline.size_gradient _ _).trans size_even⟩
  | frequency =>
    refine ⟨_, rfl, ?_⟩
    rw [Array.size_map, Baseline.size_gradient, Baseline.size_unwrap, Array.size_map,
      Baseline.size_analytic, size_even]
    rfl
  | gridEnvelope =>
    obtain ⟨polar, hrun, hsize⟩ := run_wavelets (α := α) ⟨false⟩
    rw [baseline, hrun]
    exact ⟨_, rfl, hsize⟩

/-- The case that a trial gives: named after it, of its length on both sides. -/
structure Gives (t : Trial) (durations : α × α) (c : Case α) : Prop where
  case : t.case durations = .ok c
  id : c.id = t.id
  candidate : t.candidate = .ok c.candidate
  size_candidate : c.candidate.size = t.samples
  size_baseline : c.baseline.size = t.samples

theorem exists_gives (hdt : checkSpacing (sampleInterval : α) "sample_interval" = .ok ())
    (t : Trial) (durations : α × α) : ∃ c, t.Gives durations c := by
  obtain ⟨candidate, hcandidate, hsize⟩ := exists_candidate hdt t
  obtain ⟨baseline, hbaseline, hsize'⟩ := exists_baseline (α := α) t
  refine ⟨⟨t.id, candidate, durations.1, baseline, durations.2⟩, ?_, rfl, hcandidate, hsize, hsize'⟩
  rw [case, hcandidate, hbaseline]
  rfl

end Trial
end AnalyticTrace
