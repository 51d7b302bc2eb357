import AnalyticTrace.Attribute.Polar
import AnalyticTrace.Proofs.Analytic.Pipeline
import AnalyticTrace.Proofs.Gradient.Slopes
import AnalyticTrace.Proofs.Storage.Filling
import AnalyticTrace.Proofs.Unwrap.Slots

namespace AnalyticTrace

variable {α : Type}

namespace Polar

def Takes (out : Polar (Buffer α)) (y : Polar (Array α)) : Prop :=
  out.phase.Takes y.phase ∧ out.envelope.Takes y.envelope ∧ out.hilbert.Takes y.hilbert

def contents (out : Polar (Buffer α)) : Polar (Array α) :=
  ⟨out.phase.toArray, out.envelope.toArray, out.hilbert.toArray⟩

def store (out : Polar (Buffer α)) (y : Polar (Array α)) : Polar (Buffer α) :=
  ⟨out.phase.store y.phase, out.envelope.store y.envelope, out.hilbert.store y.hilbert⟩

theorem contents_store {out : Polar (Buffer α)} {y : Polar (Array α)} (h : out.Takes y) :
    (out.store y).contents = y := by
  obtain ⟨hphase, henvelope, hhilbert⟩ := h
  simp only [contents, store, Buffer.toArray_store hphase, Buffer.toArray_store henvelope,
    Buffer.toArray_store hhilbert]

theorem writeOver_eq (f : Cplx α → α) {y : Array (Cplx α)} {out : Array α}
    (h : out.size = y.size) : writeOver f y out = y.map f := by
  apply Array.ext
  · rw [writeOver, Array.size_mapIdx, Array.size_map, h]
  · intro i hi hi'
    have hy : i < y.size := by rwa [Array.size_map] at hi'
    simp [writeOver, hy]

end Polar

theorem checkLengths_eq_ok {expected : Nat} {lengths : List (String × Nat)} :
    checkLengths expected lengths = .ok () ↔ ∀ entry ∈ lengths, entry.2 = expected := by
  induction lengths with
  | nil => exact iff_of_true rfl nofun
  | cons entry rest ih =>
    rw [checkLengths, List.forall_mem_cons]
    by_cases h : entry.2 = expected
    · simp [h, ih]
    · simp [h]

variable [Sample α]

theorem Unwrapper.runInto_fills (u : Unwrapper α) (input : Buffer α) :
    Fills Buffer.Takes Buffer.toArray input.Binds (u.run input) (u.runInto input) :=
  fills_samplewise u.size_runTrace u.write_eq input

theorem Differentiator.runInto_fills (d : Differentiator α) (input : Buffer α) :
    Fills Buffer.Takes Buffer.toArray input.Binds (d.run input) (d.runInto input) :=
  fills_samplewise (size_gradient d.spacing) (writeGradient_eq d.spacing) input

variable [Transform α]

namespace HilbertTransformer

theorem run_eq_ok {t : HilbertTransformer} {input : Buffer α} {y : Array (Cplx α)} :
    t.run input = .ok y ↔ ∃ x, input.read = .ok x ∧ t.runTrace x = .ok y := by
  simp only [run, bind_eq_ok, mapError_eq_ok]

theorem runTrace_eq_ok {t : HilbertTransformer} {x : Array α} {y : Array (Cplx α)} :
    t.runTrace x = .ok y ↔
      ∃ plan, t.plan x.size = .ok plan ∧ (analyticVector plan.length x).toArray = y := by
  simp only [runTrace, bind_eq_ok, Plan.finish_analytic, Except.ok.injEq]

theorem length_of_plan {t : HilbertTransformer} {samples : Nat} {plan : Plan}
    (h : t.plan samples = .ok plan) : plan.length = t.outputLength samples := by
  by_cases hpos : 0 < t.outputLength samples
  · rw [plan_eq hpos] at h
    cases h
    rfl
  · rw [HilbertTransformer.plan, if_pos (Nat.eq_zero_of_not_pos hpos)] at h
    cases h

theorem size_of_runTrace {t : HilbertTransformer} {x : Array α} {y : Array (Cplx α)}
    (h : t.runTrace x = .ok y) : y.size = t.outputLength x.size := by
  obtain ⟨plan, hplan, rfl⟩ := runTrace_eq_ok.1 h
  rw [Vector.size_toArray, length_of_plan hplan]

/-- No step of the transform fails, so storage of the right length is written over. -/
theorem writeAnalytic_eq (plan : Plan) (x : Array α) :
    (do
      expectLength "out" plan.length
      plan.writeAnalytic x) =
      overwrite "out" plan.length fun _ => analyticVector plan.length x := by
  funext items
  by_cases hsize : items.size = plan.length
  · have hlength : expectLength "out" plan.length items = .ok () items := if_pos hsize
    obtain ⟨w, hw, hv⟩ := Plan.analytic_holds (plan.workspace_holds ⟨items, hsize⟩) x
    rw [bind_of_ok hlength, Plan.writeAnalytic, hw, overwrite, dif_pos hsize, ← hv.data]
  · have hlength : expectLength "out" plan.length items =
        .error (.lengthMismatch "out" plan.length items.size) items := if_neg hsize
    rw [bind_of_error hlength, overwrite, dif_neg hsize]

theorem runInto_fills (t : HilbertTransformer) (input : Buffer α) :
    Fills Buffer.Takes Buffer.toArray input.Binds (t.run input) (t.runInto input) := by
  simp only [runInto, writeAnalytic_eq]
  apply Fills.of_store Buffer.store
  · intro y hy
    obtain ⟨x, hread, -⟩ := run_eq_ok.1 hy
    exact ⟨x, hread⟩
  · exact fun _ _ => Buffer.toArray_store
  · intro out out'
    simp only [liftRun_bind_eq_ok, mapError_eq_ok, run_eq_ok, runTrace_eq_ok,
      Buffer.edit_overwrite_eq_ok (Vector.size_toArray _) fun _ => rfl]
    constructor
    · rintro ⟨x, hread, plan, hplan, htakes, hout⟩
      exact ⟨_, ⟨x, hread, plan, hplan, rfl⟩, htakes, hout⟩
    · rintro ⟨_, ⟨x, hread, plan, hplan, rfl⟩, htakes, hout⟩
      exact ⟨x, hread, plan, hplan, htakes, hout⟩
  · intro out e out'
    exact liftRun_bind_unchanged fun x => liftRun_bind_unchanged fun plan =>
      Buffer.edit_overwrite_unchanged

end HilbertTransformer

namespace PolarExtractor

theorem run_eq_ok {k : PolarExtractor} {input : Buffer α} {y : Polar (Array α)} :
    k.run input = .ok y ↔ ∃ x, input.read = .ok x ∧
      ∃ z, k.transformer.runTrace x = .ok z ∧ Polar.ofAnalytic z = y := by
  simp only [run, runTrace, bind_eq_ok, mapError_eq_ok, pure_eq_ok]

theorem runInto_eq_ok {k : PolarExtractor} {input : Buffer α} {out out' : Polar (Buffer α)} :
    k.runInto input out = .ok () out' ↔
      ∃ y, k.run input = .ok y ∧ out.Takes y ∧ out' = out.store y := by
  simp only [runInto, liftRun_bind_eq_ok, mapError_eq_ok, run_eq_ok, get_bind_run, set_eq_ok]
  constructor
  · rintro ⟨x, hread, phase, hphase, envelope, henvelope, hilbert, hhilbert, ⟨⟩, hlengths, z, hz,
      rfl⟩
    have hsize := HilbertTransformer.size_of_runTrace hz
    simp only [checkLengths_eq_ok, ← hsize, List.forall_mem_cons] at hlengths
    obtain ⟨hp, he, hh, -⟩ := hlengths
    refine ⟨_, ⟨x, hread, z, hz, rfl⟩, ⟨⟨phase, hphase, ?_⟩, ⟨envelope, henvelope, ?_⟩,
      hilbert, hhilbert, ?_⟩, ?_⟩
    · exact hp.trans (Array.size_map ..).symm
    · exact he.trans (Array.size_map ..).symm
    · exact hh.trans (Array.size_map ..).symm
    · rw [Polar.writeOver_eq _ hp, Polar.writeOver_eq _ he, Polar.writeOver_eq _ hh]
      rfl
  · rintro ⟨_, ⟨x, hread, z, hz, rfl⟩, ⟨⟨phase, hphase, hp⟩, ⟨envelope, henvelope, he⟩,
      hilbert, hhilbert, hh⟩, rfl⟩
    have hsize := HilbertTransformer.size_of_runTrace hz
    rw [Polar.ofAnalytic, Array.size_map] at hp he hh
    refine ⟨x, hread, phase, hphase, envelope, henvelope, hilbert, hhilbert, (), ?_, z, hz, ?_⟩
    · simp [checkLengths_eq_ok, hp, he, hh, hsize]
    · rw [Polar.writeOver_eq _ hp, Polar.writeOver_eq _ he, Polar.writeOver_eq _ hh]
      rfl

theorem runInto_fills (k : PolarExtractor) (input : Buffer α) :
    Fills Polar.Takes Polar.contents input.Binds (k.run input) (k.runInto input) := by
  apply Fills.of_store Polar.store
  · intro y hy
    obtain ⟨x, hread, -⟩ := run_eq_ok.1 hy
    exact ⟨x, hread⟩
  · exact fun _ _ => Polar.contents_store
  · exact fun _ _ => runInto_eq_ok
  · intro out e out'
    -- Every step before the last only reads, and the last one cannot fail.
    refine liftRun_bind_unchanged fun x h => ?_
    rw [get_bind_run] at h
    refine liftRun_bind_unchanged (fun phase => ?_) h
    refine liftRun_bind_unchanged fun envelope => ?_
    refine liftRun_bind_unchanged fun hilbert => ?_
    refine liftRun_bind_unchanged fun _ => ?_
    exact liftRun_bind_unchanged fun z => nofun

end PolarExtractor

/-- Each run into storage fills it with the result of the run that returns one, or leaves all of it
alone. -/
theorem runInto_fills_storage (input : Buffer α) :
    (∀ t : HilbertTransformer,
      Fills Buffer.Takes Buffer.toArray input.Binds (t.run input) (t.runInto input)) ∧
    (∀ k : PolarExtractor,
      Fills Polar.Takes Polar.contents input.Binds (k.run input) (k.runInto input)) ∧
    (∀ u : Unwrapper α,
      Fills Buffer.Takes Buffer.toArray input.Binds (u.run input) (u.runInto input)) ∧
    (∀ d : Differentiator α,
      Fills Buffer.Takes Buffer.toArray input.Binds (d.run input) (d.runInto input)) :=
  ⟨fun t => t.runInto_fills input, fun k => k.runInto_fills input,
    fun u => u.runInto_fills input, fun d => d.runInto_fills input⟩

end AnalyticTrace
