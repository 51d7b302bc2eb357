import AnalyticTrace.Grid.Attributes
import AnalyticTrace.Proofs.Attribute.Selection
import AnalyticTrace.Proofs.Grid.Rows
import AnalyticTrace.Proofs.Grid.Schedule
import AnalyticTrace.Sample.Float

namespace AnalyticTrace

variable {α : Type} [Sample α] [Transform α] {grid : TraceGrid α} {traces : List (Array α)}

theorem driveRows_eq (hread : grid.Reads traces) {n : Nat} {task : Plan → RowTask α}
    {f : Nat → Array α → List (Array α)} (htask : ∀ plan, (task plan).Computes plan (f plan.length))
    (houtputs : ∀ trace ∈ traces, (f (grid.samples traces) trace).length = n ∧
      ∀ out ∈ f (grid.samples traces) trace, out.size = grid.samples traces) :
    ∃ grids, (∀ schedule : Nat → Schedule, (schedule traces.length).Covers traces.length →
        driveRows schedule n task grid = .ok grids) ∧
      Stacks grids n (grid.samples traces) (traces.map (f (grid.samples traces))) := by
  have hall := TraceGrid.readAll_eq_ok.2 hread
  cases traces with
  | nil =>
    refine ⟨List.replicate n (Grid.empty (grid.samples [])), fun schedule _ => ?_, ?_, ?_, nofun⟩
    · rw [driveRows, hall]
      rfl
    · exact List.length_replicate
    · intro g hg
      rw [List.eq_of_mem_replicate hg]
      exact ⟨rfl, rfl⟩
  | cons first rest =>
    have hpos := hread.pos (List.cons_ne_nil _ _)
    have hrows : ∀ outputs ∈ (first :: rest).map (f first.size),
        outputs.length = n ∧ ∀ out ∈ outputs, out.size = first.size := by
      intro outputs ho
      obtain ⟨trace, ht, rfl⟩ := List.mem_map.1 ho
      exact houtputs trace ht
    obtain ⟨grids, hgrids, hstacks⟩ := stackOutputs_eq hrows
    refine ⟨grids, fun schedule hcover => ?_, hstacks⟩
    have hplan : Plan.ofLength first.size = .ok ⟨first.size, hpos⟩ := Plan.ofLength_eq hpos
    have hruns := runSchedule_eq (first :: rest).toArray (htask ⟨first.size, hpos⟩)
      (schedule (first :: rest).length) (Plan.fresh_fits _)
    have horder := inRowOrder_eq (first :: rest).toArray (f first.size) hcover
    rw [driveRows, hall]
    refine bind_eq_ok.2 ⟨_, rfl, bind_eq_ok.2 ⟨_, ?_, bind_eq_ok.2 ⟨_, hruns,
      bind_eq_ok.2 ⟨_, horder, hgrids⟩⟩⟩⟩
    rw [hplan]
    rfl

theorem analyticIn_ok {plan : Plan} {w : Workspace α} (hw : w.Fits plan) (trace : Array α) :
    ∃ w', analyticIn plan trace w = .ok (analyticVector plan.length trace).toArray w' ∧
      w'.Fits plan := by
  obtain ⟨w', h, hv⟩ := Plan.analytic_holds hw.holds trace
  refine ⟨w', ?_, hv.fits⟩
  rw [analyticIn, bind_of_ok h, ← hv.data]
  rfl

namespace GridPolarExtractor

def outputs (n : Nat) (trace : Array α) : List (Array α) :=
  let polar := Polar.ofAnalytic (analyticVector n trace).toArray
  [polar.phase, polar.envelope, polar.hilbert]

theorem task_computes (plan : Plan) : (task (α := α) plan).Computes plan (outputs plan.length) := by
  intro trace w hw
  obtain ⟨w', h, hfits⟩ := analyticIn_ok hw trace
  refine ⟨w', ?_, hfits⟩
  rw [task, bind_of_ok h]
  rfl

theorem size_outputs (n : Nat) (trace : Array α) :
    ∀ out ∈ outputs n trace, out.size = n := by
  intro out hout
  simp only [outputs, Polar.ofAnalytic, List.mem_cons, List.not_mem_nil, or_false] at hout
  obtain rfl | rfl | rfl := hout
  all_goals rw [Array.size_map, Vector.size_toArray]

theorem ofAnalytic_of_outputs {n : Nat} {trace phase envelope hilbert : Array α}
    (h : [phase, envelope, hilbert] = outputs n trace) :
    Polar.ofAnalytic (analyticVector n trace).toArray = ⟨phase, envelope, hilbert⟩ := by
  cases h
  rfl

/-- Polar grids of traces: one result for all schedules, rectangular, and every row is what its
trace gives alone, or in a workspace that other traces have used. -/
structure PerTrace (grid : TraceGrid α) (traces : List (Array α)) (polar : Polar (Grid α)) :
    Prop where
  scheduled : ∀ schedule : Nat → Schedule, (schedule traces.length).Covers traces.length →
    runScheduled schedule grid = .ok polar
  run : ∀ k : GridPolarExtractor, k.run grid = .ok polar
  shape : ∀ g ∈ [polar.phase, polar.envelope, polar.hilbert],
    g.rows = traces.length ∧ g.cols = grid.samples traces
  row : ∀ i (hi : i < traces.length), instantaneousAttributes traces[i] =
    .ok ⟨polar.phase.row i, polar.envelope.row i, polar.hilbert.row i⟩
  reused : ∀ i (hi : i < traces.length) (plan : Plan) (w : Workspace α),
    plan.length = grid.samples traces → w.Fits plan →
      ∃ w', task plan traces[i] w =
        .ok [polar.phase.row i, polar.envelope.row i, polar.hilbert.row i] w' ∧ w'.Fits plan

theorem perTrace (hread : grid.Reads traces) : ∃ polar, PerTrace grid traces polar := by
  obtain ⟨grids, hscheduled, hlength, hshape, hrow⟩ := driveRows_eq (n := 3) hread task_computes
    fun trace _ => ⟨rfl, size_outputs _ trace⟩
  obtain ⟨phase, envelope, hilbert, rfl⟩ := List.length_eq_three.1 hlength
  simp only [List.length_map, List.getElem_map] at hshape hrow
  have hrun : ∀ schedule : Nat → Schedule, (schedule traces.length).Covers traces.length →
      runScheduled schedule grid = .ok ⟨phase, envelope, hilbert⟩ := by
    intro schedule hcover
    rw [runScheduled, hscheduled schedule hcover]
    rfl
  refine ⟨⟨phase, envelope, hilbert⟩, hrun, fun k => hrun _ (Schedule.ofParallel_covers _ _),
    hshape, fun i hi => ?_, fun i hi plan w hplan hw => ?_⟩
  · have hsize := hread.size _ (List.getElem_mem hi)
    have hpos := hread.pos (List.ne_nil_of_length_pos (Nat.zero_lt_of_lt hi))
    have hi := hrow i hi
    rw [← hsize] at hi
    rw [instantaneousAttributes_eq (hsize ▸ hpos), ofAnalytic_of_outputs hi]
  · obtain ⟨w', htask, hw'⟩ := task_computes plan traces[i] w hw
    refine ⟨w', ?_, hw'⟩
    have hi := hrow i hi
    rw [← hplan] at hi
    rw [htask, ← hi]
    rfl

end GridPolarExtractor

namespace AttributeExtractor

def outputs (k : AttributeExtractor α) (n : Nat) (trace : Array α) : List (Array α) :=
  k.select trace (if k.needsAnalytic then (analyticVector n trace).toArray else #[])

theorem task_computes (k : AttributeExtractor α) (plan : Plan) :
    (k.task plan).Computes plan (k.outputs plan.length) := by
  intro trace w hw
  rw [task, outputs]
  cases k.needsAnalytic with
  | false => exact ⟨w, rfl, hw⟩
  | true =>
    obtain ⟨w', h, hfits⟩ := analyticIn_ok hw trace
    refine ⟨w', ?_, hfits⟩
    rw [if_pos rfl, if_pos rfl, bind_of_ok h]
    rfl

theorem outputs_eq_map (k : AttributeExtractor α) (n : Nat) (trace : Array α) :
    k.outputs n trace =
      k.attributes.map (attributeOf k.sampleInterval trace (analyticVector n trace).toArray) := by
  rw [outputs]
  cases h : k.needsAnalytic with
  | true => exact k.select_eq_map trace _
  | false => exact select_empty h trace _

theorem size_outputs (k : AttributeExtractor α) (trace : Array α) :
    ∀ out ∈ k.outputs trace.size trace, out.size = trace.size := by
  rw [outputs_eq_map]
  intro out hout
  obtain ⟨a, _, rfl⟩ := List.mem_map.1 hout
  exact size_attributeOf _ (Vector.size_toArray _) a

/-- Attribute grids of traces, one an attribute: one result for all schedules, rectangular, and the
rows are what a trace gives alone, or in a workspace that other traces have used. -/
structure PerTrace (k : AttributeExtractor α) (grid : TraceGrid α) (traces : List (Array α))
    (grids : List (Grid α)) : Prop where
  scheduled : ∀ schedule : Nat → Schedule, (schedule traces.length).Covers traces.length →
    k.runScheduled schedule grid = .ok grids
  run : ∀ parallel : Bool, runGrid { k with parallel } grid = .ok grids
  length : grids.length = k.attributes.length
  shape : ∀ g ∈ grids, g.rows = traces.length ∧ g.cols = grid.samples traces
  row : ∀ i (hi : i < traces.length), k.run (.list traces[i]) = .ok (grids.map (·.row i))
  reused : ∀ i (hi : i < traces.length) (plan : Plan) (w : Workspace α),
    plan.length = grid.samples traces → w.Fits plan →
      ∃ w', k.task plan traces[i] w = .ok (grids.map (·.row i)) w' ∧ w'.Fits plan

theorem perTrace (k : AttributeExtractor α) (hread : grid.Reads traces) :
    ∃ grids, PerTrace k grid traces grids := by
  obtain ⟨grids, hscheduled, hlength, hshape, hrow⟩ :=
    driveRows_eq (n := k.attributes.length) hread k.task_computes (by
      intro trace ht
      rw [← hread.size trace ht]
      exact ⟨List.length_map _, k.size_outputs trace⟩)
  simp only [List.length_map, List.getElem_map] at hshape hrow
  refine ⟨grids, hscheduled, fun parallel => ?_, hlength, hshape, fun i hi => ?_,
    fun i hi plan w hplan hw => ?_⟩
  · exact hscheduled _ (Schedule.ofParallel_covers parallel _)
  · have hsize := hread.size _ (List.getElem_mem hi)
    have hpos := hread.pos (List.ne_nil_of_length_pos (Nat.zero_lt_of_lt hi))
    have hlist : (Buffer.list traces[i]).read = .ok traces[i] := rfl
    rw [hrow i hi, k.run_of_read hlist, k.runTrace_eq (hsize ▸ hpos), hsize, outputs_eq_map]
  · rw [hrow i hi, ← hplan]
    exact k.task_computes plan traces[i] w hw

end AttributeExtractor

/-- A grid run gives what its traces give one by one. -/
theorem TraceGrid.runs_perTrace (hread : grid.readAll = .ok traces) (k : AttributeExtractor α) :
    grid.Reads traces ∧ (∃ polar, GridPolarExtractor.PerTrace grid traces polar) ∧
      ∃ grids, k.PerTrace grid traces grids := by
  have hread := TraceGrid.readAll_eq_ok.1 hread
  exact ⟨hread, GridPolarExtractor.perTrace hread, k.perTrace hread⟩

theorem TraceGrid.runs_perTrace_pair :
    (TraceGrid.rows #[#[1, 2], #[3, 4]] : TraceGrid Float).readAll = .ok [#[1, 2], #[3, 4]] ∧
      ∃ polar : Polar (Grid Float),
        GridPolarExtractor.runScheduled (fun _ => [[1], [0]]) (.rows #[#[1, 2], #[3, 4]]) =
            .ok polar ∧
          instantaneousAttributes #[3, 4] =
            .ok ⟨polar.phase.row 1, polar.envelope.row 1, polar.hilbert.row 1⟩ := by
  have hread : (TraceGrid.rows #[#[1, 2], #[3, 4]] : TraceGrid Float).readAll =
      .ok [#[1, 2], #[3, 4]] := rfl
  obtain ⟨_, ⟨polar, hpolar⟩, _⟩ := TraceGrid.runs_perTrace hread ⟨[.value], 1, true⟩
  refine ⟨hread, polar, ?_, hpolar.row 1 (by decide)⟩
  exact hpolar.scheduled (fun _ => [[1], [0]]) (List.Perm.swap 0 1 [])

end AnalyticTrace
