import AnalyticTrace.Grid.Rows
import AnalyticTrace.Proofs.Analytic.Pipeline
import Mathlib.Data.List.Nodup

namespace AnalyticTrace

variable {α : Type}

section Spaces
variable [Transform α]

/-- The plan can work here. Nothing is said of what the sequence and the scratch space hold. -/
structure Workspace.Fits (w : Workspace α) (plan : Plan) : Prop where
  data : w.data.size = plan.length
  scratch : plan.scratchLength α ≤ w.scratch.size

theorem Workspace.Holds.fits {w : Workspace α} {plan : Plan} {v : Vector (Cplx α) plan.length}
    (h : w.Holds plan v) : w.Fits plan :=
  ⟨by rw [h.data, Vector.size_toArray], h.scratch⟩

theorem Workspace.Fits.holds {w : Workspace α} {plan : Plan} (h : w.Fits plan) :
    w.Holds plan ⟨w.data, h.data⟩ :=
  ⟨rfl, h.scratch⟩

theorem Plan.fresh_fits [Sample α] (plan : Plan) :
    (plan.workspace (Array.replicate plan.length (0 : Cplx α))).Fits plan := by
  rw [← Vector.toArray_replicate]
  exact (plan.workspace_holds _).fits

/-- The outputs are a function of the trace, whatever a workspace held before. -/
def RowTask.Computes (task : RowTask α) (plan : Plan) (f : Array α → List (Array α)) : Prop :=
  ∀ (trace : Array α) (w : Workspace α), w.Fits plan →
    ∃ w', task trace w = .ok (f trace) w' ∧ w'.Fits plan

end Spaces

namespace Schedule

theorem sequential_covers (rows : Nat) : (sequential rows).Covers rows := by
  rw [Covers, sequential, List.flatten_singleton]

theorem dealt_covers {workers : Nat} (h : 0 < workers) (rows : Nat) :
    (dealt workers rows).Covers rows := by
  have hnodup : (dealt workers rows).flatten.Nodup := by
    rw [List.nodup_flatten]
    constructor
    · intro is his
      obtain ⟨w, -, rfl⟩ := List.mem_map.1 his
      exact List.nodup_range.filter _
    · rw [dealt, List.pairwise_map]
      refine List.pairwise_lt_range.imp fun {v w} hvw i hv hw => Nat.ne_of_lt hvw ?_
      rw [← of_decide_eq_true (List.mem_filter.1 hv).2, of_decide_eq_true (List.mem_filter.1 hw).2]
  refine (List.perm_ext_iff_of_nodup hnodup List.nodup_range).2 fun i => ?_
  rw [dealt, List.mem_flatten]
  constructor
  · rintro ⟨is, his, hi⟩
    obtain ⟨w, -, rfl⟩ := List.mem_map.1 his
    exact (List.mem_filter.1 hi).1
  · intro hi
    refine ⟨_, List.mem_map.2 ⟨i % workers, List.mem_range.2 (Nat.mod_lt i h), rfl⟩, ?_⟩
    exact List.mem_filter.2 ⟨hi, decide_eq_true rfl⟩

theorem ofParallel_covers (parallel : Bool) (rows : Nat) :
    (ofParallel parallel rows).Covers rows := by
  cases parallel with
  | false => exact sequential_covers rows
  | true => exact dealt_covers (by decide) rows

theorem Covers.mem {s : Schedule} {rows i : Nat} (h : s.Covers rows) (hi : i < rows) :
    i ∈ s.flatten :=
  h.mem_iff.2 (List.mem_range.2 hi)

end Schedule

section Runs
variable {f : Array α → List (Array α)} (traces : Array (Array α))

def outcome (f : Array α → List (Array α)) (i : Nat) : Option (Nat × List (Array α)) :=
  traces[i]?.map fun trace => (i, f trace)

theorem lookup_outcome {i : Nat} (hi : i < traces.size) {rows : List Nat} (h : i ∈ rows) :
    (rows.filterMap (outcome traces f)).lookup i = some (f traces[i]) := by
  -- A row that a schedule names twice has the same outputs both times.
  induction rows with
  | nil => cases h
  | cons j rows ih =>
    by_cases hj : j = i
    · subst hj
      rw [List.filterMap_cons_some (b := (j, f traces[j]))]
      · exact List.lookup_cons_self
      · rw [outcome, Array.getElem?_eq_getElem hi, Option.map_some]
    · have hi := ih ((List.mem_cons.1 h).resolve_left fun he => hj he.symm)
      rw [List.filterMap_cons, outcome]
      cases traces[j]? with
      | none => exact hi
      | some trace =>
        have hne : (i == j) = false := beq_false_of_ne fun he => hj he.symm
        simp only [Option.map_some, List.lookup_cons, hne]
        exact hi

theorem inRowOrder_eq (f : Array α → List (Array α)) {s : Schedule} (h : s.Covers traces.size) :
    inRowOrder traces.size (s.flatten.filterMap (outcome traces f)) =
      .ok (traces.toList.map f) := by
  have hlist : (List.range traces.size).map (fun i => f (traces.getD i #[])) =
      traces.toList.map f := by
    apply List.ext_getElem
    · simp
    · intro i hi₁ hi₂
      simp at hi₁
      simp [Array.getElem?_eq_getElem hi₁]
  rw [← hlist]
  refine mapM_eq_map fun i hi => ?_
  have hi := List.mem_range.1 hi
  rw [lookup_outcome traces hi (h.mem hi), Array.getD_eq_getD_getElem?,
    Array.getElem?_eq_getElem hi]
  rfl

variable [Transform α] {plan : Plan} {task : RowTask α}

theorem runWorker_eq (h : task.Computes plan f) (rows : List Nat) {w : Workspace α}
    (hw : w.Fits plan) :
    ∃ w', runWorker task traces rows w = .ok (rows.filterMap (outcome traces f)) w' ∧
      w'.Fits plan := by
  induction rows generalizing w with
  | nil => exact ⟨w, rfl, hw⟩
  | cons i rows ih =>
    rw [runWorker, List.filterMap_cons, outcome]
    cases traces[i]? with
    | none => exact ih hw
    | some trace =>
      obtain ⟨w₁, htask, hw₁⟩ := h trace w hw
      obtain ⟨w₂, hrest, hw₂⟩ := ih hw₁
      refine ⟨w₂, ?_, hw₂⟩
      simp only [Option.map_some]
      rw [bind_of_ok htask, bind_of_ok hrest]
      rfl

theorem runSchedule_eq (h : task.Computes plan f) (s : Schedule) {fresh : Workspace α}
    (hfresh : fresh.Fits plan) :
    runSchedule s fresh task traces = .ok (s.flatten.filterMap (outcome traces f)) := by
  rw [List.filterMap_flatten]
  refine bind_eq_ok.2 ⟨_, mapM_eq_map fun rows _ => ?_, rfl⟩
  obtain ⟨w', hw', _⟩ := runWorker_eq traces h rows hfresh
  rw [hw']

end Runs
end AnalyticTrace
