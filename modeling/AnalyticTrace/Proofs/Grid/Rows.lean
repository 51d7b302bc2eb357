import AnalyticTrace.Grid.Rows
import AnalyticTrace.Proofs.Steps
import Mathlib.Data.List.GetD
import Mathlib.Tactic.Choose

namespace AnalyticTrace

variable {α : Type}

namespace TraceGrid

/-- The samples of every trace that was read; without a trace, those that the storage has for
one. -/
def samples (grid : TraceGrid α) : List (Array α) → Nat
  | [] => grid.colCount?.getD 0
  | first :: _ => first.size

variable {grid : TraceGrid α}

theorem readTrace_eq_ok {i : Nat} {trace : Array α} :
    grid.readTrace i = .ok trace ↔ grid.readRow i = .ok trace := by
  rw [readTrace, mapError_eq_ok]

theorem readAlike_eq_ok {samples i : Nat} {trace : Array α} :
    grid.readAlike samples i = .ok trace ↔ grid.readRow i = .ok trace ∧ trace.size = samples := by
  rw [readAlike, bind_eq_ok]
  constructor
  · rintro ⟨row, hrow, h⟩
    split at h
    · cases h
      exact ⟨readTrace_eq_ok.1 hrow, ‹_›⟩
    · cases h
  · rintro ⟨hrow, hsize⟩
    refine ⟨trace, readTrace_eq_ok.2 hrow, ?_⟩
    rw [if_pos hsize]
    rfl

structure Reads (grid : TraceGrid α) (traces : List (Array α)) : Prop where
  length : traces.length = grid.rowCount
  row : ∀ i (hi : i < traces.length), grid.readRow i = .ok traces[i]
  size : ∀ trace ∈ traces, trace.size = grid.samples traces
  pos : traces ≠ [] → 0 < grid.samples traces

theorem reads_cons_iff {first : Array α} {rest : List (Array α)} (hcount : grid.rowCount ≠ 0) :
    grid.Reads (first :: rest) ↔ grid.readRow 0 = .ok first ∧
      List.Forall₂ (fun i trace => grid.readRow i = .ok trace ∧ trace.size = first.size)
        (List.range' 1 (grid.rowCount - 1)) rest ∧ 0 < first.size := by
  rw [List.forall₂_iff_get]
  simp only [List.length_range', List.get_eq_getElem, List.getElem_range', Nat.one_mul]
  constructor
  · rintro ⟨hlength, hrow, hsize, hpos⟩
    rw [List.length_cons] at hlength
    refine ⟨hrow 0 (Nat.succ_pos _), ⟨by omega, fun i _ hi => ⟨?_, ?_⟩⟩,
      hpos (List.cons_ne_nil _ _)⟩
    · rw [Nat.add_comm]
      exact hrow (i + 1) (Nat.succ_lt_succ hi)
    · exact hsize _ (List.mem_cons_of_mem _ (List.getElem_mem hi))
  · rintro ⟨hfirst, ⟨hlength, hrest⟩, hpos⟩
    refine ⟨by rw [List.length_cons]; omega, fun i hi => ?_, fun trace ht => ?_, fun _ => hpos⟩
    · cases i with
      | zero => exact hfirst
      | succ i =>
        have hi' := Nat.lt_of_succ_lt_succ hi
        have hrow := (hrest i (by omega) hi').1
        rwa [Nat.add_comm] at hrow
    · cases ht with
      | head => rfl
      | tail _ ht =>
        obtain ⟨i, hi, rfl⟩ := List.getElem_of_mem ht
        exact (hrest i (by omega) hi).2

theorem readAll_eq_ok {traces : List (Array α)} :
    grid.readAll = .ok traces ↔ grid.Reads traces := by
  rw [readAll]
  split
  · rename_i hcount
    constructor
    · intro h
      cases h
      exact ⟨hcount.symm, nofun, nofun, fun h => absurd rfl h⟩
    · intro h
      rw [List.length_eq_zero_iff.1 (h.length.trans hcount)]
  · rename_i hcount
    simp only [bind_eq_ok, mapM_eq_ok, readAlike_eq_ok, readTrace_eq_ok]
    constructor
    · rintro ⟨first, hfirst, rest, hrest, h⟩
      split at h
      · cases h
      · rename_i hempty
        cases h
        refine (reads_cons_iff hcount).2 ⟨hfirst, hrest, Nat.pos_of_ne_zero fun hz => hempty ?_⟩
        exact Array.isEmpty_iff_size_eq_zero.2 hz
    · intro h
      cases traces with
      | nil => exact absurd h.length.symm hcount
      | cons first rest =>
        obtain ⟨hfirst, hrest, hpos⟩ := (reads_cons_iff hcount).1 h
        refine ⟨first, hfirst, rest, hrest, ?_⟩
        rw [if_neg fun he => Nat.ne_of_gt hpos (Array.isEmpty_iff_size_eq_zero.1 he)]
        rfl

end TraceGrid

section Stacking
variable {cols : Nat}

theorem flatten_cons (x : Array α) (xs : List (Array α)) :
    (x :: xs).toArray.flatten = x ++ xs.toArray.flatten := by
  simp only [Array.flatten_toArray, List.map_cons, List.flatten_cons]
  rw [← List.append_toArray, Array.toArray_toList]

theorem size_flatten {xs : List (Array α)} (h : ∀ x ∈ xs, x.size = cols) :
    xs.toArray.flatten.size = xs.length * cols := by
  induction xs with
  | nil => simp
  | cons x xs ih =>
    rw [flatten_cons, Array.size_append, h x List.mem_cons_self,
      ih fun y hy => h y (List.mem_cons_of_mem _ hy), List.length_cons, Nat.succ_mul, Nat.add_comm]

theorem extract_flatten {xs : List (Array α)} (h : ∀ x ∈ xs, x.size = cols) {i : Nat}
    (hi : i < xs.length) :
    xs.toArray.flatten.extract (i * cols) ((i + 1) * cols) = xs[i] := by
  induction xs generalizing i with
  | nil => cases hi
  | cons x xs ih =>
    have hx := h x List.mem_cons_self
    rw [flatten_cons, Array.extract_append, hx]
    cases i with
    | zero =>
      simp [← hx]
    | succ i =>
      rw [Nat.succ_mul, Nat.succ_mul (i + 1), Nat.add_sub_cancel, Nat.add_sub_cancel,
        ih (fun y hy => h y (List.mem_cons_of_mem _ hy)) (Nat.lt_of_succ_lt_succ hi),
        Array.extract_empty_of_size_le_start, Array.empty_append, List.getElem_cons_succ]
      omega

structure Stacks (grids : List (Grid α)) (outputs cols : Nat) (rows : List (List (Array α))) :
    Prop where
  length : grids.length = outputs
  shape : ∀ g ∈ grids, g.rows = rows.length ∧ g.cols = cols
  row : ∀ i (hi : i < rows.length), grids.map (·.row i) = rows[i]

theorem stackOutput_eq {rows : List (List (Array α))} {k : Nat}
    (h : ∀ outputs ∈ rows, (outputs.getD k #[]).size = cols) :
    ∃ g : Grid α, stackOutput cols rows k = .ok g ∧ (g.rows = rows.length ∧ g.cols = cols) ∧
      ∀ i (hi : i < rows.length), g.row i = rows[i].getD k #[] := by
  have hcolumn : ∀ x ∈ rows.map fun outputs => outputs.getD k #[], x.size = cols := by
    intro x hx
    obtain ⟨outputs, ho, rfl⟩ := List.mem_map.1 hx
    exact h outputs ho
  have hsize := size_flatten hcolumn
  rw [List.length_map] at hsize
  refine ⟨⟨rows.length, cols, _, hsize⟩, ?_, ⟨rfl, rfl⟩, fun i hi => ?_⟩
  · simp only [stackOutput, Grid.ofData?, dif_pos hsize]
  · rw [Grid.row, extract_flatten hcolumn (by rwa [List.length_map]), List.getElem_map]

theorem stackOutputs_eq {n : Nat} {rows : List (List (Array α))}
    (h : ∀ outputs ∈ rows, outputs.length = n ∧ ∀ x ∈ outputs, x.size = cols) :
    ∃ grids, stackOutputs n cols rows = .ok grids ∧ Stacks grids n cols rows := by
  have hcolumn : ∀ k < n, ∀ outputs ∈ rows, (outputs.getD k #[]).size = cols := by
    intro k hk outputs ho
    obtain ⟨hlength, hsize⟩ := h outputs ho
    rw [← hlength] at hk
    rw [List.getD_eq_getElem _ _ hk]
    exact hsize _ (List.getElem_mem hk)
  have hstack : ∀ k ∈ List.range n, ∃ g : Grid α, stackOutput cols rows k = .ok g ∧
      (g.rows = rows.length ∧ g.cols = cols) ∧
        ∀ i (hi : i < rows.length), g.row i = rows[i].getD k #[] := by
    intro k hk
    exact stackOutput_eq (hcolumn k (List.mem_range.1 hk))
  have : Nonempty (Grid α) := ⟨Grid.empty 0⟩
  choose! stack heq hshape hrow using hstack
  refine ⟨(List.range n).map stack, ?_, ?_, ?_, ?_⟩
  · rw [stackOutputs, if_pos (List.all_eq_true.2 fun o ho => decide_eq_true (h o ho).1)]
    exact mapM_eq_map heq
  · rw [List.length_map, List.length_range]
  · intro g hg
    obtain ⟨k, hk, rfl⟩ := List.mem_map.1 hg
    exact hshape k hk
  · intro i hi
    have hlength := (h _ (List.getElem_mem hi)).1
    apply List.ext_getElem
    · rw [List.length_map, List.length_map, List.length_range, hlength]
    · intro k hk₁ hk₂
      rw [List.getElem_map, List.getElem_map, List.getElem_range,
        hrow k (List.mem_range.2 (hlength ▸ hk₂)) i hi, List.getD_eq_getElem _ _ hk₂]

end Stacking
end AnalyticTrace
