import AnalyticTrace.Proofs.Analytic.Composition
import AnalyticTrace.Proofs.Grid.Refusal
import AnalyticTrace.Proofs.Storage.Contents
import AnalyticTrace.Proofs.Storage.Layout

namespace AnalyticTrace

variable {α : Type}

theorem StridedGrid.contiguous_row {g : StridedGrid α} {i : Nat} (hi : i < g.rows) :
    (g.row i hi).contiguous = true ↔ g.cols ≤ 1 ∨ g.colStride = 1 :=
  Strided.contiguous_iff

namespace TraceGrid

/-- The traces in logical order. -/
def traces : TraceGrid α → List (Array α)
  | rows traces => traces.toList
  | array traces => traces.traces
  | view traces => traces.traces

/-- Every row can be read as it lies. -/
def Binds (grid : TraceGrid α) : Prop := ∀ i < grid.rowCount, ∃ trace, grid.readRow i = .ok trace

/-- Both bind, and they hold the same traces in the same order. -/
structure Alike (g g' : TraceGrid α) : Prop where
  left : g.Binds
  right : g'.Binds
  traces : g.traces = g'.traces

theorem length_traces (grid : TraceGrid α) : grid.traces.length = grid.rowCount := by
  cases grid with
  | rows traces => exact Array.length_toList
  | array traces => exact List.length_ofFn
  | view traces => exact List.length_ofFn

theorem readRow_of_le {grid : TraceGrid α} {i : Nat} (h : grid.rowCount ≤ i) :
    grid.readRow i = .error rowOutOfBounds := by
  cases grid with
  | rows traces => exact dif_neg (Nat.not_lt.2 h)
  | array traces => exact dif_neg (Nat.not_lt.2 h)
  | view traces => exact dif_neg (Nat.not_lt.2 h)

section Strided
variable {arg : String} {g : StridedGrid α} {i : Nat} (hi : i < g.rows)
include hi

theorem readStrided_of_contiguous (h : g.cols ≤ 1 ∨ g.colStride = 1) :
    readStrided arg g i = .ok (g.row i hi).toArray := by
  rw [readStrided, dif_pos hi]
  exact if_pos ((StridedGrid.contiguous_row hi).2 h)

theorem readStrided_of_scattered (h : ¬(g.cols ≤ 1 ∨ g.colStride = 1)) :
    readStrided arg g i = .error (.nonContiguous arg) := by
  rw [readStrided, dif_pos hi]
  exact if_neg fun hrow => h ((StridedGrid.contiguous_row hi).1 hrow)

theorem getElem?_of_readStrided {trace : Array α} (h : readStrided arg g i = .ok trace) :
    g.traces[i]? = some trace := by
  by_cases hrow : g.cols ≤ 1 ∨ g.colStride = 1
  · rw [readStrided_of_contiguous hi hrow, Except.ok.injEq] at h
    rw [StridedGrid.traces, List.getElem?_ofFn, dif_pos hi, h]
  · rw [readStrided_of_scattered hi hrow] at h
    cases h

end Strided

/-- All rows of an array lie alike, so the first one decides. -/
theorem strided_binds_iff {arg : String} {g : StridedGrid α} :
    (∀ i < g.rows, ∃ trace, readStrided arg g i = .ok trace) ↔
      g.rows = 0 ∨ g.cols ≤ 1 ∨ g.colStride = 1 := by
  constructor
  · intro h
    obtain hrows | hrows := Nat.eq_zero_or_pos g.rows
    · exact .inl hrows
    · by_contra hscattered
      obtain ⟨trace, hrow⟩ := h 0 hrows
      rw [readStrided_of_scattered hrows fun h => hscattered (.inr h)] at hrow
      cases hrow
  · rintro (hrows | h) i hi
    · omega
    · exact ⟨_, readStrided_of_contiguous hi h⟩

theorem first_unread {arg : String} {g : StridedGrid α}
    (h : ¬∀ i < g.rows, ∃ trace, readStrided arg g i = .ok trace) :
    0 < g.rows ∧ readStrided arg g 0 = .error (.nonContiguous arg) := by
  obtain ⟨hrows, hscattered⟩ := not_or.1 fun hbinds => h (strided_binds_iff.2 hbinds)
  have hpos := Nat.pos_of_ne_zero hrows
  exact ⟨hpos, readStrided_of_scattered hpos hscattered⟩

theorem getElem?_of_readRow {grid : TraceGrid α} {i : Nat} (hi : i < grid.rowCount)
    {trace : Array α} (h : grid.readRow i = .ok trace) : grid.traces[i]? = some trace := by
  cases grid with
  | rows traces =>
    have hi : i < traces.size := hi
    rw [readRow, dif_pos hi, Except.ok.injEq] at h
    rw [TraceGrid.traces, Array.getElem?_toList, Array.getElem?_eq_getElem hi, h]
  | array traces => exact getElem?_of_readStrided hi h
  | view traces => exact getElem?_of_readStrided hi h

theorem samples_array (g : StridedGrid α) : (array g).samples g.traces = g.cols := by
  cases htraces : g.traces with
  | nil => rfl
  | cons first rest =>
    have hfirst : first ∈ g.traces := htraces ▸ List.mem_cons_self
    obtain ⟨i, rfl⟩ := List.mem_ofFn.1 hfirst
    exact Strided.size_toArray _

theorem reads_array {g : StridedGrid α} (hcols : 0 < g.cols) (h : g.cols ≤ 1 ∨ g.colStride = 1) :
    (array g).Reads g.traces where
  length := List.length_ofFn
  row i hi := by
    have hi' : i < g.rows := Nat.lt_of_lt_of_eq hi List.length_ofFn
    rw [readRow, readStrided_of_contiguous hi' h]
    simp only [StridedGrid.traces, List.getElem_ofFn]
  size trace ht := by
    obtain ⟨i, rfl⟩ := List.mem_ofFn.1 ht
    rw [samples_array]
    exact Strided.size_toArray _
  pos _ := hcols.trans_eq (samples_array g).symm

section Alike
variable {g g' : TraceGrid α}

theorem Alike.rowCount_eq (h : g.Alike g') : g.rowCount = g'.rowCount := by
  rw [← length_traces, ← length_traces, h.traces]

theorem Alike.readRow_eq (h : g.Alike g') : g.readRow = g'.readRow := by
  funext i
  by_cases hi : i < g.rowCount
  · obtain ⟨trace, hrow⟩ := h.left i hi
    obtain ⟨trace', hrow'⟩ := h.right i (h.rowCount_eq ▸ hi)
    have htrace := getElem?_of_readRow hi hrow
    rw [h.traces, getElem?_of_readRow (h.rowCount_eq ▸ hi) hrow', Option.some.injEq] at htrace
    rw [hrow, hrow', htrace]
  · have hle := Nat.not_lt.1 hi
    rw [readRow_of_le hle, readRow_of_le (h.rowCount_eq ▸ hle)]

theorem Alike.readAll_eq (h : g.Alike g') : g.readAll = g'.readAll := by
  have hread : g.readTrace = g'.readTrace := by
    funext i
    rw [readTrace, readTrace, h.readRow_eq]
  have halike : g.readAlike = g'.readAlike := by
    funext samples i
    rw [readAlike, readAlike, hread]
  rw [readAll, readAll, h.rowCount_eq, hread]
  simp only [halike]

end Alike
end TraceGrid

/-- A run over a grid that is told its traces alone, save that without one an array still says how
long a trace would be; an array with a row that does not bind is refused. -/
structure SeesTraces {ρ : Type} (run : TraceGrid α → Except RunError ρ) (blank : Nat → ρ) :
    Prop where
  alike : ∀ g g', g.Alike g' → g.rowCount ≠ 0 → run g = run g'
  no_rows : run (.rows #[]) = .ok (blank 0)
  no_rows_array : ∀ g : StridedGrid α, g.rows = 0 →
    run (.array g) = .ok (blank g.cols) ∧ run (.view g) = .ok (blank g.cols)
  array : ∀ g, ¬(TraceGrid.array g).Binds →
    run (.array g) = .error (.config (.nonContiguous "grid"))
  view : ∀ g, ¬(TraceGrid.view g).Binds →
    run (.view g) = .error (.config (.nonContiguous "grid_view"))

theorem SeesTraces.bind {ρ ρ' : Type} {run : TraceGrid α → Except RunError ρ} {blank : Nat → ρ}
    (h : SeesTraces run blank) {f : ρ → Except RunError ρ'} {blank' : Nat → ρ'}
    (hf : ∀ cols, f (blank cols) = .ok (blank' cols)) :
    SeesTraces (fun grid => run grid >>= f) blank' where
  alike g g' halike hrows := by rw [h.alike g g' halike hrows]
  no_rows := by
    rw [h.no_rows]
    exact hf 0
  no_rows_array g hg := by
    rw [(h.no_rows_array g hg).1, (h.no_rows_array g hg).2]
    exact ⟨hf _, hf _⟩
  array g hg := by
    rw [h.array g hg]
    rfl
  view g hg := by
    rw [h.view g hg]
    rfl

section Runs
variable [Sample α] [Transform α]

theorem driveRows_of_no_rows (grid : TraceGrid α) (h : grid.rowCount = 0)
    (schedule : Nat → Schedule) (n : Nat) (task : Plan → RowTask α) :
    driveRows schedule n task grid =
      .ok (List.replicate n (Grid.empty (grid.colCount?.getD 0))) := by
  have hread : grid.readAll = .ok [] := if_pos h
  rw [driveRows, hread]
  rfl

theorem driveRows_of_unread (grid : TraceGrid α) {cause : ConfigError}
    (h : 0 < grid.rowCount ∧ grid.readRow 0 = .error cause) {schedule : Nat → Schedule} (n : Nat)
    (task : Plan → RowTask α) : driveRows schedule n task grid = .error (.config cause) :=
  driveRows_of_refused (TraceGrid.readAll_of_firstFault ⟨h.1, .unread h.2, nofun⟩) n task

theorem driveRows_alike {g g' : TraceGrid α} (h : g.Alike g') (hrows : g.rowCount ≠ 0)
    (schedule : Nat → Schedule) (n : Nat) (task : Plan → RowTask α) :
    driveRows schedule n task g = driveRows schedule n task g' := by
  have hread := h.readAll_eq
  cases htraces : g.readAll with
  | error e =>
    rw [driveRows_of_refused htraces, driveRows_of_refused (hread ▸ htraces)]
  | ok traces =>
    have hlength := (TraceGrid.readAll_eq_ok.1 htraces).length
    rw [driveRows, driveRows, ← hread, htraces]
    cases traces with
    | nil => exact absurd hlength.symm hrows
    | cons first rest => rfl

theorem driveRows_sees (schedule : Nat → Schedule) (n : Nat) (task : Plan → RowTask α) :
    SeesTraces (driveRows schedule n task) fun cols => List.replicate n (Grid.empty cols) where
  alike _ _ h hrows := driveRows_alike h hrows schedule n task
  no_rows := driveRows_of_no_rows _ rfl schedule n task
  no_rows_array g h :=
    ⟨driveRows_of_no_rows (.array g) h schedule n task,
      driveRows_of_no_rows (.view g) h schedule n task⟩
  array g h := driveRows_of_unread (.array g) (TraceGrid.first_unread h) n task
  view g h := driveRows_of_unread (.view g) (TraceGrid.first_unread h) n task

theorem GridPolarExtractor.runScheduled_sees (schedule : Nat → Schedule) :
    SeesTraces (runScheduled (α := α) schedule) fun cols =>
      ⟨Grid.empty cols, Grid.empty cols, Grid.empty cols⟩ :=
  (driveRows_sees schedule 3 task).bind fun _ => rfl

theorem AttributeExtractor.runScheduled_sees (k : AttributeExtractor α)
    (schedule : Nat → Schedule) :
    SeesTraces (k.runScheduled schedule) fun cols =>
      List.replicate k.attributes.length (Grid.empty cols) :=
  driveRows_sees schedule k.attributes.length k.task

end Runs

/-- What a strided array holds, and when it can be read as it lies. -/
structure Strided.Laws (s : Strided α) : Prop where
  array_binds : (Buffer.array s).Binds ↔ s.length ≤ 1 ∨ s.stride = 1
  view_binds : (Buffer.view s).Binds ↔ s.length ≤ 1 ∨ s.stride = 1
  lies : s.length ≤ 1 ∨ s.stride = 1 → s.toArray = s.base.extract s.offset (s.offset + s.length)
  reverse : s.reverse.toArray = s.toArray.reverse
  every : ∀ k (hk : 0 < k) i, (s.every k hk).toArray[i]? = s.toArray[i * k]?

/-- The same for rows and columns; a part of a strided grid, or the grid transposed, has the entries
of the grid. -/
structure StridedGrid.Laws (g : StridedGrid α) : Prop where
  array_binds : (TraceGrid.array g).Binds ↔ g.rows = 0 ∨ g.cols ≤ 1 ∨ g.colStride = 1
  view_binds : (TraceGrid.view g).Binds ↔ g.rows = 0 ∨ g.cols ≤ 1 ∨ g.colStride = 1
  transpose : ∀ i j, g.transpose.entry j i = g.entry i j
  sliceRows : ∀ (start : Nat) (step : Int) (count : Nat) h (i : Fin count) (i' : Fin g.rows) j,
    (i'.val : Int) = start + i * step → (g.sliceRows start step count h).entry i j = g.entry i' j
  sliceCols : ∀ (start : Nat) (step : Int) (count : Nat) h (j : Fin count) (j' : Fin g.cols) i,
    (j'.val : Int) = start + j * step → (g.sliceCols start step count h).entry i j = g.entry i j'

theorem Strided.laws (s : Strided α) : s.Laws where
  array_binds := Buffer.binds_iff.trans contiguous_iff
  view_binds := Buffer.binds_iff.trans contiguous_iff
  lies h := toArray_eq_extract (contiguous_iff.2 h)
  reverse := s.toArray_reverse
  every _ hk i := s.getElem?_every hk i

theorem StridedGrid.laws (g : StridedGrid α) : g.Laws where
  array_binds := TraceGrid.strided_binds_iff
  view_binds := TraceGrid.strided_binds_iff
  transpose := g.entry_transpose
  sliceRows _ _ _ _ _ _ j hi := entry_sliceRows hi j
  sliceCols _ _ _ _ _ _ i hj := entry_sliceCols hj i

theorem Buffer.binds_list (x : Array α) : (Buffer.list x).Binds :=
  binds_iff.2 rfl

theorem TraceGrid.binds_rows (traces : Array (Array α)) : (rows traces).Binds :=
  fun _ hi => ⟨_, dif_pos hi⟩

theorem hilbert_gathers [Sample α] [Transform α] (s : Strided α) (components : Option Nat) :
    hilbert s components = (do
      let t ← (HilbertTransformer.ofComponents components).mapError RunError.config
      t.run (.list s.toArray)) := by
  cases ht : HilbertTransformer.ofComponents components with
  | error e =>
    rw [hilbert, ht]
    rfl
  | ok t =>
    have hrun : t.run (.list s.toArray) = t.runTrace s.toArray := t.run_of_read rfl
    rw [hilbert_eq s ht, ← hrun]
    rfl

/-- Each computation sees what a trace or a grid holds, and the ways to store one say what that is
and when it binds. -/
structure SeesContents (α : Type) [Sample α] [Transform α] : Prop where
  unwrapper : ∀ u : Unwrapper α, SeesItems u.run ∧ SeesItemsInto Buffer.Alike u.runInto
  differentiator : ∀ d : Differentiator α, SeesItems d.run ∧ SeesItemsInto Buffer.Alike d.runInto
  transformer : ∀ t : HilbertTransformer,
    SeesItems (t.run (α := α)) ∧ SeesItemsInto Buffer.Alike (t.runInto (α := α))
  polar : ∀ k : PolarExtractor,
    SeesItems (k.run (α := α)) ∧ SeesItemsInto Polar.Alike (k.runInto (α := α))
  attributes : ∀ k : AttributeExtractor α, SeesItems k.run ∧ SeesTraces k.runGrid fun cols =>
    List.replicate k.attributes.length (Grid.empty cols)
  gridPolar : ∀ k : GridPolarExtractor, SeesTraces (k.run (α := α)) fun cols =>
    ⟨Grid.empty cols, Grid.empty cols, Grid.empty cols⟩
  row_out_of_bounds : ∀ (grid : TraceGrid α) i, grid.rowCount ≤ i →
    grid.readRow i = .error (.invalidArgument "row" "row index out of bounds")
  hilbert_gathers : ∀ (s : Strided α) components, hilbert s components = do
    let t ← (HilbertTransformer.ofComponents components).mapError RunError.config
    t.run (.list s.toArray)
  list : ∀ x : Array α, (Buffer.list x).Binds
  strided : ∀ s : Strided α, s.Laws
  rows : ∀ traces : Array (Array α), (TraceGrid.rows traces).Binds
  stridedGrid : ∀ g : StridedGrid α, g.Laws
  rowMajor : ∀ (rows cols : Nat) (data : Array α) h (i : Fin rows) (j : Fin cols),
    data[i.val * cols + j]? = some ((StridedGrid.rowMajor rows cols data h).entry i j)
  columnMajor : ∀ (rows cols : Nat) (data : Array α) h (i : Fin rows) (j : Fin cols),
    data[j.val * rows + i]? = some ((StridedGrid.columnMajor rows cols data h).entry i j)

/-- Whichever way a trace or a grid is stored, every computation sees what it holds and nothing
else. Storage that cannot be read as it lies is refused, except by `hilbert`, which gathers it. -/
theorem runs_see_contents [Sample α] [Transform α] : SeesContents α where
  unwrapper := Unwrapper.sees_items
  differentiator := Differentiator.sees_items
  transformer := HilbertTransformer.sees_items
  polar := PolarExtractor.sees_items
  attributes k := ⟨k.sees_items, k.runScheduled_sees _⟩
  gridPolar _ := GridPolarExtractor.runScheduled_sees _
  row_out_of_bounds _ _ := TraceGrid.readRow_of_le
  hilbert_gathers := hilbert_gathers
  list := Buffer.binds_list
  strided := Strided.laws
  rows := TraceGrid.binds_rows
  stridedGrid := StridedGrid.laws
  rowMajor _ _ _ h := StridedGrid.entry_rowMajor h
  columnMajor _ _ _ h := StridedGrid.entry_columnMajor h

/-- One row may lie as a column; two rows may not. -/
theorem runs_see_contents_columns :
    GridPolarExtractor.run {} (.view (StridedGrid.columnMajor 1 3 #[(1 : Float), 2, 3] rfl)) =
        GridPolarExtractor.run {} (.rows #[#[1, 2, 3]]) ∧
      GridPolarExtractor.run {} (.array (StridedGrid.columnMajor 2 2 #[(1 : Float), 2, 3, 4] rfl)) =
        .error (.config (.nonContiguous "grid")) := by
  have hsees := runs_see_contents (α := Float)
  have hbinds := (hsees.stridedGrid
    (StridedGrid.columnMajor 1 3 #[(1 : Float), 2, 3] rfl)).view_binds.2 (by decide)
  have hscattered : ¬(TraceGrid.array
      (StridedGrid.columnMajor 2 2 #[(1 : Float), 2, 3, 4] rfl)).Binds :=
    fun h => absurd ((hsees.stridedGrid _).array_binds.1 h) (by decide)
  exact ⟨(hsees.gridPolar {}).alike _ _ ⟨hbinds, hsees.rows _, rfl⟩ (by decide),
    (hsees.gridPolar {}).array _ hscattered⟩

end AnalyticTrace
