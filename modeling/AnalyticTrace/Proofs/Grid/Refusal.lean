import AnalyticTrace.Proofs.Grid.PerTrace
import AnalyticTrace.Proofs.Storage.Filling

namespace AnalyticTrace

variable {α : Type}

namespace TraceGrid

variable {grid : TraceGrid α}

/-- What is wrong with row `i`: it cannot be read, or it is not as long as row 0. -/
inductive RowFault (grid : TraceGrid α) (i : Nat) : RunError → Prop where
  | unread {cause : ConfigError} (hrow : grid.readRow i = .error cause) :
    RowFault grid i (.config cause)
  | ragged {first trace : Array α} (hfirst : grid.readRow 0 = .ok first)
    (hrow : grid.readRow i = .ok trace) (hsize : trace.size ≠ first.size) :
    RowFault grid i (.raggedGrid i first.size trace.size)

def FaultlessBelow (grid : TraceGrid α) (n : Nat) : Prop := ∀ i < n, ∀ e, ¬grid.RowFault i e

structure FirstFault (grid : TraceGrid α) (i : Nat) (e : RunError) : Prop where
  lt : i < grid.rowCount
  fault : grid.RowFault i e
  before : grid.FaultlessBelow i

/-- There are rows, but no samples. -/
structure Blank (grid : TraceGrid α) : Prop where
  pos : 0 < grid.rowCount
  row : ∀ i < grid.rowCount, grid.readRow i = .ok #[]

theorem readTrace_eq_error {i : Nat} {e : RunError} :
    grid.readTrace i = .error e ↔ ∃ cause, grid.readRow i = .error cause ∧ .config cause = e :=
  mapError_eq_error

section First
variable {first : Array α} (hfirst : grid.readRow 0 = .ok first)
include hfirst

theorem not_rowFault_zero (e : RunError) : ¬grid.RowFault 0 e := by
  rintro (hrow | ⟨hfirst', hrow, hsize⟩)
  · rw [hfirst] at hrow
    cases hrow
  · rw [hfirst'] at hrow
    cases hrow
    exact hsize rfl

theorem readAlike_eq_error {i : Nat} {e : RunError} :
    grid.readAlike first.size i = .error e ↔ grid.RowFault i e := by
  rw [readAlike, bind_eq_error]
  constructor
  · rintro (h | ⟨trace, htrace, h⟩)
    · obtain ⟨cause, hrow, rfl⟩ := readTrace_eq_error.1 h
      exact .unread hrow
    · split at h
      · cases h
      · cases h
        exact .ragged hfirst (readTrace_eq_ok.1 htrace) ‹_›
  · rintro (hrow | ⟨hfirst', hrow, hsize⟩)
    · exact .inl (readTrace_eq_error.2 ⟨_, hrow, rfl⟩)
    · rw [hfirst] at hfirst'
      cases hfirst'
      exact .inr ⟨_, readTrace_eq_ok.2 hrow, if_neg hsize⟩

theorem readRow_of_not_fault {i : Nat} (h : ∀ e, ¬grid.RowFault i e) :
    ∃ trace, grid.readRow i = .ok trace ∧ trace.size = first.size := by
  obtain ⟨trace, htrace⟩ :=
    exists_eq_ok_iff.2 fun e he => h e ((readAlike_eq_error hfirst).1 he)
  exact ⟨trace, readAlike_eq_ok.1 htrace⟩

/-- The rows behind row 0 are read alike unless there is a fault among them. -/
theorem readRest_eq_error {n : Nat} {e : RunError} :
    (List.range' 1 (n - 1)).mapM (grid.readAlike first.size) = .error e ↔
      ∃ i < n, grid.RowFault i e ∧ grid.FaultlessBelow i := by
  simp only [mapM_range'_eq_error, ne_eq, readAlike_eq_error hfirst]
  constructor
  · rintro ⟨i, hpos, hlt, hi, hbefore⟩
    refine ⟨i, by omega, hi, fun j hj => ?_⟩
    obtain rfl | hj' := Nat.eq_zero_or_pos j
    · exact not_rowFault_zero hfirst
    · exact hbefore j hj' hj
  · rintro ⟨i, hlt, hi, hbefore⟩
    obtain rfl | hpos := Nat.eq_zero_or_pos i
    · exact absurd hi (not_rowFault_zero hfirst e)
    · exact ⟨i, hpos, by omega, hi, fun j _ hj => hbefore j hj⟩

end First

theorem FaultlessBelow.first {n : Nat} (h : grid.FaultlessBelow n) (hn : 0 < n) :
    ∃ first, grid.readRow 0 = .ok first :=
  exists_eq_ok_iff.2 fun _ hrow => h 0 hn _ (.unread hrow)

theorem exists_firstFault {n : Nat} (hn : n ≤ grid.rowCount) (h : ¬grid.FaultlessBelow n) :
    ∃ i e, grid.FirstFault i e := by
  induction n with
  | zero => exact absurd nofun h
  | succ n ih =>
    by_cases hbefore : grid.FaultlessBelow n
    · by_cases hfault : ∃ e, grid.RowFault n e
      · obtain ⟨e, he⟩ := hfault
        exact ⟨n, e, hn, he, hbefore⟩
      · refine absurd (fun i hi e he => ?_) h
        obtain hi | rfl := Nat.lt_succ_iff_lt_or_eq.1 hi
        · exact hbefore i hi e he
        · exact hfault ⟨e, he⟩
    · exact ih (Nat.le_of_succ_le hn) hbefore

theorem readAll_of_firstFault {i : Nat} {e : RunError} (h : grid.FirstFault i e) :
    grid.readAll = .error e := by
  rw [readAll, if_neg (Nat.ne_of_gt (Nat.zero_lt_of_lt h.lt)), bind_eq_error]
  obtain rfl | hpos := Nat.eq_zero_or_pos i
  · left
    cases h.fault with
    | unread hrow => exact readTrace_eq_error.2 ⟨_, hrow, rfl⟩
    | ragged hfirst _ _ => exact absurd h.fault (not_rowFault_zero hfirst _)
  · obtain ⟨first, hfirst⟩ := h.before.first hpos
    refine .inr ⟨first, readTrace_eq_ok.2 hfirst, bind_eq_error.2 (.inl ?_)⟩
    exact (readRest_eq_error hfirst).2 ⟨i, h.lt, h.fault, h.before⟩

theorem Blank.faultless (h : grid.Blank) : grid.FaultlessBelow grid.rowCount := by
  rintro i hi e (hrow | ⟨hfirst, hrow, hsize⟩)
  · rw [h.row i hi] at hrow
    cases hrow
  · rw [h.row i hi] at hrow
    rw [h.row 0 h.pos] at hfirst
    cases hrow
    cases hfirst
    exact hsize rfl

theorem blank_iff (h : grid.FaultlessBelow grid.rowCount) {first : Array α}
    (hfirst : grid.readRow 0 = .ok first) (hpos : 0 < grid.rowCount) :
    grid.Blank ↔ first.isEmpty = true := by
  constructor
  · intro hblank
    rw [hblank.row 0 hpos] at hfirst
    cases hfirst
    rfl
  · intro hempty
    refine ⟨hpos, fun i hi => ?_⟩
    obtain ⟨trace, hrow, hsize⟩ := readRow_of_not_fault hfirst (h i hi)
    rw [Array.isEmpty_iff_size_eq_zero.1 hempty] at hsize
    rw [hrow, Array.eq_empty_of_size_eq_zero hsize]

/-- Without a fault only the last check is left. -/
theorem readAll_of_faultless (h : grid.FaultlessBelow grid.rowCount) :
    grid.Blank ∧ grid.readAll = .error (.invalidLength "grid") ∨
      ¬grid.Blank ∧ ∃ traces, grid.readAll = .ok traces := by
  obtain hcount | hpos := Nat.eq_zero_or_pos grid.rowCount
  · exact .inr ⟨fun hblank => Nat.ne_of_gt hblank.pos hcount, [], if_pos hcount⟩
  · obtain ⟨first, hfirst⟩ := h.first hpos
    obtain ⟨rest, hrest⟩ := exists_eq_ok_iff.2 fun e he => by
      obtain ⟨i, hi, hfault, -⟩ := (readRest_eq_error hfirst).1 he
      exact h i hi e hfault
    have htrace := readTrace_eq_ok.2 hfirst
    by_cases hempty : first.isEmpty = true
    · refine .inl ⟨(blank_iff h hfirst hpos).2 hempty, ?_⟩
      rw [readAll, if_neg (Nat.ne_of_gt hpos)]
      refine bind_eq_error.2 (.inr ⟨first, htrace, bind_eq_error.2 (.inr ⟨rest, hrest, ?_⟩)⟩)
      rw [if_pos hempty]
      rfl
    · refine .inr ⟨fun hblank => hempty ((blank_iff h hfirst hpos).1 hblank), first :: rest, ?_⟩
      rw [readAll, if_neg (Nat.ne_of_gt hpos)]
      refine bind_eq_ok.2 ⟨first, htrace, bind_eq_ok.2 ⟨rest, hrest, ?_⟩⟩
      rw [if_neg hempty]
      rfl

theorem size_of_readStrided {arg : String} {traces : StridedGrid α} {i : Nat} {trace : Array α}
    (h : readStrided arg traces i = .ok trace) : trace.size = traces.cols := by
  rw [readStrided] at h
  split at h
  · dsimp only at h
    split at h
    · cases h
      exact Strided.size_toArray _
    · cases h
  · cases h

theorem readAll_eq_error {e : RunError} :
    grid.readAll = .error e ↔
      (∃ i, grid.FirstFault i e) ∨ grid.Blank ∧ e = .invalidLength "grid" := by
  constructor
  · intro he
    by_cases hall : grid.FaultlessBelow grid.rowCount
    · obtain ⟨hblank, h⟩ | ⟨-, traces, h⟩ := readAll_of_faultless hall
      · exact .inr ⟨hblank, Except.error.inj (he.symm.trans h)⟩
      · cases he.symm.trans h
    · obtain ⟨i, e', hi⟩ := exists_firstFault (Nat.le_refl _) hall
      cases he.symm.trans (readAll_of_firstFault hi)
      exact .inl ⟨i, hi⟩
  · rintro (⟨i, hi⟩ | ⟨hblank, rfl⟩)
    · exact readAll_of_firstFault hi
    · obtain ⟨-, h⟩ | ⟨hnot, -⟩ := readAll_of_faultless hblank.faultless
      · exact h
      · exact absurd hblank hnot

theorem exists_readAll_iff :
    (∃ traces, grid.readAll = .ok traces) ↔ grid.FaultlessBelow grid.rowCount ∧ ¬grid.Blank := by
  constructor
  · intro hok
    have hall : grid.FaultlessBelow grid.rowCount := by
      by_contra hall
      obtain ⟨i, e, hi⟩ := exists_firstFault (Nat.le_refl _) hall
      exact exists_eq_ok_iff.1 hok e (readAll_of_firstFault hi)
    exact ⟨hall, fun hblank => exists_eq_ok_iff.1 hok _ (readAll_eq_error.2 (.inr ⟨hblank, rfl⟩))⟩
  · rintro ⟨hall, hnot⟩
    obtain ⟨hblank, -⟩ | ⟨-, hok⟩ := readAll_of_faultless hall
    · exact absurd hblank hnot
    · exact hok

/-- Only rows of a list differ in length; those of an array cannot. -/
theorem RowFault.kind {i : Nat} {e : RunError} (h : grid.RowFault i e) :
    (∃ cause, e = .config cause) ∨
      ∃ traces row expected got, grid = .rows traces ∧ e = .raggedGrid row expected got := by
  cases h with
  | unread hrow => exact .inl ⟨_, rfl⟩
  | ragged hfirst hrow hsize =>
    cases grid with
    | rows traces => exact .inr ⟨traces, _, _, _, rfl, rfl⟩
    | array traces =>
      exact absurd ((size_of_readStrided hrow).trans (size_of_readStrided hfirst).symm) hsize
    | view traces =>
      exact absurd ((size_of_readStrided hrow).trans (size_of_readStrided hfirst).symm) hsize

/-- How a run over a grid ends: with the first fault, for want of samples, or with a result. -/
structure Ends {ρ : Type} (grid : TraceGrid α) (result : Except RunError ρ) : Prop where
  error_iff : ∀ e, result = .error e ↔
    (∃ i, grid.FirstFault i e) ∨ grid.Blank ∧ e = .invalidLength "grid"
  ok_iff : (∃ y, result = .ok y) ↔ grid.FaultlessBelow grid.rowCount ∧ ¬grid.Blank
  error_kind : ∀ e, result = .error e → e = .invalidLength "grid" ∨ (∃ cause, e = .config cause) ∨
    ∃ traces row expected got, grid = .rows traces ∧ e = .raggedGrid row expected got

/-- What fails only with the check, and then with its error, ends as the check does. -/
theorem Ends.of_check {ρ : Type} {result : Except RunError ρ}
    (herror : ∀ e, grid.readAll = .error e → result = .error e)
    (hok : ∀ traces, grid.readAll = .ok traces → ∃ y, result = .ok y) : grid.Ends result := by
  have hsame (e : RunError) : result = .error e ↔ grid.readAll = .error e := by
    refine ⟨fun he => ?_, herror e⟩
    cases hread : grid.readAll with
    | error e' =>
      cases (herror e' hread).symm.trans he
      rfl
    | ok traces =>
      obtain ⟨y, hy⟩ := hok traces hread
      cases hy.symm.trans he
  have hdone : (∃ y, result = .ok y) ↔ ∃ traces, grid.readAll = .ok traces := by
    simp only [exists_eq_ok_iff, ne_eq, hsame]
  refine ⟨fun e => (hsame e).trans readAll_eq_error, hdone.trans exists_readAll_iff, fun e he => ?_⟩
  obtain ⟨i, hi⟩ | ⟨-, rfl⟩ := readAll_eq_error.1 ((hsame e).1 he)
  · exact .inr hi.fault.kind
  · exact .inl rfl

end TraceGrid

section Runs
variable [Sample α] [Transform α] {grid : TraceGrid α} {schedule : Nat → Schedule}

theorem driveRows_of_refused {e : RunError} (h : grid.readAll = .error e) (n : Nat)
    (task : Plan → RowTask α) : driveRows schedule n task grid = .error e := by
  rw [driveRows, h]
  rfl

variable (hcover : (schedule grid.rowCount).Covers grid.rowCount)
include hcover

theorem GridPolarExtractor.runScheduled_ends : grid.Ends (runScheduled schedule grid) := by
  refine .of_check (fun e he => ?_) fun traces hread => ?_
  · rw [runScheduled, driveRows_of_refused he]
    rfl
  · have hreads := TraceGrid.readAll_eq_ok.1 hread
    obtain ⟨polar, hpolar⟩ := perTrace hreads
    exact ⟨polar, hpolar.scheduled schedule (hreads.length ▸ hcover)⟩

theorem AttributeExtractor.runScheduled_ends (k : AttributeExtractor α) :
    grid.Ends (k.runScheduled schedule grid) := by
  refine .of_check (fun e he => driveRows_of_refused he _ _) fun traces hread => ?_
  have hreads := TraceGrid.readAll_eq_ok.1 hread
  obtain ⟨grids, hgrids⟩ := k.perTrace hreads
  exact ⟨grids, hgrids.scheduled schedule (hreads.length ▸ hcover)⟩

end Runs

/-- Only the check of the rows refuses a grid: planning, computing and stacking do not fail, however
the rows are dealt out. -/
theorem TraceGrid.runs_end [Sample α] [Transform α] (grid : TraceGrid α) (schedule : Nat → Schedule)
    (hcover : (schedule grid.rowCount).Covers grid.rowCount) :
    grid.Ends (GridPolarExtractor.runScheduled schedule grid) ∧
      (∀ k : GridPolarExtractor, grid.Ends (k.run grid)) ∧
        ∀ k : AttributeExtractor α,
          grid.Ends (k.runScheduled schedule grid) ∧ grid.Ends (k.runGrid grid) :=
  ⟨GridPolarExtractor.runScheduled_ends hcover,
    fun _ => GridPolarExtractor.runScheduled_ends (Schedule.ofParallel_covers _ _),
    fun k => ⟨k.runScheduled_ends hcover, k.runScheduled_ends (Schedule.ofParallel_covers _ _)⟩⟩

/-- The last row is wrong as well, and is computed first. -/
theorem TraceGrid.runs_end_ragged :
    Schedule.Covers [[2], [0, 1]] 3 ∧
      GridPolarExtractor.runScheduled (fun _ => [[2], [0, 1]])
        (.rows #[#[1, 2], #[3], #[4, 5, 6]] : TraceGrid Float) = .error (.raggedGrid 1 2 1) := by
  have hcover : Schedule.Covers [[2], [0, 1]] 3 := by
    rw [Schedule.Covers]
    decide
  have hfirst : (TraceGrid.rows #[#[1, 2], #[3], #[4, 5, 6]] : TraceGrid Float).readRow 0 =
      .ok #[1, 2] := rfl
  have hsecond : (TraceGrid.rows #[#[1, 2], #[3], #[4, 5, 6]] : TraceGrid Float).readRow 1 =
      .ok #[3] := rfl
  have hfault : (TraceGrid.rows #[#[1, 2], #[3], #[4, 5, 6]] : TraceGrid Float).FirstFault 1
      (.raggedGrid 1 2 1) := by
    refine ⟨by decide, .ragged hfirst hsecond (by simp), fun i hi => ?_⟩
    obtain rfl := Nat.lt_one_iff.1 hi
    exact not_rowFault_zero hfirst
  have hends := TraceGrid.runs_end (.rows #[#[1, 2], #[3], #[4, 5, 6]] : TraceGrid Float)
    (fun _ => [[2], [0, 1]]) hcover
  exact ⟨hcover, (hends.1.error_iff _).2 (.inl ⟨1, hfault⟩)⟩

end AnalyticTrace
