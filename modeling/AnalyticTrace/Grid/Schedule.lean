import AnalyticTrace.Fourier.Plan

namespace AnalyticTrace

/-- The rows of every worker, in the order in which it computes them. -/
abbrev Schedule := List (List Nat)

namespace Schedule

/-- Every row is computed once. -/
def Covers (s : Schedule) (rows : Nat) : Prop := s.flatten.Perm (List.range rows)

def sequential (rows : Nat) : Schedule := [List.range rows]

/-- The rows dealt out in turn. -/
def dealt (workers rows : Nat) : Schedule :=
  (List.range workers).map fun w => (List.range rows).filter (· % workers = w)

def workers : Nat := 4

def ofParallel (parallel : Bool) : Nat → Schedule :=
  if parallel then dealt workers else sequential

end Schedule

/-- Computes the outputs of one trace; the workspace is whatever the trace before it left. -/
abbrev RowTask (α : Type) := Array α → EStateM RunError (Workspace α) (List (Array α))

variable {α : Type}

/-- The rows of one worker, computed one after the other in one workspace. -/
def runWorker (task : RowTask α) (traces : Array (Array α)) :
    List Nat → EStateM RunError (Workspace α) (List (Nat × List (Array α)))
  | [] => pure []
  | i :: is => do
    match traces[i]? with
    | none => runWorker task traces is
    | some trace =>
      let outputs ← task trace
      return (i, outputs) :: (← runWorker task traces is)

/-- The outputs of every row, each worker starting with the given workspace. -/
def runSchedule (schedule : Schedule) (fresh : Workspace α) (task : RowTask α)
    (traces : Array (Array α)) : Except RunError (List (Nat × List (Array α))) := do
  let results ← schedule.mapM fun rows =>
    match runWorker task traces rows fresh with
    | .ok results _ => Except.ok results
    | .error e _ => .error e
  return results.flatten

/-- The outputs in the order of the rows. -/
def inRowOrder (rows : Nat) (results : List (Nat × List (Array α))) :
    Except RunError (List (List (Array α))) :=
  (List.range rows).mapM fun i =>
    match results.lookup i with
    | some outputs => .ok outputs
    | none => .error (.invalidState "trace outputs do not fill the grid")

end AnalyticTrace
