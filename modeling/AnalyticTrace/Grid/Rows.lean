import AnalyticTrace.Analytic.Signal
import AnalyticTrace.Grid.Schedule
import AnalyticTrace.Storage.Grid
import AnalyticTrace.Storage.TraceGrid

namespace AnalyticTrace

variable {α : Type}

namespace TraceGrid

def readTrace (grid : TraceGrid α) (i : Nat) : Except RunError (Array α) :=
  (grid.readRow i).mapError .config

/-- A trace that must be as long as the first one. -/
def readAlike (grid : TraceGrid α) (samples i : Nat) : Except RunError (Array α) := do
  let trace ← grid.readTrace i
  if trace.size = samples then return trace
  else throw (.raggedGrid i samples trace.size)

/-- All traces, of one length that is not zero. -/
def readAll (grid : TraceGrid α) : Except RunError (List (Array α)) :=
  if grid.rowCount = 0 then .ok []
  else do
    let first ← grid.readTrace 0
    let rest ← (List.range' 1 (grid.rowCount - 1)).mapM (grid.readAlike first.size)
    if first.isEmpty then throw (.invalidLength "grid")
    return first :: rest

end TraceGrid

/-- The `k`-th outputs of all rows under each other. -/
def stackOutput (cols : Nat) (rows : List (List (Array α))) (k : Nat) :
    Except RunError (Grid α) :=
  let column := rows.map fun outputs => outputs.getD k #[]
  match Grid.ofData? rows.length cols column.toArray.flatten with
  | some grid => .ok grid
  | none => .error (.invalidState "trace outputs do not fill the grid")

/-- One grid for every output of a row. -/
def stackOutputs (outputs cols : Nat) (rows : List (List (Array α))) :
    Except RunError (List (Grid α)) :=
  if rows.all (·.length = outputs) then
    (List.range outputs).mapM (stackOutput cols rows)
  else .error (.invalidState "trace produced an unexpected number of outputs")

variable [Sample α] [Transform α]

/-- Computes every trace of a grid by a task for its length and stacks the outputs. -/
def driveRows (schedule : Nat → Schedule) (outputs : Nat) (task : Plan → RowTask α)
    (grid : TraceGrid α) : Except RunError (List (Grid α)) := do
  let traces ← grid.readAll
  match traces with
  | [] => return List.replicate outputs (Grid.empty (grid.colCount?.getD 0))
  | first :: _ =>
    let plan ← (Plan.ofLength first.size).mapError RunError.ofTransform
    let fresh := plan.workspace (Array.replicate plan.length 0)
    let results ← runSchedule (schedule traces.length) fresh (task plan) traces.toArray
    stackOutputs outputs first.size (← inRowOrder traces.length results)

end AnalyticTrace
