import AnalyticTrace.Attribute.Extractor
import AnalyticTrace.Grid.Rows

namespace AnalyticTrace

variable {α : Type} [Sample α] [Transform α]

/-- The analytic signal of a trace, computed in the workspace. -/
def analyticIn (plan : Plan) (trace : Array α) :
    EStateM RunError (Workspace α) (Array (Cplx α)) := do
  plan.analytic trace
  return (← get).data

/-- Reads phase, envelope and Hilbert component off every trace of a grid. -/
structure GridPolarExtractor where
  parallel : Bool := true
  deriving DecidableEq, Repr

namespace GridPolarExtractor

def task (plan : Plan) : RowTask α := fun trace => do
  let polar := Polar.ofAnalytic (← analyticIn plan trace)
  return [polar.phase, polar.envelope, polar.hilbert]

def runScheduled (schedule : Nat → Schedule) (grid : TraceGrid α) :
    Except RunError (Polar (Grid α)) := do
  match ← driveRows schedule 3 task grid with
  | phase :: envelope :: hilbert :: _ => return ⟨phase, envelope, hilbert⟩
  | _ => throw (.invalidState "grid driver returned fewer outputs than requested")

def run (k : GridPolarExtractor) (grid : TraceGrid α) : Except RunError (Polar (Grid α)) :=
  runScheduled (Schedule.ofParallel k.parallel) grid

end GridPolarExtractor

namespace AttributeExtractor

def task (k : AttributeExtractor α) (plan : Plan) : RowTask α := fun trace => do
  if k.needsAnalytic then return k.select trace (← analyticIn plan trace)
  else return k.select trace #[]

def runScheduled (k : AttributeExtractor α) (schedule : Nat → Schedule) (grid : TraceGrid α) :
    Except RunError (List (Grid α)) :=
  driveRows schedule k.attributes.length k.task grid

/-- One grid per attribute, in the order of the list. -/
def runGrid (k : AttributeExtractor α) (grid : TraceGrid α) : Except RunError (List (Grid α)) :=
  k.runScheduled (Schedule.ofParallel k.parallel) grid

end AttributeExtractor

def traceGridAttributes (grid : TraceGrid α) : Except RunError (Polar (Grid α)) :=
  GridPolarExtractor.run {} grid

def gridAttributes (grid : TraceGrid α) (attributes : List Attribute) (dt : α) :
    Except RunError (List (Grid α)) := do
  let k ← (AttributeExtractor.ofConfig ⟨attributes, dt, true⟩).mapError RunError.config
  k.runGrid grid

end AnalyticTrace
