import AnalyticTrace.Analytic.Mask
import AnalyticTrace.Fourier.Plan
import AnalyticTrace.Storage.Buffer

namespace AnalyticTrace

variable {α : Type} [Sample α]

namespace Workspace

/-- Overwrites the sequence by the trace, cut off or filled up with zeros. -/
def load (trace : Array α) (w : Workspace α) : Workspace α :=
  { w with data := w.data.mapIdx fun i _ => .ofReal (trace.getD i 0) }

/-- Weighs bin `k` of `n` by the mask. -/
def applyMask (n : Nat) (w : Workspace α) : Workspace α :=
  { w with data := w.data.mapIdx fun k z => z.scale (maskWeight n k) }

end Workspace

/-- Turns the sequence of a workspace into the analytic signal of the trace. -/
def Plan.analytic [Transform α] (plan : Plan) (trace : Array α) :
    EStateM RunError (Workspace α) Unit := do
  modify (Workspace.load trace)
  plan.forward.adaptExcept RunError.ofTransform
  modify (Workspace.applyMask plan.length)
  plan.inverse.adaptExcept RunError.ofTransform

/-- Works on the given items; only the scratch space is new. -/
def Plan.writeAnalytic [Transform α] (plan : Plan) (trace : Array α) :
    EStateM RunError (Array (Cplx α)) Unit := fun items =>
  match plan.analytic trace (plan.workspace items) with
  | .ok _ w => .ok () w.data
  | .error e w => .error e w.data

/-- Builds analytic signals, of a set number of Fourier components if there is one. -/
structure HilbertTransformer where
  components : Option Nat
  components_ne_zero : components ≠ some 0
  deriving DecidableEq, Repr

namespace HilbertTransformer

def ofComponents (n : Option Nat) : Except ConfigError HilbertTransformer :=
  if h : n = some 0 then
    .error (.invalidArgument "n" "number of Fourier components must be > 0")
  else .ok ⟨n, h⟩

def outputLength (t : HilbertTransformer) (inputLength : Nat) : Nat :=
  t.components.getD inputLength

def plan (t : HilbertTransformer) (inputLength : Nat) : Except RunError Plan :=
  if t.outputLength inputLength = 0 then .error (.invalidLength "x")
  else (Plan.ofLength (t.outputLength inputLength)).mapError RunError.ofTransform

variable [Transform α]

/-- The analytic signal of a trace. -/
def runTrace (t : HilbertTransformer) (x : Array α) : Except RunError (Array (Cplx α)) := do
  let plan ← t.plan x.size
  (plan.workspace (Array.replicate plan.length 0)).finish (plan.analytic x)

def run (t : HilbertTransformer) (input : Buffer α) : Except RunError (Array (Cplx α)) := do
  t.runTrace (← input.read.mapError RunError.config)

/-- Works in the caller's storage. -/
def runInto (t : HilbertTransformer) (input : Buffer α) :
    EStateM RunError (Buffer (Cplx α)) Unit := do
  let x ← liftRun (input.read.mapError RunError.config)
  let plan ← liftRun (t.plan x.size)
  Buffer.edit do
    expectLength "out" plan.length
    plan.writeAnalytic x

end HilbertTransformer

variable [Transform α]

def analyticSignal (x : Array α) : Except RunError (Array (Cplx α)) := do
  let t ← (HilbertTransformer.ofComponents none).mapError RunError.config
  t.runTrace x

/-- The analytic signal of a strided array, gathered first unless it is contiguous. -/
def hilbert (x : Strided α) (n : Option Nat) : Except RunError (Array (Cplx α)) := do
  let t ← (HilbertTransformer.ofComponents n).mapError RunError.config
  if x.contiguous then t.run (.array x) else t.run (.list x.toArray)

end AnalyticTrace
