import AnalyticTrace.Analytic.Signal

namespace AnalyticTrace

variable {α : Type}

/-- An analytic signal in polar coordinates, and its imaginary part. -/
structure Polar (β : Type) where
  phase : β
  envelope : β
  hilbert : β
  deriving DecidableEq, Repr

variable [Sample α]

/-- The angle of an analytic sample, with `-pi` folded onto `pi`. -/
def phaseOf (z : Cplx α) : α :=
  let p := z.arg
  if p == -Sample.pi then Sample.pi else p

namespace Polar

def ofAnalytic (y : Array (Cplx α)) : Polar (Array α) where
  phase := y.map phaseOf
  envelope := y.map Cplx.norm
  hilbert := y.map Cplx.im

/-- Writes what `f` reads off the samples over the items at their positions. -/
def writeOver (f : Cplx α → α) (y : Array (Cplx α)) (out : Array α) : Array α :=
  out.mapIdx fun i old => (y[i]?.map f).getD old

end Polar

/-- Reads phase, envelope and Hilbert component off single traces. -/
structure PolarExtractor where
  transformer : HilbertTransformer
  deriving DecidableEq, Repr

/-- Fails at the first output whose length is not the expected one. -/
def checkLengths (expected : Nat) : List (String × Nat) → Except RunError Unit
  | [] => .ok ()
  | (arg, got) :: rest =>
    if got = expected then checkLengths expected rest
    else .error (.lengthMismatch arg expected got)

namespace PolarExtractor

def ofComponents (n : Option Nat) : Except ConfigError PolarExtractor := do
  return ⟨← HilbertTransformer.ofComponents n⟩

variable [Transform α]

def runTrace (k : PolarExtractor) (x : Array α) : Except RunError (Polar (Array α)) := do
  return .ofAnalytic (← k.transformer.runTrace x)

def run (k : PolarExtractor) (input : Buffer α) : Except RunError (Polar (Array α)) := do
  k.runTrace (← input.read.mapError RunError.config)

/-- All three outputs are bound and measured before anything is computed. -/
def runInto (k : PolarExtractor) (input : Buffer α) :
    EStateM RunError (Polar (Buffer α)) Unit := do
  let x ← liftRun (input.read.mapError RunError.config)
  let expected := k.transformer.outputLength x.size
  let out ← get
  let phase ← liftRun (out.phase.window.mapError RunError.config)
  let envelope ← liftRun (out.envelope.window.mapError RunError.config)
  let hilbert ← liftRun (out.hilbert.window.mapError RunError.config)
  liftRun (checkLengths expected
    [("phase", phase.size), ("envelope", envelope.size), ("hilbert", hilbert.size)])
  let y ← liftRun (k.transformer.runTrace x)
  set { phase := out.phase.store (Polar.writeOver phaseOf y phase),
        envelope := out.envelope.store (Polar.writeOver Cplx.norm y envelope),
        hilbert := out.hilbert.store (Polar.writeOver Cplx.im y hilbert) : Polar (Buffer α) }

end PolarExtractor

variable [Transform α]

def instantaneousAttributes (x : Array α) : Except RunError (Polar (Array α)) := do
  let k ← (PolarExtractor.ofComponents none).mapError RunError.config
  k.runTrace x

end AnalyticTrace
