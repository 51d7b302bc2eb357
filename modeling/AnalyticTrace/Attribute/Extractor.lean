import AnalyticTrace.Attribute.Basic
import AnalyticTrace.Attribute.Polar
import AnalyticTrace.Gradient
import AnalyticTrace.Unwrap

namespace AnalyticTrace

variable {α : Type}

/-- Reads a list of attributes off traces, in the order of the list. -/
structure AttributeExtractor (α : Type) where
  attributes : List Attribute
  sampleInterval : α
  /-- Whether the rows of a grid are dealt out to several workers. -/
  parallel : Bool
  deriving DecidableEq, Repr

/-- The first position whose entry stands at an earlier one. -/
def firstRepeat : List Attribute → Option Nat :=
  go 0 []
where
  go (i : Nat) (seen : List Attribute) : List Attribute → Option Nat
    | [] => none
    | a :: as => if a ∈ seen then some i else go (i + 1) (a :: seen) as

variable [Sample α]

namespace AttributeExtractor

/-- Refuses a list that is empty or has an entry twice, and an interval that is no interval. -/
def ofConfig (config : AttributeExtractor α) : Except ConfigError (AttributeExtractor α) := do
  if config.attributes.isEmpty then throw (.emptyInput "attributes")
  if let some i := firstRepeat config.attributes then
    throw (.duplicateArgument "attributes" i)
  checkSpacing config.sampleInterval "sample_interval"
  return config

def needsAnalytic (k : AttributeExtractor α) : Bool := k.attributes.any Attribute.needsAnalytic

/-- Frequency in cycles per unit of the sample interval. -/
def frequency (dt : α) (phase : Array α) : Array α :=
  (gradient dt (unwrap phase)).map (· / Sample.twoPi)

/-- Zero where the envelope vanishes. -/
def bandwidth (dt : α) (envelope : Array α) : Array α :=
  Array.zipWith (fun d e => if e == 0 then 0 else Sample.abs d / (Sample.twoPi * e))
    (gradient dt envelope) envelope

/-- Zero where the frequency vanishes. -/
def sweetness (envelope frequency : Array α) : Array α :=
  Array.zipWith (fun e f => if f == 0 then 0 else e / Sample.sqrt (Sample.abs f))
    envelope frequency

/-- The attributes of a trace with the given analytic signal, which may be empty where no attribute
needs it. -/
def select (k : AttributeExtractor α) (x : Array α) (analytic : Array (Cplx α)) :
    List (Array α) :=
  let polar := Polar.ofAnalytic analytic
  let frequencies :=
    if Attribute.frequency ∈ k.attributes ∨ Attribute.sweetness ∈ k.attributes then
      frequency k.sampleInterval polar.phase
    else #[]
  k.attributes.map fun
    | .value => x
    | .hilbert => polar.hilbert
    | .envelope => polar.envelope
    | .phase => polar.phase
    | .frequency => frequencies
    | .bandwidth => bandwidth k.sampleInterval polar.envelope
    | .sweetness => sweetness polar.envelope frequencies

variable [Transform α]

def runTrace (k : AttributeExtractor α) (x : Array α) : Except RunError (List (Array α)) := do
  if x.isEmpty then throw (.invalidLength "x")
  if !k.needsAnalytic then return k.select x #[]
  let plan ← (Plan.ofLength x.size).mapError RunError.ofTransform
  let analytic ← (plan.workspace (Array.replicate plan.length 0)).finish (plan.analytic x)
  return k.select x analytic

def run (k : AttributeExtractor α) (input : Buffer α) : Except RunError (List (Array α)) := do
  k.runTrace (← input.read.mapError RunError.config)

end AttributeExtractor
end AnalyticTrace
