import AnalyticTrace.Sample.Basic
import AnalyticTrace.Storage.Buffer

namespace AnalyticTrace

variable {α : Type}

/-- Derivative along a sequence of evenly spaced samples. -/
structure Differentiator (α : Type) where
  spacing : α
  deriving DecidableEq, Repr

variable [Sample α]

def checkSpacing (h : α) (arg : String) : Except ConfigError Unit :=
  if !Sample.isFinite h || decide (h ≤ 0) then
    .error (.invalidArgument arg "sample spacing must be finite and > 0")
  else .ok ()

/-- Central differences after `a, b`; the last sample takes the difference to the one before. -/
def centralDifferences (h : α) : α → α → List α → List α
  | a, b, [] => [(b - a) / h]
  | a, b, c :: cs => (c - a) / (h + h) :: centralDifferences h b c cs

/-- One-sided at both ends, central inside, zero for a single sample. -/
def gradientList (h : α) : List α → List α
  | [] => []
  | [_] => [0]
  | a :: b :: cs => (b - a) / h :: centralDifferences h a b cs

def gradient (h : α) (x : Array α) : Array α := (gradientList h x.toList).toArray

/-- Writes the one-sided differences over the ends of `out`. -/
def writeEnds (h : α) {n : Nat} (x out : Vector α (n + 2)) : Vector α (n + 2) :=
  (out.set 0 ((x[1] - x[0]) / h)).set (n + 1) ((x[n + 1] - x[n]) / h)

/-- Writes the central difference over the slot after slot `i`. -/
def writeCentral (h : α) {n : Nat} (x out : Vector α (n + 2)) (i : Fin n) : Vector α (n + 2) :=
  out.set (i + 1) ((x[i.val + 2] - x[i.val]) / (h + h))

/-- Writes the derivative over `out`, first at both ends, then slot by slot between them. -/
def writeGradient (h : α) {n : Nat} (x out : Vector α n) : Vector α n :=
  match n with
  | 0 => out
  | 1 => out.set 0 0
  | n + 2 => Fin.foldl n (writeCentral h x) (writeEnds h x out)

namespace Differentiator

structure Config (α : Type) [Sample α] where
  spacing : α := 1

def ofConfig (config : Config α) : Except ConfigError (Differentiator α) := do
  checkSpacing config.spacing "spacing"
  return ⟨config.spacing⟩

def runTrace (d : Differentiator α) (x : Array α) : Array α := gradient d.spacing x

def run (d : Differentiator α) (input : Buffer α) : Except RunError (Array α) := do
  return d.runTrace (← input.read.mapError RunError.config)

def runInto (d : Differentiator α) (input : Buffer α) : EStateM RunError (Buffer α) Unit := do
  let x ← liftRun (input.read.mapError RunError.config)
  Buffer.edit (overwrite "out" x.size (writeGradient d.spacing x.toVector))

end Differentiator

/-- The derivative of a trace sampled every `dt`. -/
def timeDerivative (x : Array α) (dt : α) : Except RunError (Array α) := do
  let d ← (Differentiator.ofConfig ⟨dt⟩).mapError RunError.config
  return d.runTrace x

end AnalyticTrace
