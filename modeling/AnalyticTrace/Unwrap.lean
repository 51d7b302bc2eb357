import AnalyticTrace.Sample.Basic
import AnalyticTrace.Storage.Buffer

namespace AnalyticTrace

variable {α : Type}

/-- Removes jumps from a sequence that is known up to multiples of a period. -/
structure Unwrapper (α : Type) where
  discont : α
  period : α
  deriving DecidableEq, Repr

variable [Sample α]

namespace Unwrapper

structure Config (α : Type) [Sample α] where
  /-- The least jump that is removed; half a period unless larger. -/
  discont : Option α := none
  period : α := Sample.twoPi

def ofConfig (config : Config α) : Except ConfigError (Unwrapper α) :=
  if !Sample.isFinite config.period || decide (config.period ≤ 0) then
    .error (.invalidArgument "period" "period must be finite and > 0")
  else
    let half := config.period / Sample.two
    match config.discont with
    | none => .ok ⟨half, config.period⟩
    | some d =>
      if Sample.isFinite d then .ok ⟨Sample.max d half, config.period⟩
      else .error (.invalidArgument "discont" "discont must be finite")

/-- The representative of a jump within half a period of zero; an upward jump of half a period is
kept upward. -/
def wrapJump (u : Unwrapper α) (jump : α) : α :=
  let high := u.period / Sample.two
  let low := -high
  let wrapped := Sample.floorMod (jump - low) u.period + low
  if wrapped == low && decide (jump > 0) then high else wrapped

/-- The correction after a jump, given the one before it. -/
def correct (u : Unwrapper α) (correction jump : α) : α :=
  if Sample.abs jump ≥ u.discont then correction + (u.wrapJump jump - jump) else correction

/-- The samples after `previous`, each moved by all corrections so far. -/
def follow (u : Unwrapper α) : α → α → List α → List α
  | _, _, [] => []
  | previous, correction, x :: xs =>
    let correction := u.correct correction (x - previous)
    (x + correction) :: u.follow x correction xs

def runList (u : Unwrapper α) : List α → List α
  | [] => []
  | x :: xs => x :: u.follow x 0 xs

def runTrace (u : Unwrapper α) (p : Array α) : Array α := (u.runList p.toList).toArray

/-- Writes the first sample as it is. -/
def writeFirst {n : Nat} (p out : Vector α (n + 1)) : α × Vector α (n + 1) := (0, out.set 0 p[0])

/-- Takes jump `i` into the correction and writes the sample after it over its slot. -/
def writeNext (u : Unwrapper α) {n : Nat} (p : Vector α (n + 1)) (s : α × Vector α (n + 1))
    (i : Fin n) : α × Vector α (n + 1) :=
  let correction := u.correct s.1 (p[i.val + 1] - p[i.val])
  (correction, s.2.set (i + 1) (p[i.val + 1] + correction))

/-- Writes the unwrapped sequence over `out`, slot by slot. -/
def write (u : Unwrapper α) {n : Nat} (p out : Vector α n) : Vector α n :=
  match n with
  | 0 => out
  | n + 1 => (Fin.foldl n (u.writeNext p) (writeFirst p out)).2

def run (u : Unwrapper α) (input : Buffer α) : Except RunError (Array α) := do
  return u.runTrace (← input.read.mapError RunError.config)

def runInto (u : Unwrapper α) (input : Buffer α) : EStateM RunError (Buffer α) Unit := do
  let p ← liftRun (input.read.mapError RunError.config)
  Buffer.edit (overwrite "out" p.size (u.write p.toVector))

end Unwrapper

/-- Unwraps a phase in radians. -/
def unwrap (p : Array α) : Array α := Unwrapper.runTrace ⟨Sample.pi, Sample.twoPi⟩ p

end AnalyticTrace
