import AnalyticTrace.Contract.Suite
import AnalyticTrace.Sample.Float

namespace AnalyticTrace

/-- The nanoseconds that a computation takes. -/
def clock (work : Unit → Except RunError (Array Float)) : IO Float := do
  let start ← IO.monoNanosNow
  let _ ← IO.lazyPure work
  let stop ← IO.monoNanosNow
  return Float.ofNat (stop - start)

def clockTrials : IO (List (Trial × Float × Float)) :=
  Trial.all.mapM fun t => do
    let candidate ← clock fun _ => t.candidate
    let baseline ← clock fun _ => t.baseline
    return (t, candidate, baseline)

/-- One reply a line, in the order of the trials. A missing line is a reference that failed. -/
def readOutcomes : IO (List (Trial × Outcome Float)) := do
  let input ← IO.getStdin
  Trial.all.mapM fun t => do
    let line ← input.getLine
    return (t, Outcome.ofProcess (if line.isEmpty then 1 else 0) line "no reply")

/-- Holds the trials against the replies on standard input and writes the rows to standard
output. -/
def contracts : IO UInt32 := do
  let outcomes ← readOutcomes
  let durations ← clockTrials
  let run := runContracts (fun t => (durations.lookup t).getD (1, 1))
    (fun t => (outcomes.lookup t).getD .undecodable)
  if let some summary := run.summary then
    IO.print (table summary.rows)
  match run.verdict with
  | .ok _ => return 0
  | .error e =>
    IO.eprintln s!"Error: {e.message}"
    return 1

def usage : String :=
  "Usage:\n" ++
    "  contracts   compare every trial with the reference replies on standard input, one a line\n"

def commandLine : List String → IO UInt32
  | "contracts" :: _ => contracts
  | _ => do
    IO.eprint usage
    return 0

end AnalyticTrace

def main (args : List String) : IO UInt32 := AnalyticTrace.commandLine args
