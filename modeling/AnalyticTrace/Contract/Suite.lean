import AnalyticTrace.Contract.Table
import AnalyticTrace.Contract.Trial

namespace AnalyticTrace

/-- Why a contract run did not pass. -/
inductive SuiteError (α : Type) where
  | trial (cause : TrialError)
  | record (cause : RecordError)
  | noReply
  | exceeded (tolerance : α) (ids : List String)
  deriving DecidableEq, Repr

/-- What a contract run writes. -/
structure Summary (α : Type) where
  tolerance : α
  versions : Versions
  rows : List (Row α)
  deriving DecidableEq, Repr

/-- What a contract run wrote, if it came so far, and how it ended. -/
structure ContractRun (α : Type) where
  summary : Option (Summary α)
  verdict : Except (SuiteError α) Unit

def SuiteError.message : SuiteError Float → String
  | trial cause => cause.message
  | record cause => cause.message
  | noReply => "no contract case reached the python reference"
  | exceeded tolerance ids =>
    s!"{ids.length} contract case(s) exceeded max-abs tolerance " ++
      s!"{Decimal.text Decimal.exact tolerance}: " ++ ", ".intercalate ids

variable {α : Type} [Sample α]

def contractTolerance : α := 1e-9

/-- Summary and verdict of a recorder that has seen all cases. -/
def ContractRun.ofRecorder (r : Recorder α) : ContractRun α :=
  match r.versions with
  | none => ⟨none, .error .noReply⟩
  | some versions =>
    { summary := some ⟨r.tolerance, versions, r.rows⟩
      verdict := if r.failures.isEmpty then .ok () else .error (.exceeded r.tolerance r.failures) }

/-- A run that broke off has written nothing. -/
def ContractRun.ofResult : EStateM.Result (SuiteError α) (Recorder α) Unit → ContractRun α
  | .ok _ r => .ofRecorder r
  | .error e _ => ⟨none, .error e⟩

variable [Transform α]

/-- Runs trials in order; the first that gets no row ends the run. -/
def recordTrials (durations : Trial → α × α) (reference : Trial → Outcome α) :
    List Trial → EStateM (SuiteError α) (Recorder α) Unit
  | [] => pure ()
  | t :: ts => do
    match t.case (durations t) with
    | .error e => throw (.trial e)
    | .ok case =>
      (Recorder.record case (reference t)).adaptExcept SuiteError.record
      recordTrials durations reference ts

/-- Runs all trials against a reference. -/
def runContracts (durations : Trial → α × α) (reference : Trial → Outcome α) : ContractRun α :=
  .ofResult (recordTrials durations reference Trial.all (Recorder.start contractTolerance))

end AnalyticTrace
