import AnalyticTrace.Contract.Case
import AnalyticTrace.Contract.Metrics
import AnalyticTrace.Contract.Reply

namespace AnalyticTrace

/-- A case held against the reference. -/
structure Row (α : Type) where
  caseId : String
  samples : Nat
  deviation : Metrics α
  candidateNs : α
  baselineNs : α
  referenceNs : α
  speedupOverBaseline : α
  speedupOverReference : α
  deriving DecidableEq, Repr

/-- The versions of the reference that a run reports. -/
structure Versions where
  interpreter : String
  arrays : String
  signal : String
  deriving DecidableEq, Repr

def ReplyVersions.reported (v : ReplyVersions) : Versions :=
  ⟨v.interpreter, v.arrays, v.signal.getD "unknown"⟩

/-- Why a case got no row. -/
inductive RecordError where
  | referenceFailed (status : Int) (complaint : String)
  | undecodable
  | lengths (caseId : String) (candidate baseline reference : Nat)
  deriving DecidableEq, Repr

def RecordError.message : RecordError → String
  | referenceFailed status complaint =>
    s!"reference script failed (exit status: {status}): {complaint}"
  | undecodable => "decoding reference response"
  | lengths caseId candidate baseline reference =>
    s!"case {caseId} has mismatched output lengths: candidate={candidate}, " ++
      s!"baseline={baseline}, python={reference}"

/-- The rows so far, the cases among them that missed the tolerance, and the versions that the first
reply told. -/
structure Recorder (α : Type) where
  tolerance : α
  versions : Option Versions
  rows : List (Row α)
  failures : List String
  deriving DecidableEq, Repr

def Outcome.reply {α : Type} : Outcome α → Except RecordError (Reply α)
  | failed status complaint => .error (.referenceFailed status complaint)
  | undecodable => .error .undecodable
  | answered reply => .ok reply

variable {α : Type} [Sample α]

def Row.ofReply (case : Case α) (reply : Reply α) : Row α where
  caseId := case.id
  samples := case.candidate.size
  deviation := Metrics.compare case.candidate reply.output
  candidateNs := case.candidateNs
  baselineNs := case.baselineNs
  referenceNs := reply.averageNs
  speedupOverBaseline := case.baselineNs / case.candidateNs
  speedupOverReference := reply.averageNs / case.candidateNs

namespace Recorder

def start (tolerance : α) : Recorder α := ⟨tolerance, none, [], []⟩

/-- Keeps the versions of a reply unless an earlier one told them. -/
def note (r : Recorder α) (versions : ReplyVersions) : Recorder α :=
  { r with versions := r.versions.or (some versions.reported) }

def append (r : Recorder α) (row : Row α) : Recorder α :=
  { r with
    rows := r.rows ++ [row]
    failures :=
      if row.deviation.maxAbs > r.tolerance then r.failures ++ [row.caseId] else r.failures }

/-- Holds a case against the reply of its reference. The versions are noted even where the lengths
turn out to differ. -/
def record (case : Case α) (outcome : Outcome α) : EStateM RecordError (Recorder α) Unit := do
  match outcome.reply with
  | .error e => throw e
  | .ok reply =>
    modify (·.note reply.versions)
    if case.candidate.size = case.baseline.size ∧ case.candidate.size = reply.output.size then
      modify (·.append (Row.ofReply case reply))
    else
      throw (.lengths case.id case.candidate.size case.baseline.size reply.output.size)

end Recorder
end AnalyticTrace
