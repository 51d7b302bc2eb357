import Mathlib.Data.List.Induction
import AnalyticTrace.Proofs.Contract.Verdict

namespace AnalyticTrace

/-- A call of a recorder: a case, and what became of the call of its reference. -/
structure Call (α : Type) where
  case : Case α
  outcome : Outcome α

namespace Call

variable {α : Type}

/-- What the reference told, none where it ended badly or wrote nothing that can be decoded. -/
def reply? (c : Call α) : Option (Reply α) :=
  match c.outcome with
  | .answered reply => some reply
  | _ => none

/-- Candidate, baseline and reference have equally many samples. -/
def Fits (c : Call α) (reply : Reply α) : Prop :=
  c.case.candidate.size = c.case.baseline.size ∧ c.case.candidate.size = reply.output.size

instance (c : Call α) (reply : Reply α) : Decidable (c.Fits reply) :=
  inferInstanceAs (Decidable (_ ∧ _))

def accepted (c : Call α) : Bool := c.reply?.any fun reply => decide (c.Fits reply)

theorem filter_accepted_concat {calls : List (Call α)} {c : Call α} (h : ¬c.accepted) :
    (calls ++ [c]).filter accepted = calls.filter accepted := by
  rw [List.filter_append, List.filter_cons_of_neg h, List.filter_nil, List.append_nil]

/-- Only what a reference that ended well has written is looked at. -/
theorem reply?_ofProcess (case : Case Float) (status : Int) (output complaint : String) :
    reply? ⟨case, .ofProcess status output complaint⟩ =
      if status = 0 then Reply.decode? output else none := by
  simp only [reply?, Outcome.ofProcess]
  by_cases hstatus : status = 0
  · rw [if_pos hstatus, if_pos hstatus]
    cases Reply.decode? output with
    | none => rfl
    | some reply => rfl
  · rw [if_neg hstatus, if_neg hstatus]

end Call

variable {α : Type} [Sample α]

namespace Recorder

/-- How a call ends, and the recorder that it leaves behind. -/
def call (r : Recorder α) (c : Call α) : Except RecordError Unit × Recorder α :=
  match record c.case c.outcome r with
  | .ok _ r' => (.ok (), r')
  | .error e r' => (.error e, r')

/-- The recorder after calls made one after the other, whether or not they fail. -/
def after (r : Recorder α) (calls : List (Call α)) : Recorder α :=
  calls.foldl (fun r c => (r.call c).2) r

theorem call_unanswered (r : Recorder α) {c : Call α} (h : c.reply? = none) :
    ∃ e, r.call c = (.error e, r) := by
  obtain ⟨case, outcome⟩ := c
  cases outcome with
  | failed status complaint => exact ⟨_, rfl⟩
  | undecodable => exact ⟨_, rfl⟩
  | answered reply => cases h

theorem call_answered (r : Recorder α) {c : Call α} {reply : Reply α}
    (h : c.reply? = some reply) :
    r.call c =
      if c.Fits reply then (.ok (), (r.note reply.versions).append (Row.ofReply c.case reply))
      else (.error (.lengths c.case.id c.case.candidate.size c.case.baseline.size
        reply.output.size), r.note reply.versions) := by
  obtain ⟨case, outcome⟩ := c
  cases outcome with
  | failed status complaint => cases h
  | undecodable => cases h
  | answered told =>
    cases h
    have hrecord := record_answered case reply r
    rw [call]
    by_cases hfits : Call.Fits ⟨case, .answered reply⟩ reply
    · rw [if_pos hfits, hrecord.trans (if_pos hfits)]
    · rw [if_neg hfits, hrecord.trans (if_neg hfits)]

/-- When a call fails, and what it leaves alone then. -/
structure Answers (r : Recorder α) (c : Call α) : Prop where
  succeeds_iff : (r.call c).1 = .ok () ↔ c.accepted
  fails_iff : (∃ e, (r.call c).1 = .error e) ↔
    c.reply? = none ∨ ∃ reply, c.reply? = some reply ∧ ¬c.Fits reply
  unanswered : c.reply? = none → (r.call c).2 = r
  mismatched : ∀ reply, c.reply? = some reply → ¬c.Fits reply →
    (r.call c).2.rows = r.rows ∧ (r.call c).2.failures = r.failures

theorem answers (r : Recorder α) (c : Call α) : r.Answers c := by
  cases hreply : c.reply? with
  | none =>
    obtain ⟨e, hcall⟩ := r.call_unanswered hreply
    exact {
      succeeds_iff := by simp [hcall, hreply, Call.accepted]
      fails_iff := by simp [hcall, hreply]
      unanswered := fun _ => by rw [hcall]
      mismatched := by simp [hreply] }
  | some reply =>
    have hcall := r.call_answered hreply
    by_cases hfits : c.Fits reply
    · rw [if_pos hfits] at hcall
      exact {
        succeeds_iff := by simp [hcall, hreply, hfits, Call.accepted]
        fails_iff := by simp [hcall, hreply, hfits]
        unanswered := by simp [hreply]
        mismatched := by simp [hreply, hfits] }
    · rw [if_neg hfits] at hcall
      exact {
        succeeds_iff := by simp [hcall, hreply, hfits, Call.accepted]
        fails_iff := by simp [hcall, hreply, hfits]
        unanswered := by simp [hreply]
        mismatched := fun _ _ _ => by simp [hcall, note] }

/-- The row that a call is due: it bears the case's name and measures the candidate against the
reply. -/
structure Due (c : Call α) (row : Row α) : Prop where
  caseId : row.caseId = c.case.id
  samples : row.samples = c.case.candidate.size
  deviation : ∃ reply, c.reply? = some reply ∧
    row.deviation = Metrics.compare c.case.candidate reply.output

/-- What a recorder of the given tolerance holds after calls: a row for each accepted one, the names
of the rows that exceed the tolerance, and the versions that the first reply told, accepted or
not. -/
structure Holds (r : Recorder α) (tolerance : α) (calls : List (Call α)) : Prop where
  tolerance_eq : r.tolerance = tolerance
  rows : List.Forall₂ Due (calls.filter Call.accepted) r.rows
  failures : r.failures =
    (r.rows.filter fun row => row.deviation.maxAbs > tolerance).map Row.caseId
  versions : r.versions = (calls.findSome? Call.reply?).map fun reply =>
    ⟨reply.versions.interpreter, reply.versions.arrays, reply.versions.signal.getD "unknown"⟩

section Steps
variable {r : Recorder α} {tolerance : α} {calls : List (Call α)} {c : Call α} {reply : Reply α}

theorem Holds.unanswered (h : r.Holds tolerance calls) (hreply : c.reply? = none) :
    r.Holds tolerance (calls ++ [c]) where
  tolerance_eq := h.tolerance_eq
  rows := by
    rw [Call.filter_accepted_concat (by simp [Call.accepted, hreply])]
    exact h.rows
  failures := h.failures
  versions := by
    rw [h.versions, List.findSome?_append, List.findSome?_singleton, hreply, Option.or_none]

/-- The versions are kept from a reply of any length. -/
theorem Holds.versions_note (h : r.Holds tolerance calls) (hreply : c.reply? = some reply) :
    (r.note reply.versions).versions = ((calls ++ [c]).findSome? Call.reply?).map fun reply =>
      ⟨reply.versions.interpreter, reply.versions.arrays,
        reply.versions.signal.getD "unknown"⟩ := by
  rw [note, h.versions, List.findSome?_append, List.findSome?_singleton, hreply, Option.map_or]
  rfl

theorem Holds.mismatched (h : r.Holds tolerance calls) (hreply : c.reply? = some reply)
    (hfits : ¬c.Fits reply) : (r.note reply.versions).Holds tolerance (calls ++ [c]) where
  tolerance_eq := h.tolerance_eq
  rows := by
    rw [Call.filter_accepted_concat (by simp [Call.accepted, hreply, hfits])]
    exact h.rows
  failures := h.failures
  versions := h.versions_note hreply

theorem Holds.recorded (h : r.Holds tolerance calls) (hreply : c.reply? = some reply)
    (hfits : c.Fits reply) :
    ((r.note reply.versions).append (Row.ofReply c.case reply)).Holds tolerance
      (calls ++ [c]) where
  tolerance_eq := h.tolerance_eq
  rows := by
    have haccepted : c.accepted := by simp [Call.accepted, hreply, hfits]
    have hdue : Due c (Row.ofReply c.case reply) := ⟨rfl, rfl, reply, hreply, rfl⟩
    rw [List.filter_append, List.filter_cons_of_pos haccepted, List.filter_nil]
    exact List.rel_append h.rows (.cons hdue .nil)
  failures := by
    simp only [append, note, List.filter_append, List.map_append, ← h.failures, h.tolerance_eq]
    split
    · rename_i hexceeds
      simp [hexceeds]
    · rename_i hwithin
      simp [hwithin]
  versions := h.versions_note hreply

theorem Holds.call (h : r.Holds tolerance calls) (c : Call α) :
    (r.call c).2.Holds tolerance (calls ++ [c]) := by
  cases hreply : c.reply? with
  | none =>
    obtain ⟨e, hcall⟩ := r.call_unanswered hreply
    rw [hcall]
    exact h.unanswered hreply
  | some reply =>
    rw [r.call_answered hreply]
    split
    · exact h.recorded hreply ‹_›
    · exact h.mismatched hreply ‹_›

end Steps

theorem holds_start (tolerance : α) : (start tolerance).Holds tolerance [] :=
  ⟨rfl, .nil, rfl, rfl⟩

theorem after_concat (r : Recorder α) (calls : List (Call α)) (c : Call α) :
    r.after (calls ++ [c]) = ((r.after calls).call c).2 := by
  rw [after, List.foldl_concat]
  rfl

theorem holds_after (tolerance : α) (calls : List (Call α)) :
    ((start tolerance).after calls).Holds tolerance calls := by
  induction calls using List.reverseRecOn with
  | nil => exact holds_start tolerance
  | append_singleton calls c ih =>
    rw [after_concat]
    exact ih.call c

theorem versions_after_append (tolerance : α) (calls more : List (Call α)) {v : Versions}
    (h : ((start tolerance).after calls).versions = some v) :
    ((start tolerance).after (calls ++ more)).versions = some v := by
  rw [(holds_after tolerance calls).versions] at h
  rw [(holds_after tolerance (calls ++ more)).versions, List.findSome?_append, Option.map_or, h,
    Option.some_or]

/-- After any calls a recorder holds what these calls are due, the next call fails if and only if
its reference does or the lengths differ, and the versions stay what they are. -/
theorem after_start (tolerance : α) (calls : List (Call α)) :
    ((start tolerance).after calls).Holds tolerance calls ∧
      (∀ c, ((start tolerance).after calls).Answers c ∧
        (start tolerance).after (calls ++ [c]) = (((start tolerance).after calls).call c).2) ∧
      ∀ more v, ((start tolerance).after calls).versions = some v →
        ((start tolerance).after (calls ++ more)).versions = some v :=
  ⟨holds_after tolerance calls, fun c => ⟨answers _ c, after_concat _ calls c⟩,
    fun more _ => versions_after_append tolerance calls more⟩

end Recorder
end AnalyticTrace
