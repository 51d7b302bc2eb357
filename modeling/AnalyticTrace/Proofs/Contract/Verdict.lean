import AnalyticTrace.Contract.Recorder
import AnalyticTrace.Proofs.Sample.Binary
import AnalyticTrace.Proofs.Steps

namespace AnalyticTrace

variable {α : Type} [Sample α]

namespace Metrics

theorem mem_differences {a b : Array α} {d : α} : d ∈ differences a b ↔
    ∃ i, ∃ (ha : i < a.size) (hb : i < b.size), Sample.abs (a[i] - b[i]) = d := by
  rw [differences, List.mem_iff_getElem]
  constructor
  · rintro ⟨i, hi, rfl⟩
    have hmin : i < min a.size b.size := by simpa using hi
    obtain ⟨ha, hb⟩ := Nat.lt_min.1 hmin
    exact ⟨i, ha, hb, by simp⟩
  · rintro ⟨i, ha, hb, rfl⟩
    exact ⟨i, by simpa using ⟨ha, hb⟩, by simp⟩

theorem largest_foldl (ds : List α) (t : Tally α) :
    (ds.foldl Tally.add t).largest = ds.foldl Sample.max t.largest := by
  induction ds generalizing t with
  | nil => rfl
  | cons d ds ih => exact ih (t.add d)

variable [IeeeSample α]

theorem lt_foldl_max_iff {tolerance : α} (ds : List α) (start : α) :
    tolerance < ds.foldl Sample.max start ↔
      tolerance < start ∨ ∃ d ∈ ds, tolerance < d := by
  induction ds generalizing start with
  | nil => exact ⟨.inl, fun h => h.resolve_right nofun⟩
  | cons d ds ih =>
    rw [List.foldl_cons, ih, IeeeSample.lt_max_iff, List.exists_mem_cons_iff, or_assoc]

theorem lt_maxAbs_iff {tolerance : α} (h : 0 ≤ tolerance) (a b : Array α) :
    tolerance < (compare a b).maxAbs ↔ ∃ d ∈ differences a b, tolerance < d := by
  rw [compare, largest_foldl, lt_foldl_max_iff]
  exact or_iff_right (IeeeSample.le_iff.1 h).2.2

end Metrics

namespace Recorder

theorem record_answered (case : Case α) (reply : Reply α) (r : Recorder α) :
    record case (.answered reply) r =
      if case.candidate.size = case.baseline.size ∧ case.candidate.size = reply.output.size then
        .ok () ((r.note reply.versions).append (Row.ofReply case reply))
      else
        .error (.lengths case.id case.candidate.size case.baseline.size reply.output.size)
          (r.note reply.versions) := by
  have hrun : record case (.answered reply) r =
      (if case.candidate.size = case.baseline.size ∧ case.candidate.size = reply.output.size then
        modify fun r : Recorder α => r.append (Row.ofReply case reply)
      else
        throw (RecordError.lengths case.id case.candidate.size case.baseline.size
          reply.output.size) : EStateM RecordError (Recorder α) Unit)
        (r.note reply.versions) := rfl
  rw [hrun]
  split
  · rfl
  · rfl

theorem record_eq_ok {case : Case α} {outcome : Outcome α} {r r' : Recorder α} :
    record case outcome r = .ok () r' ↔ ∃ reply : Reply α, outcome = .answered reply ∧
      (case.candidate.size = case.baseline.size ∧ case.candidate.size = reply.output.size) ∧
      r' = (r.note reply.versions).append (Row.ofReply case reply) := by
  cases outcome with
  | failed status complaint => exact ⟨nofun, nofun⟩
  | undecodable => exact ⟨nofun, nofun⟩
  | answered reply =>
    rw [record_answered]
    constructor
    · intro h
      split at h
      · cases h
        exact ⟨reply, rfl, ‹_›, rfl⟩
      · cases h
    · rintro ⟨_, ⟨⟩, hsizes, rfl⟩
      rw [if_pos hsizes]

theorem append_failures_eq_iff {r : Recorder α} {row : Row α} :
    (r.append row).failures = r.failures ↔ ¬r.tolerance < row.deviation.maxAbs := by
  rw [append]
  constructor
  · intro h hlt
    simp only [gt_iff_lt, if_pos hlt] at h
    exact List.cons_ne_nil _ _ (List.append_right_eq_self.1 h)
  · intro h
    exact if_neg h

theorem append_failures (r : Recorder α) (row : Row α) :
    (r.append row).failures = r.failures ∨
      (r.append row).failures = r.failures ++ [row.caseId] := by
  by_cases h : r.tolerance < row.deviation.maxAbs
  · exact .inr (if_pos h)
  · exact .inl (if_neg h)

end Recorder

def Case.Agrees (case : Case α) (output : Array α) (tolerance : α) : Prop :=
  ∀ i (hc : i < case.candidate.size) (ho : i < output.size),
    Sample.abs (case.candidate[i] - output[i]) ≤ tolerance

theorem Case.agrees_iff {case : Case α} {output : Array α} {tolerance : α} :
    case.Agrees output tolerance ↔
      ∀ d ∈ Metrics.differences case.candidate output, d ≤ tolerance := by
  constructor
  · intro h d hd
    obtain ⟨i, hc, ho, rfl⟩ := Metrics.mem_differences.1 hd
    exact h i hc ho
  · intro h i hc ho
    exact h _ (Metrics.mem_differences.2 ⟨i, hc, ho, rfl⟩)

section Verdict
variable [IeeeSample α] {ds : List α} {tolerance : α}

theorem not_lt_iff_le_or_nan (h : 0 ≤ tolerance) (d : α) :
    ¬tolerance < d ↔ d ≤ tolerance ∨ Sample.IsNan d := by
  have htolerance := (IeeeSample.le_iff.1 h).2.1
  constructor
  · intro hlt
    by_cases hd : Sample.IsNan d
    · exact .inr hd
    · exact .inl ((IeeeSample.le_iff_not_lt hd htolerance).2 hlt)
  · rintro (hle | hd) hlt
    · exact (IeeeSample.le_iff.1 hle).2.2 hlt
    · exact (IeeeSample.not_nan_of_lt hlt).2 hd

theorem forall_not_lt_iff_forall_le (h : 0 ≤ tolerance) :
    ((∀ d ∈ ds, ¬tolerance < d) ↔ ∀ d ∈ ds, d ≤ tolerance) ↔
      (∀ d ∈ ds, ¬Sample.IsNan d) ∨ ∃ d ∈ ds, tolerance < d := by
  constructor
  · intro hiff
    by_cases hlt : ∃ d ∈ ds, tolerance < d
    · exact .inr hlt
    · have hle := hiff.1 fun d hd hd' => hlt ⟨d, hd, hd'⟩
      exact .inl fun d hd => (IeeeSample.le_iff.1 (hle d hd)).1
  · rintro (hnan | ⟨d, hd, hlt⟩)
    · exact forall₂_congr fun d hd =>
        (not_lt_iff_le_or_nan h d).trans (or_iff_left (hnan d hd))
    · refine iff_of_false (fun hall => hall d hd hlt) fun hall => ?_
      exact (IeeeSample.le_iff.1 (hall d hd)).2.2 hlt

/-- A recorded case is left out of the failures if none of its differences exceeds the tolerance.
So a case left out agrees, unless some difference is not a number. -/
theorem Recorder.record_failures {case : Case α} {outcome : Outcome α} {r r' : Recorder α}
    (hrun : record case outcome r = .ok () r') (htolerance : 0 ≤ r.tolerance) :
    ∃ reply : Reply α, outcome = .answered reply ∧ case.candidate.size = reply.output.size ∧
      (r'.failures = r.failures ∨ r'.failures = r.failures ++ [case.id]) ∧
      (r'.failures = r.failures ↔
        ∀ d ∈ Metrics.differences case.candidate reply.output, ¬r.tolerance < d) ∧
      ((r'.failures = r.failures ↔ case.Agrees reply.output r.tolerance) ↔
        (∀ d ∈ Metrics.differences case.candidate reply.output, ¬Sample.IsNan d) ∨
          ∃ d ∈ Metrics.differences case.candidate reply.output, r.tolerance < d) := by
  obtain ⟨reply, rfl, ⟨-, hsize⟩, rfl⟩ := record_eq_ok.1 hrun
  have hverdict : ((r.note reply.versions).append (Row.ofReply case reply)).failures =
      r.failures ↔ ∀ d ∈ Metrics.differences case.candidate reply.output, ¬r.tolerance < d := by
    refine append_failures_eq_iff.trans ?_
    refine (not_congr (Metrics.lt_maxAbs_iff htolerance _ _)).trans ?_
    simp only [not_exists, not_and]
  refine ⟨reply, rfl, hsize, append_failures _ _, hverdict, ?_⟩
  rw [hverdict, Case.agrees_iff]
  exact forall_not_lt_iff_forall_le htolerance

theorem Recorder.record_failures_half :
    ∃ r' : Recorder Float,
      record ⟨"half", #[1], 100, #[1], 250⟩ (.answered ⟨#[1.5], 50, ⟨"3", "2", none⟩⟩)
          (.start 0.125) = .ok () r' ∧
        (0 : Float) ≤ 0.125 ∧
        (r'.failures = [] ↔ Case.Agrees ⟨"half", #[1], 100, #[1], 250⟩ #[1.5] (0.125 : Float)) := by
  have htolerance : (0 : Float) ≤ 0.125 := by decide +kernel
  obtain ⟨r', hrun⟩ : ∃ r' : Recorder Float,
      record ⟨"half", #[1], 100, #[1], 250⟩ (.answered ⟨#[1.5], 50, ⟨"3", "2", none⟩⟩)
        (.start 0.125) = .ok () r' := ⟨_, rfl⟩
  obtain ⟨reply, hreply, -, -, -, hiff⟩ := Recorder.record_failures hrun htolerance
  cases hreply
  exact ⟨r', hrun, htolerance, hiff.2 (.inr ⟨_, List.mem_cons_self, by decide +kernel⟩)⟩

/-- A sample that is not a number passes. -/
theorem Recorder.record_passes_nan :
    ∃ r' : Recorder Float,
      record ⟨"nan", #[0 / 0], 100, #[0], 250⟩ (.answered ⟨#[0], 50, ⟨"3", "2", none⟩⟩)
          (.start 1e-9) = .ok () r' ∧
        r'.failures = [] ∧ ¬Case.Agrees ⟨"nan", #[0 / 0], 100, #[0], 250⟩ #[0] (1e-9 : Float) := by
  refine ⟨_, rfl, by decide +kernel, fun h => ?_⟩
  exact absurd (h 0 (by decide) (by decide)) (by decide +kernel)

end Verdict
end AnalyticTrace
