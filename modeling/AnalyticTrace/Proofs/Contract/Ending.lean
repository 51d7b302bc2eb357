import AnalyticTrace.Contract.Suite
import AnalyticTrace.Proofs.Contract.Calls
import AnalyticTrace.Proofs.Contract.Samples

namespace AnalyticTrace

variable {α : Type}

namespace Trial

/-- The reference has answered with as many samples as the trial has. -/
def Met (t : Trial) (outcome : Outcome α) : Prop :=
  ∃ reply, outcome = .answered reply ∧ reply.output.size = t.samples

/-- Why a trial gets no row. -/
inductive Refused (t : Trial) : Outcome α → RecordError → Prop where
  | failed (status : Int) (complaint : String) :
    Refused t (.failed status complaint) (.referenceFailed status complaint)
  | undecodable : Refused t .undecodable .undecodable
  | lengths (reply : Reply α) (h : reply.output.size ≠ t.samples) :
    Refused t (.answered reply) (.lengths t.id t.samples t.samples reply.output.size)

/-- A trial is refused and all before it are met. -/
def FirstRefused (reference : Trial → Outcome α) (t : Trial) (e : RecordError) : Prop :=
  ∃ done rest : List Trial, all = done ++ t :: rest ∧ (∀ d ∈ done, d.Met (reference d)) ∧
    t.Refused (reference t) e

theorem exists_refused {t : Trial} {outcome : Outcome α} (h : ¬t.Met outcome) :
    ∃ e, t.Refused outcome e := by
  cases outcome with
  | failed status complaint => exact ⟨_, .failed status complaint⟩
  | undecodable => exact ⟨_, .undecodable⟩
  | answered reply => exact ⟨_, .lengths reply fun hsize => h ⟨reply, rfl, hsize⟩⟩

theorem met_or_firstRefused (reference : Trial → Outcome α) :
    (∀ t ∈ all, t.Met (reference t)) ∨ ∃ t e, FirstRefused reference t e := by
  classical
  cases hfind : all.find? fun t => ¬t.Met (reference t) with
  | none =>
    left
    simpa using hfind
  | some t =>
    right
    obtain ⟨ht, done, rest, hall, hdone⟩ := List.find?_eq_some_iff_append.1 hfind
    obtain ⟨e, he⟩ := exists_refused (decide_eq_true_iff.1 ht)
    exact ⟨t, e, done, rest, hall, by simpa using hdone, he⟩

end Trial

theorem Call.outcome_of_reply {c : Call α} {reply : Reply α} (h : c.reply? = some reply) :
    c.outcome = .answered reply := by
  obtain ⟨case, outcome⟩ := c
  cases outcome with
  | failed status complaint => cases h
  | undecodable => cases h
  | answered told =>
    cases h
    rfl

variable [Sample α]

theorem Recorder.record_of_accepted {call : Call α} (h : call.accepted) (r : Recorder α) :
    record call.case call.outcome r = .ok () (r.call call).2 := by
  have hsucceeds := (r.answers call).succeeds_iff.2 h
  rw [Recorder.call] at hsucceeds ⊢
  cases hrecord : record call.case call.outcome r with
  | ok _ r' => rfl
  | error e r' =>
    rw [hrecord] at hsucceeds
    cases hsucceeds

/-- The cases of a summary that miss its tolerance. -/
def Summary.exceeding (summary : Summary α) : List String :=
  (summary.rows.filter fun row => row.deviation.maxAbs > summary.tolerance).map Row.caseId

theorem Summary.exceeding_eq_nil {summary : Summary α} :
    summary.exceeding = [] ↔ ∀ row ∈ summary.rows, ¬row.deviation.maxAbs > summary.tolerance := by
  simp only [exceeding, List.map_eq_nil_iff, List.filter_eq_nil_iff, decide_eq_true_eq]

variable [Transform α]

section Steps
variable {t : Trial} {durations : α × α} {c : Case α} {outcome : Outcome α}

theorem Trial.Gives.record_of_refused (hc : t.Gives durations c) {e : RecordError}
    (h : t.Refused outcome e) (r : Recorder α) :
    ∃ r', Recorder.record c outcome r = .error e r' := by
  cases h with
  | failed status complaint => exact ⟨r, rfl⟩
  | undecodable => exact ⟨r, rfl⟩
  | lengths reply hsize =>
    rw [Recorder.record_answered, hc.size_candidate, hc.size_baseline, hc.id,
      if_neg fun hsizes => hsize hsizes.2.symm]
    exact ⟨_, rfl⟩

theorem Trial.Gives.accepted_of_met (hc : t.Gives durations c) (h : t.Met outcome) :
    Call.accepted ⟨c, outcome⟩ := by
  obtain ⟨reply, rfl, hsize⟩ := h
  have hfits : Call.Fits ⟨c, .answered reply⟩ reply :=
    ⟨hc.size_candidate.trans hc.size_baseline.symm, hc.size_candidate.trans hsize.symm⟩
  simp [Call.accepted, Call.reply?, hfits]

end Steps

section Runs
variable {durations : Trial → α × α} {reference : Trial → Outcome α} {case : Trial → Case α}

theorem recordTrials_of_refused {t : Trial} (hc : t.Gives (durations t) (case t)) {e : RecordError}
    (h : t.Refused (reference t) e) (ts : List Trial) (r : Recorder α) :
    ∃ r', recordTrials durations reference (t :: ts) r = .error (.record e) r' := by
  obtain ⟨r', hrecord⟩ := hc.record_of_refused h r
  refine ⟨r', ?_⟩
  rw [recordTrials, hc.case]
  exact bind_of_error (adaptExcept_of_error _ hrecord)

theorem recordTrials_of_met {t : Trial} (hc : t.Gives (durations t) (case t))
    (h : t.Met (reference t)) (ts : List Trial) (r : Recorder α) :
    recordTrials durations reference (t :: ts) r =
      recordTrials durations reference ts (r.call ⟨case t, reference t⟩).2 := by
  have hrecord := Recorder.record_of_accepted (hc.accepted_of_met h) r
  rw [recordTrials, hc.case]
  exact bind_of_ok (adaptExcept_of_ok _ hrecord)

/-- The calls that trials come down to. -/
def callsOf (case : Trial → Case α) (reference : Trial → Outcome α) (ts : List Trial) :
    List (Call α) :=
  ts.map fun t => ⟨case t, reference t⟩

variable (hcase : ∀ t : Trial, t.Gives (durations t) (case t))
include hcase

theorem recordTrials_append {done : List Trial} (hdone : ∀ d ∈ done, d.Met (reference d))
    (rest : List Trial) (r : Recorder α) :
    recordTrials durations reference (done ++ rest) r =
      recordTrials durations reference rest (r.after (callsOf case reference done)) := by
  induction done generalizing r with
  | nil => rfl
  | cons t ts ih =>
    rw [List.cons_append, recordTrials_of_met (hcase t) (hdone t List.mem_cons_self),
      ih fun d hd => hdone d (List.mem_cons_of_mem t hd)]
    rfl

theorem runContracts_of_refused {t : Trial} {e : RecordError}
    (h : Trial.FirstRefused reference t e) :
    runContracts durations reference = ⟨none, .error (.record e)⟩ := by
  obtain ⟨done, rest, hall, hdone, ht⟩ := h
  obtain ⟨r', hrun⟩ := recordTrials_of_refused (hcase t) ht rest
    ((Recorder.start contractTolerance).after (callsOf case reference done))
  rw [runContracts, hall, recordTrials_append hcase hdone, hrun]
  rfl

end Runs

/-- The row of a trial measures what the library computed against what the reference answered. -/
structure Trial.RowOf (reference : Trial → Outcome α) (t : Trial) (row : Row α) : Prop where
  caseId : row.caseId = t.id
  samples : row.samples = t.samples
  deviation : ∃ candidate reply, t.candidate = .ok candidate ∧ reference t = .answered reply ∧
    row.deviation = Metrics.compare candidate reply.output

/-- A run to the end writes a row for every trial, and only then looks at the tolerance. -/
structure Completes (reference : Trial → Outcome α) (run : ContractRun α) (summary : Summary α) :
    Prop where
  written : run.summary = some summary
  tolerance : summary.tolerance = contractTolerance
  versions : ∃ reply, reference .forward = .answered reply ∧ summary.versions =
    ⟨reply.versions.interpreter, reply.versions.arrays, reply.versions.signal.getD "unknown"⟩
  rows : List.Forall₂ (Trial.RowOf reference) Trial.all summary.rows
  passes : run.verdict = .ok () ↔
    ∀ row ∈ summary.rows, ¬row.deviation.maxAbs > summary.tolerance
  exceeds : ∀ e, run.verdict = .error e → e = .exceeded summary.tolerance summary.exceeding

/-- What a recorder holds once all trials are met. -/
structure Recorder.Full (r : Recorder α) (reference : Trial → Outcome α) : Prop where
  tolerance : r.tolerance = contractTolerance
  rows : List.Forall₂ (Trial.RowOf reference) Trial.all r.rows
  failures : ∀ versions, r.failures = Summary.exceeding ⟨r.tolerance, versions, r.rows⟩
  versions : ∃ reply, reference .forward = .answered reply ∧
    r.versions = some reply.versions.reported

theorem Recorder.Full.completes {r : Recorder α} {reference : Trial → Outcome α}
    (h : r.Full reference) : ∃ summary, Completes reference (.ofRecorder r) summary := by
  obtain ⟨reply, hreply, hversions⟩ := h.versions
  have hfailures := h.failures reply.versions.reported
  rw [ContractRun.ofRecorder, hversions]
  refine ⟨⟨r.tolerance, _, r.rows⟩, rfl, h.tolerance, ⟨reply, hreply, rfl⟩, h.rows, ?_, ?_⟩
  · rw [← Summary.exceeding_eq_nil, ← hfailures]
    cases r.failures with
    | nil => exact iff_of_true rfl rfl
    | cons id ids => exact iff_of_false nofun nofun
  · intro e he
    rw [← hfailures]
    cases hids : r.failures with
    | nil =>
      rw [hids] at he
      cases he
    | cons id ids =>
      rw [hids] at he
      cases he
      rfl

section Runs
variable {durations : Trial → α × α} {reference : Trial → Outcome α} {case : Trial → Case α}
variable (hcase : ∀ t : Trial, t.Gives (durations t) (case t))
include hcase

theorem rowOf_of_due {t : Trial} {row : Row α} (h : Recorder.Due ⟨case t, reference t⟩ row) :
    t.RowOf reference row := by
  obtain ⟨reply, hreply, hdeviation⟩ := h.deviation
  exact ⟨h.caseId.trans (hcase t).id, h.samples.trans (hcase t).size_candidate, _, reply,
    (hcase t).candidate, Call.outcome_of_reply hreply, hdeviation⟩

theorem accepted_of_mem_callsOf {ts : List Trial} (h : ∀ t ∈ ts, t.Met (reference t)) :
    ∀ c ∈ callsOf case reference ts, c.accepted := by
  intro c hc
  obtain ⟨t, ht, rfl⟩ := List.mem_map.1 hc
  exact (hcase t).accepted_of_met (h t ht)

theorem full_of_holds (h : ∀ t ∈ Trial.all, t.Met (reference t)) {r : Recorder α}
    (hholds : r.Holds contractTolerance (callsOf case reference Trial.all)) :
    r.Full reference where
  tolerance := hholds.tolerance_eq
  rows := by
    -- Every call is accepted, so the rows stand against the trials themselves.
    have hdue := hholds.rows
    rw [List.filter_eq_self.2 (accepted_of_mem_callsOf hcase h), callsOf,
      List.forall₂_map_left_iff] at hdue
    exact hdue.imp fun _ _ => rowOf_of_due hcase
  failures _ := by rw [hholds.failures, Summary.exceeding, hholds.tolerance_eq]
  versions := by
    obtain ⟨reply, hreply, -⟩ := h .forward List.mem_cons_self
    have hfirst : Call.reply? ⟨case .forward, reference .forward⟩ = some reply := by
      rw [hreply]
      rfl
    refine ⟨reply, hreply, ?_⟩
    rw [hholds.versions, callsOf, Trial.all, List.map_cons, List.findSome?_cons, hfirst]
    rfl

theorem runContracts_of_met (h : ∀ t ∈ Trial.all, t.Met (reference t)) :
    ∃ summary, Completes reference (runContracts durations reference) summary := by
  have hholds := Recorder.holds_after contractTolerance (callsOf case reference Trial.all)
  have hrun := recordTrials_append hcase h [] (Recorder.start contractTolerance)
  rw [List.append_nil] at hrun
  rw [runContracts, hrun]
  exact (full_of_holds hcase h hholds).completes

end Runs

theorem checkSpacing_sampleInterval :
    checkSpacing (Trial.sampleInterval : Float) "sample_interval" = .ok () :=
  if_neg (by decide +kernel)

theorem exceeded_message (ids : List String) :
    (SuiteError.exceeded contractTolerance ids).message =
      s!"{ids.length} contract case(s) exceeded max-abs tolerance 1e-9: " ++
        ", ".intercalate ids := by
  have htext : Decimal.text Decimal.exact contractTolerance = "1e-9" := by decide +kernel
  have hjoined : " contract case(s) exceeded max-abs tolerance " ++ ("1e-9" ++ ": ") =
      " contract case(s) exceeded max-abs tolerance 1e-9: " := rfl
  rw [SuiteError.message, htext]
  exact congrArg (· ++ _) ((String.append_assoc ..).trans (congrArg (_ ++ ·) hjoined))

/-- A run breaks off at the first trial whose reference fails or has other lengths, and writes
nothing; a run that comes to the end writes everything and passes unless a row exceeds the
tolerance. One of the two happens, so there always is a reply to tell the versions. -/
theorem runContracts_ends [Transform Float] (durations : Trial → Float × Float)
    (reference : Trial → Outcome Float) :
    Trial.all.map Trial.samples =
        [1024, 1022, 1024, 1022, 511, 511, 511, 400, 512, 512, 14400] ∧
      (∀ t e, Trial.FirstRefused reference t e →
        runContracts durations reference = ⟨none, .error (.record e)⟩) ∧
      ((∀ t ∈ Trial.all, t.Met (reference t)) →
        ∃ summary, Completes reference (runContracts durations reference) summary) ∧
      ((∀ t ∈ Trial.all, t.Met (reference t)) ∨ ∃ t e, Trial.FirstRefused reference t e) ∧
      (contractTolerance : Float) = 1e-9 ∧
      (∀ ids, (SuiteError.exceeded contractTolerance ids).message =
        s!"{ids.length} contract case(s) exceeded max-abs tolerance 1e-9: " ++
          ", ".intercalate ids) ∧
      (runContracts durations reference).verdict ≠ .error .noReply := by
  choose case hcase using fun t : Trial =>
    t.exists_gives checkSpacing_sampleInterval (durations t)
  have hends := Trial.met_or_firstRefused reference
  refine ⟨rfl, fun _ _ => runContracts_of_refused hcase, runContracts_of_met hcase, hends, rfl,
    exceeded_message, fun hverdict => ?_⟩
  obtain hmet | ⟨t, e, hrefused⟩ := hends
  · obtain ⟨summary, hsummary⟩ := runContracts_of_met hcase hmet
    cases hsummary.exceeds _ hverdict
  · rw [runContracts_of_refused hcase hrefused] at hverdict
    cases hverdict

/-- The second trial expects 1022 samples. -/
theorem runContracts_ends_second :
    runContracts (fun _ => ((100 : Float), 250)) (fun t =>
        .answered ⟨if t = .forward then Array.replicate 1024 0 else #[], 50, ⟨"3", "2", none⟩⟩) =
      ⟨none, .error (.record (.lengths "ifft_511_f64" 1022 1022 0))⟩ := by
  obtain ⟨-, hrefused, -⟩ := runContracts_ends (fun _ => (100, 250)) fun t =>
    .answered ⟨if t = .forward then Array.replicate 1024 0 else #[], 50, ⟨"3", "2", none⟩⟩
  refine hrefused .inverse _ ⟨[.forward], _, rfl, fun d hd => ?_, .lengths _ (by decide)⟩
  cases List.mem_singleton.1 hd
  exact ⟨_, rfl, Array.size_replicate⟩

end AnalyticTrace
