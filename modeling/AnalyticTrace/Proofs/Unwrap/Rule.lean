import AnalyticTrace.Proofs.Attribute.Lengths
import AnalyticTrace.Proofs.Sample.Binary

namespace AnalyticTrace

variable {α : Type} [Sample α]

def jumps (p : List α) : List α := List.zipWith (· - ·) p.tail p

namespace Unwrapper

def ruleWrap (u : Unwrapper α) (jump : α) : α :=
  let half := u.period / Sample.two
  let wrapped := Sample.floorMod (jump + half) u.period - half
  if wrapped == -half && decide (jump > 0) then half else wrapped

def ruleCorrection (u : Unwrapper α) (jump : α) : α :=
  if Sample.abs jump < u.discont then 0 else u.ruleWrap jump - jump

/-- Unwrapping one step after the other for the whole sequence: its jumps, their corrections, and
the sums of these, the first sample as it is. -/
def rule (u : Unwrapper α) (p : Array α) : Array α :=
  let corrections := (jumps p.toList).map u.ruleCorrection
  p.mapIdx fun i x => if i = 0 then x else x + (corrections.take i).foldl (· + ·) 0

theorem getElem_follow (u : Unwrapper α) (previous correction : α) (xs : List α) {i : Nat}
    (hi : i < xs.length) (h : i < (u.follow previous correction xs).length) :
    (u.follow previous correction xs)[i] =
      xs[i] + ((jumps (previous :: xs)).take (i + 1)).foldl u.correct correction := by
  induction xs generalizing previous correction i with
  | nil => cases hi
  | cons x xs ih =>
    cases i with
    | zero => rfl
    | succ i =>
      exact ih x (u.correct correction (x - previous)) (Nat.lt_of_succ_lt_succ hi)
        (Nat.lt_of_succ_lt_succ h)

theorem getElem_runTrace (u : Unwrapper α) (p : Array α) {i : Nat} (hi : i < p.size)
    (h : i < (u.runTrace p).size) : (u.runTrace p)[i] =
      if i = 0 then p[i] else p[i] + ((jumps p.toList).take i).foldl u.correct 0 := by
  obtain ⟨p⟩ := p
  cases p with
  | nil => cases hi
  | cons x xs =>
    cases i with
    | zero => rfl
    | succ i =>
      rw [if_neg (Nat.succ_ne_zero i)]
      exact getElem_follow u x 0 xs (Nat.lt_of_succ_lt_succ hi) (Nat.lt_of_succ_lt_succ h)

theorem getElem_rule (u : Unwrapper α) (p : Array α) {i : Nat} (hi : i < p.size)
    (h : i < (u.rule p).size) : (u.rule p)[i] =
      if i = 0 then p[i] else
        p[i] + (((jumps p.toList).take i).map u.ruleCorrection).foldl (· + ·) 0 := by
  simp only [rule, Array.getElem_mapIdx, List.map_take]

section Laws
variable [IeeeSample α]

theorem wrapJump_eq (u : Unwrapper α) (jump : α) : u.wrapJump jump = u.ruleWrap jump := by
  simp only [wrapJump, ruleWrap, IeeeSample.sub_neg, IeeeSample.add_neg]

theorem correct_eq {u : Unwrapper α} (hu : ¬Sample.IsNan u.discont) {correction jump : α}
    (hzero : correction + 0 = correction) (hjump : ¬Sample.IsNan jump) :
    u.correct correction jump = correction + u.ruleCorrection jump := by
  have habs : ¬Sample.IsNan (Sample.abs jump) := fun h => hjump (IeeeSample.abs_nan_iff.1 h)
  have hle := IeeeSample.le_iff_not_lt hu habs
  rw [correct, ruleCorrection, ← wrapJump_eq]
  by_cases hlt : Sample.abs jump < u.discont
  · rw [if_pos hlt, hzero, if_neg fun h => hle.1 h hlt]
  · rw [if_neg hlt, if_pos (hle.2 hlt)]

theorem foldl_correct_eq {u : Unwrapper α} (hu : ¬Sample.IsNan u.discont) {ds : List α}
    (hds : ∀ d ∈ ds, ¬Sample.IsNan d) {correction : α} (hzero : correction + 0 = correction) :
    ds.foldl u.correct correction = (ds.map u.ruleCorrection).foldl (· + ·) correction := by
  -- A correction that is skipped is one of zero; only a negative zero would not survive it.
  induction ds generalizing correction with
  | nil => rfl
  | cons d ds ih =>
    rw [List.foldl_cons, List.map_cons, List.foldl_cons,
      correct_eq hu hzero (hds d List.mem_cons_self)]
    exact ih (fun d hd => hds d (List.mem_cons_of_mem _ hd)) (IeeeSample.add_add_zero hzero)

theorem nan_foldl_of_nan {cs : List α} {start : α} (h : Sample.IsNan start) :
    Sample.IsNan (cs.foldl (· + ·) start) := by
  induction cs generalizing start with
  | nil => exact h
  | cons c cs ih => exact ih (IeeeSample.nan_add h)

theorem nan_foldl {cs : List α} {c : α} (hc : c ∈ cs) (h : Sample.IsNan c) (start : α) :
    Sample.IsNan (cs.foldl (· + ·) start) := by
  induction cs generalizing start with
  | nil => cases hc
  | cons b cs ih =>
    rw [List.foldl_cons]
    cases hc with
    | head => exact nan_foldl_of_nan (IeeeSample.add_nan h)
    | tail _ hc => exact ih hc _

theorem nan_ruleCorrection (u : Unwrapper α) {jump : α} (h : Sample.IsNan jump) :
    Sample.IsNan (u.ruleCorrection jump) := by
  have hlt : ¬Sample.abs jump < u.discont := fun hlt =>
    (IeeeSample.not_nan_of_lt hlt).1 (IeeeSample.abs_nan_iff.2 h)
  rw [ruleCorrection, if_neg hlt]
  exact IeeeSample.sub_nan h

theorem discont_not_nan {config : Config α} {u : Unwrapper α} (h : ofConfig config = .ok u) :
    ¬Sample.IsNan u.discont := by
  rw [ofConfig] at h
  split at h
  · cases h
  · rename_i hperiod
    have hfinite : Sample.isFinite config.period = true := by
      cases hf : Sample.isFinite config.period with
      | true => rfl
      | false => simp [hf] at hperiod
    have hhalf := IeeeSample.half_not_nan hfinite
    cases hd : config.discont with
    | none =>
      rw [hd] at h
      cases h
      exact hhalf
    | some d =>
      rw [hd] at h
      simp only at h
      split at h
      · cases h
        exact IeeeSample.max_not_nan hhalf
      · cases h

theorem runTrace_eq_rule_of_jumps {u : Unwrapper α} (hu : ¬Sample.IsNan u.discont) {p : Array α}
    {i : Nat} (hi : i < (u.runTrace p).size) (hi' : i < (u.rule p).size)
    (hjumps : ∀ d ∈ (jumps p.toList).take i, ¬Sample.IsNan d) :
    (u.runTrace p)[i] = (u.rule p)[i] := by
  have hp : i < p.size := size_runTrace u p ▸ hi
  rw [getElem_runTrace u p hp, getElem_rule u p hp,
    foldl_correct_eq hu hjumps IeeeSample.zero_add_zero]

theorem rule_nan_of_jump {u : Unwrapper α} {p : Array α} {i : Nat} (hi : i < (u.rule p).size)
    {d : α} (hd : d ∈ (jumps p.toList).take i) (hnan : Sample.IsNan d) :
    Sample.IsNan (u.rule p)[i] := by
  have hp : i < p.size := by rwa [rule, Array.size_mapIdx] at hi
  have hzero : i ≠ 0 := by
    rintro rfl
    cases hd
  rw [getElem_rule u p hp, if_neg hzero]
  exact IeeeSample.add_nan (nan_foldl (List.mem_map_of_mem hd) (nan_ruleCorrection u hnan) 0)

/-- A jump that is not a number is left out, where by the rule it spoils all samples from there on.
Up to there both are equal, and from there on they agree where the output is not a number. -/
theorem runTrace_eq_rule {u : Unwrapper α}
    (hu : (∃ config, ofConfig config = .ok u) ∨ u = ⟨Sample.pi, Sample.twoPi⟩) (p : Array α) :
    (u.runTrace p).size = p.size ∧ (u.rule p).size = p.size ∧
      ∀ i (hi : i < (u.runTrace p).size) (hi' : i < (u.rule p).size),
        ((∀ d ∈ (jumps p.toList).take i, ¬Sample.IsNan d) → (u.runTrace p)[i] = (u.rule p)[i]) ∧
        (Sample.Same (u.runTrace p)[i] (u.rule p)[i] ↔
          (∀ d ∈ (jumps p.toList).take i, ¬Sample.IsNan d) ∨ Sample.IsNan (u.runTrace p)[i]) := by
  have hdiscont : ¬Sample.IsNan u.discont := by
    obtain ⟨config, hconfig⟩ | rfl := hu
    · exact discont_not_nan hconfig
    · exact IeeeSample.pi_not_nan
  refine ⟨size_runTrace u p, by rw [rule, Array.size_mapIdx], fun i hi hi' => ?_⟩
  have heq := runTrace_eq_rule_of_jumps hdiscont hi hi'
  refine ⟨heq, ?_⟩
  by_cases hjumps : ∀ d ∈ (jumps p.toList).take i, ¬Sample.IsNan d
  · exact iff_of_true (.inl (heq hjumps)) (.inl hjumps)
  · obtain ⟨d, hd⟩ := not_forall.1 hjumps
    obtain ⟨hd, hnan⟩ := Classical.not_imp.1 hd
    have hrule := rule_nan_of_jump hi' hd (Classical.not_not.1 hnan)
    rw [or_iff_right hjumps]
    constructor
    · rintro (h | h)
      · rw [h]
        exact hrule
      · exact h.1
    · intro h
      exact .inr ⟨h, hrule⟩

end Laws

theorem runTrace_eq_rule_four :
    ofConfig (α := Float) {} = .ok ⟨Sample.twoPi / Sample.two, Sample.twoPi⟩ ∧
      (runTrace ⟨Sample.twoPi / Sample.two, Sample.twoPi⟩ #[(0 : Float), 4])[1] =
        (rule ⟨Sample.twoPi / Sample.two, Sample.twoPi⟩ #[(0 : Float), 4])[1] := by
  have hconfig : ofConfig (α := Float) {} = .ok ⟨Sample.twoPi / Sample.two, Sample.twoPi⟩ := rfl
  obtain ⟨-, -, hrule⟩ := runTrace_eq_rule (.inl ⟨{}, hconfig⟩) #[0, 4]
  refine ⟨hconfig, (hrule 1 (by decide) (by decide)).1 fun d hd => ?_⟩
  obtain rfl := List.mem_singleton.1 hd
  decide +kernel

/-- After a sample that is not a number the next one is kept as it is. -/
theorem unwrap_ne_rule_nan :
    (unwrap #[(0 : Float), 0 / 0, 1])[2] = 1 ∧
      Sample.IsNan (rule ⟨Sample.pi, Sample.twoPi⟩ #[(0 : Float), 0 / 0, 1])[2] ∧
      ¬Sample.Same (unwrap #[(0 : Float), 0 / 0, 1])[2]
        (rule ⟨Sample.pi, Sample.twoPi⟩ #[(0 : Float), 0 / 0, 1])[2] := by
  have hunwrap : (unwrap #[(0 : Float), 0 / 0, 1])[2] = 1 := by decide +kernel
  have hrule : Sample.IsNan (rule ⟨Sample.pi, Sample.twoPi⟩ #[(0 : Float), 0 / 0, 1])[2] :=
    rule_nan_of_jump (by decide) (d := 0 / 0 - 0) List.mem_cons_self (by decide +kernel)
  have hone : ¬Sample.IsNan (1 : Float) := by decide +kernel
  refine ⟨hunwrap, hrule, ?_⟩
  rw [hunwrap]
  rintro (h | h)
  · rw [← h] at hrule
    exact hone hrule
  · exact hone h.1

end Unwrapper
end AnalyticTrace
