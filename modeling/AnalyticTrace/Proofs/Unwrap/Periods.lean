import AnalyticTrace.Proofs.Unwrap.Jumps

namespace AnalyticTrace.Unwrapper

section Exact
variable [Angle] {u : Unwrapper ℝ}

/-- The least jump that is removed: half a period, or more if so configured. -/
noncomputable def Config.threshold (config : Config ℝ) : ℝ :=
  config.discont.elim (config.period / Sample.two) (max · (config.period / Sample.two))

theorem Config.threshold_eq (config : Config ℝ) :
    config.threshold = config.discont.elim (config.period / 2) (max · (config.period / 2)) := by
  rw [threshold, two_eq]

theorem max_eq (a b : ℝ) : Sample.max a b = max a b := by
  rw [Sample.max]
  by_cases h : b < a
  · rw [if_pos h, max_eq_left h.le]
  · rw [if_neg h, if_pos (beq_self_eq_true b), max_eq_right (not_lt.1 h)]

theorem ofConfig_eq_ok {config : Config ℝ} :
    ofConfig config = .ok u ↔ 0 < config.period ∧ u = ⟨config.threshold, config.period⟩ := by
  obtain ⟨discont, period⟩ := config
  by_cases hperiod : 0 < period
  · cases discont with
    | none =>
      simp [ofConfig, Sample.isFinite, Config.threshold, hperiod, hperiod.not_ge, eq_comm]
    | some d =>
      simp [ofConfig, Sample.isFinite, Config.threshold, hperiod, hperiod.not_ge, max_eq, eq_comm]
  · simp [ofConfig, Sample.isFinite, hperiod, not_lt.1 hperiod]

theorem Config.threshold_of_le {config : Config ℝ}
    (h : ∀ d ∈ config.discont, d ≤ config.period / 2) : config.threshold = config.period / 2 := by
  rw [threshold_eq]
  cases hd : config.discont with
  | none => rfl
  | some d => exact max_eq_right (h d hd)

theorem run_of_read (u : Unwrapper ℝ) {input : Buffer ℝ} {p : Array ℝ}
    (h : input.read = .ok p) : u.run input = .ok (u.runTrace p) := by
  rw [run, h]
  rfl

section Periods
variable (hperiod : 0 < u.period)
include hperiod

/-- At the tie the jump goes up by one period more. -/
theorem exists_wrapJump_eq (jump : ℝ) : ∃ m : ℤ, u.wrapJump jump = jump + m * u.period := by
  have hwrapped : Sample.floorMod (jump - -(u.period / 2)) u.period + -(u.period / 2) =
      jump + (-⌊(jump - -(u.period / 2)) / u.period⌋ : ℤ) * u.period := by
    rw [floorMod_eq_sub hperiod]
    push_cast
    ring
  rw [wrapJump, two_eq]
  split
  · rename_i htie
    rw [Bool.and_eq_true, beq_iff_eq, hwrapped] at htie
    refine ⟨-⌊(jump - -(u.period / 2)) / u.period⌋ + 1, ?_⟩
    push_cast at htie ⊢
    linarith
  · exact ⟨_, hwrapped⟩

theorem exists_unwrapJump_eq (jump : ℝ) : ∃ m : ℤ, u.unwrapJump jump = jump + m * u.period := by
  rw [unwrapJump]
  split
  · exact exists_wrapJump_eq hperiod jump
  · exact ⟨0, by simp⟩

/-- Every jump adds whole periods to the correction. -/
theorem exists_correctionAt_eq (p : Array ℝ) {i : ℕ} (hi : i < p.size) :
    ∃ m : ℤ, u.correctionAt p i = m * u.period := by
  induction i with
  | zero => exact ⟨0, by simp [correctionAt]⟩
  | succ i ih =>
    obtain ⟨m, hm⟩ := ih (Nat.lt_of_succ_lt hi)
    obtain ⟨k, hk⟩ := exists_unwrapJump_eq hperiod (p[i + 1] - p[i])
    refine ⟨m + k, ?_⟩
    rw [correctionAt_succ u hi, correct_eq_add, hm, hk]
    push_cast
    ring

end Periods

/-- What unwrapping makes of a sequence: the first sample stays, every other one moves by whole
periods; a jump below the threshold stays, any other is brought within half a period of zero. -/
structure Unwraps (period threshold : ℝ) {n : ℕ} (p y : Vector ℝ n) : Prop where
  first : ∀ i : Fin n, i.val = 0 → y.get i = p.get i
  periods : ∀ i : Fin n, ∃ m : ℤ, y.get i - p.get i = m * period
  kept : ∀ i j : Fin n, j.val = i + 1 → |p.get j - p.get i| < threshold →
    y.get j - y.get i = p.get j - p.get i
  wrapped : ∀ i j : Fin n, j.val = i + 1 → ¬|p.get j - p.get i| < threshold →
    |y.get j - y.get i| ≤ period / 2 ∧
      ∃ m : ℤ, y.get j - y.get i = p.get j - p.get i + m * period

/-- All jumps end up within half a period if those below the threshold are. -/
theorem Unwraps.abs_sub_le {period threshold : ℝ} {n : ℕ} {p y : Vector ℝ n}
    (h : Unwraps period threshold p y) (hthreshold : threshold ≤ period / 2) {i j : Fin n}
    (hij : j.val = i + 1) : |y.get j - y.get i| ≤ period / 2 := by
  by_cases hjump : |p.get j - p.get i| < threshold
  · rw [h.kept i j hij hjump]
    exact hjump.le.trans hthreshold
  · exact (h.wrapped i j hij hjump).1

theorem unwrapJump_of_lt {jump : ℝ} (h : |jump| < u.discont) : u.unwrapJump jump = jump :=
  if_neg (not_le.2 h)

theorem unwrapJump_of_not_lt {jump : ℝ} (h : ¬|jump| < u.discont) :
    u.unwrapJump jump = u.wrapJump jump :=
  if_pos (not_lt.1 h)

noncomputable def runVector (u : Unwrapper ℝ) {n : ℕ} (p : Vector ℝ n) : Vector ℝ n :=
  ⟨u.runTrace p.toArray, (size_runTrace u p.toArray).trans p.size_toArray⟩

section Samples
variable {n : ℕ} (p : Vector ℝ n)

theorem get_runVector (u : Unwrapper ℝ) (i : Fin n) :
    (u.runVector p).get i = u.unwrappedAt p.toArray i :=
  getElem_runTrace_eq u p.toArray _

theorem get_runVector_eq_add (u : Unwrapper ℝ) (i : Fin n) :
    (u.runVector p).get i = p.get i + u.correctionAt p.toArray i := by
  have hsample : p.toArray.getD i 0 = p.get i := by simp [Vector.get]
  rw [get_runVector, unwrappedAt_eq_add, hsample]

theorem get_runVector_first (u : Unwrapper ℝ) {i : Fin n} (hi : i.val = 0) :
    (u.runVector p).get i = p.get i := by
  rw [get_runVector_eq_add, hi]
  exact add_zero _

theorem get_runVector_sub (u : Unwrapper ℝ) {i j : Fin n} (hij : j.val = i + 1) :
    (u.runVector p).get j - (u.runVector p).get i = u.unwrapJump (p.get j - p.get i) := by
  obtain ⟨j, hj⟩ := j
  obtain rfl : j = i + 1 := hij
  have hsize : i.val + 1 < p.toArray.size := p.size_toArray.symm ▸ hj
  rw [get_runVector, get_runVector]
  exact unwrappedAt_succ_sub u hsize

theorem runVector_unwraps (hperiod : 0 < u.period) :
    Unwraps u.period u.discont p (u.runVector p) where
  first i hi := get_runVector_first p u hi
  periods i := by
    have hi : i.val < p.toArray.size := i.isLt.trans_eq p.size_toArray.symm
    obtain ⟨m, hm⟩ := exists_correctionAt_eq hperiod p.toArray hi
    exact ⟨m, by rw [get_runVector_eq_add, add_sub_cancel_left, hm]⟩
  kept i j hij hjump := by
    rw [get_runVector_sub p u hij, unwrapJump_of_lt hjump]
  wrapped i j hij hjump := by
    rw [get_runVector_sub p u hij]
    refine ⟨?_, exists_unwrapJump_eq hperiod _⟩
    rw [unwrapJump_of_not_lt hjump]
    exact abs_wrapJump_le hperiod _

end Samples

/-- An accepted unwrapper takes out whole periods, at every jump from its threshold on and at no
other. A configured threshold below half a period changes nothing. -/
theorem run_unwraps {config : Config ℝ} (hconfig : ofConfig config = .ok u) {n : ℕ}
    {p : Vector ℝ n} {input : Buffer ℝ} (hread : input.read = .ok p.toArray) :
    0 < config.period ∧ u = ⟨config.threshold, config.period⟩ ∧
      config.threshold = config.discont.elim (config.period / 2) (max · (config.period / 2)) ∧
      (∃ y : Vector ℝ n, u.run input = .ok y.toArray ∧
        Unwraps config.period config.threshold p y ∧
        (config.threshold = config.period / 2 →
          ∀ i j : Fin n, j.val = i + 1 → |y.get j - y.get i| ≤ config.period / 2)) ∧
      ∃ w, ofConfig ⟨none, config.period⟩ = .ok w ∧
        ∀ d ≤ config.period / 2, ofConfig ⟨some d, config.period⟩ = .ok w := by
  obtain ⟨hperiod, rfl⟩ := ofConfig_eq_ok.1 hconfig
  have hunwraps := runVector_unwraps (u := ⟨config.threshold, config.period⟩) p hperiod
  refine ⟨hperiod, rfl, config.threshold_eq,
    ⟨_, run_of_read _ hread, hunwraps, fun hhalf i j hij => ?_⟩, ?_⟩
  · exact hunwraps.abs_sub_le hhalf.le hij
  · refine ⟨_, ofConfig_eq_ok.2 ⟨hperiod, rfl⟩, fun d hd => ofConfig_eq_ok.2 ⟨hperiod, ?_⟩⟩
    have hsome : (⟨some d, config.period⟩ : Config ℝ).threshold = config.period / 2 :=
      Config.threshold_of_le fun d' hd' => by cases hd'; exact hd
    have hnone : (⟨none, config.period⟩ : Config ℝ).threshold = config.period / 2 :=
      Config.threshold_of_le nofun
    rw [hsome, hnone]

end Exact

/-- The first jump is longer than half a period and stays, the second one is taken out. -/
theorem run_unwraps_three :
    ofConfig ⟨some 3, (4 : ℝ)⟩ = .ok ⟨3, 4⟩ ∧
      (Buffer.list #[(0 : ℝ), 5 / 2, -1]).read = .ok #[0, 5 / 2, -1] ∧
        ∃ y : Vector ℝ 3, run ⟨3, 4⟩ (.list #[0, 5 / 2, -1]) = .ok y.toArray ∧
          y.get 1 - y.get 0 = 5 / 2 ∧ |y.get 2 - y.get 1| ≤ 2 := by
  have hthreshold : (⟨some 3, 4⟩ : Config ℝ).threshold = 3 := by
    rw [Config.threshold_eq]
    exact max_eq_left (by norm_num)
  have hconfig : ofConfig ⟨some 3, (4 : ℝ)⟩ = .ok ⟨3, 4⟩ :=
    ofConfig_eq_ok.2 ⟨by norm_num, by rw [hthreshold]⟩
  have hread : (Buffer.list #[(0 : ℝ), 5 / 2, -1]).read = .ok #[0, 5 / 2, -1] := rfl
  obtain ⟨-, -, -, ⟨y, hrun, hunwraps, -⟩, -⟩ :=
    run_unwraps hconfig (p := #v[(0 : ℝ), 5 / 2, -1]) hread
  rw [hthreshold] at hunwraps
  have hrise : #v[(0 : ℝ), 5 / 2, -1].get 1 - #v[(0 : ℝ), 5 / 2, -1].get 0 = 5 / 2 := sub_zero _
  have hfall : #v[(0 : ℝ), 5 / 2, -1].get 2 - #v[(0 : ℝ), 5 / 2, -1].get 1 = -1 - 5 / 2 := rfl
  refine ⟨hconfig, hread, y, hrun, ?_, ?_⟩
  · rw [hunwraps.kept 0 1 rfl (by rw [hrise, abs_of_pos] <;> norm_num), hrise]
  · have hwrapped := hunwraps.wrapped 1 2 rfl (by rw [hfall, abs_of_neg] <;> norm_num)
    exact hwrapped.1.trans_eq (by norm_num)

end AnalyticTrace.Unwrapper
