import AnalyticTrace.Proofs.Unwrap.Nearest

namespace AnalyticTrace.Unwrapper

/-- Sequences of the same steps are as far apart everywhere as they are at the start. -/
theorem get_eq_add_of_steps {n : ℕ} {y z : Vector ℝ n}
    (h : ∀ i j : Fin n, j.val = i + 1 → y.get j - y.get i = z.get j - z.get i) (first : Fin n)
    (hfirst : first.val = 0) (i : Fin n) : y.get i = z.get i + (y.get first - z.get first) := by
  obtain ⟨i, hi⟩ := i
  induction i with
  | zero =>
    obtain rfl : first = ⟨0, hi⟩ := Fin.ext hfirst
    rw [add_sub_cancel]
  | succ i ih =>
    have hstep := h ⟨i, Nat.lt_of_succ_lt hi⟩ ⟨i + 1, hi⟩ rfl
    have hprevious := ih (Nat.lt_of_succ_lt hi)
    linarith

theorem get_reverse {n : ℕ} (p : Vector ℝ n) (i : Fin n) : p.reverse.get i = p.get i.rev :=
  (Vector.getElem_reverse i.isLt).trans (congrArg p.get (Fin.ext (Nat.sub_right_comm n 1 i)))

section Sequences
variable [Angle] {u : Unwrapper ℝ} {n : ℕ} {p y : Vector ℝ n}

/-- The first sample and the jumps are all there is to an unwrapped sequence. -/
theorem runVector_eq_of_steps (hfirst : ∀ i : Fin n, i.val = 0 → y.get i = p.get i)
    (hsteps : ∀ i j : Fin n, j.val = i + 1 →
      y.get j - y.get i = u.unwrapJump (p.get j - p.get i)) : u.runVector p = y := by
  have hsame (i j : Fin n) (hij : j.val = i + 1) :
      (u.runVector p).get j - (u.runVector p).get i = y.get j - y.get i := by
    rw [get_runVector_sub p u hij, hsteps i j hij]
  apply Vector.ext
  intro i hi
  have hn : 0 < n := Nat.zero_lt_of_lt hi
  have hget := get_eq_add_of_steps hsame ⟨0, hn⟩ rfl ⟨i, hi⟩
  rwa [get_runVector_first p u (i := ⟨0, hn⟩) rfl, hfirst ⟨0, hn⟩ rfl, sub_self, add_zero] at hget

variable (hperiod : 0 < u.period)
include hperiod

theorem runVector_runVector (p : Vector ℝ n) : u.runVector (u.runVector p) = u.runVector p := by
  apply runVector_eq_of_steps
  · intro i _
    rfl
  · intro i j hij
    rw [get_runVector_sub p u hij, unwrapJump_unwrapJump hperiod]

theorem runVector_neg (p : Vector ℝ n) :
    u.runVector (p.map (-·)) = (u.runVector p).map (-·) := by
  have hneg (q : Vector ℝ n) (i : Fin n) : (q.map (-·)).get i = -q.get i :=
    Vector.getElem_map ..
  apply runVector_eq_of_steps
  · intro i hi
    rw [hneg, hneg, get_runVector_first p u hi]
  · intro i j hij
    have hopposite : -p.get j - -p.get i = -(p.get j - p.get i) := by ring
    rw [hneg, hneg, hneg, hneg, hopposite, unwrapJump_neg hperiod, ← get_runVector_sub p u hij]
    ring

/-- Read from its end, a sequence has the opposite jumps. -/
theorem get_runVector_reverse_sub (p : Vector ℝ n) {i j : Fin n} (hij : j.val = i + 1) :
    (u.runVector p.reverse).get j - (u.runVector p.reverse).get i =
      (u.runVector p).reverse.get j - (u.runVector p).reverse.get i := by
  have hrev : i.rev.val = j.rev + 1 := by
    rw [Fin.val_rev, Fin.val_rev]
    omega
  rw [get_runVector_sub _ u hij, get_reverse, get_reverse, get_reverse, get_reverse, ← neg_sub,
    unwrapJump_neg hperiod, ← get_runVector_sub p u hrev, neg_sub]

theorem runVector_reverse (p : Vector ℝ n) :
    ∃ m : ℤ, u.runVector p.reverse = (u.runVector p).reverse.map (· + m * u.period) := by
  obtain rfl | hn := Nat.eq_zero_or_pos n
  · exact ⟨0, Vector.ext fun i hi => absurd hi (Nat.not_lt_zero i)⟩
  · have hunwraps := runVector_unwraps p hperiod
    -- The reversed run starts at the last sample itself, which the plain run has moved.
    obtain ⟨m, hm⟩ := hunwraps.periods (Fin.rev ⟨0, hn⟩)
    refine ⟨-m, Vector.ext fun i hi => ?_⟩
    have hget := get_eq_add_of_steps (fun i j => get_runVector_reverse_sub hperiod p) ⟨0, hn⟩ rfl
      ⟨i, hi⟩
    rw [get_runVector_first p.reverse u (i := ⟨0, hn⟩) rfl, get_reverse p,
      get_reverse _ ⟨0, hn⟩, ← neg_sub, hm, ← neg_mul] at hget
    rw [Vector.getElem_map, Int.cast_neg]
    exact hget

end Sequences

theorem run_eq_runVector [Angle] (u : Unwrapper ℝ) {n : ℕ} {p : Vector ℝ n} {input : Buffer ℝ}
    (h : input.read = .ok p.toArray) : u.run input = .ok (u.runVector p).toArray :=
  run_of_read u h

theorem ofConfig_four : ofConfig ⟨none, (4 : ℝ)⟩ = .ok ⟨2, 4⟩ := by
  rw [ofConfig_eq_ok, Config.threshold_eq]
  norm_num

/-- Both jumps are odd multiples of half a period. -/
theorem run_ties : run ⟨2, 4⟩ (.list #[(0 : ℝ), 6, 4]) = .ok #[0, 2, 0] := by
  have hperiod : (0 : ℝ) < 4 := four_pos
  have hrise : unwrapJump ⟨2, 4⟩ (6 - 0 : ℝ) = 2 - 0 := by
    rw [unwrapJump_of_not_lt (by norm_num), wrapJump_eq_iff hperiod]
    exact ⟨by norm_num, ⟨-1, by norm_num⟩, by norm_num⟩
  have hfall : unwrapJump ⟨2, 4⟩ (4 - 6 : ℝ) = 0 - 2 := by
    rw [unwrapJump_of_abs_le hperiod (by norm_num)]
    norm_num
  have hrun : runVector ⟨2, 4⟩ #v[(0 : ℝ), 6, 4] = #v[0, 2, 0] := by
    apply runVector_eq_of_steps
    · intro i hi
      obtain rfl : i = 0 := Fin.ext hi
      rfl
    · intro i j hij
      obtain ⟨rfl, rfl⟩ | ⟨rfl, rfl⟩ : i = 0 ∧ j = 1 ∨ i = 1 ∧ j = 2 := by omega
      · exact hrise.symm
      · exact hfall.symm
  rw [run_eq_runVector _ (p := #v[(0 : ℝ), 6, 4]) rfl, hrun]

/-- An unwrapped sequence stays as it is, although its jumps may be as long as the threshold. -/
theorem run_again [Angle] {config : Config ℝ} {u : Unwrapper ℝ} (hconfig : ofConfig config = .ok u)
    {n : ℕ} {p : Vector ℝ n} {input : Buffer ℝ} (hread : input.read = .ok p.toArray) :
    ∃ y : Vector ℝ n, u.run input = .ok y.toArray ∧
      ∀ again : Buffer ℝ, again.read = .ok y.toArray → u.run again = .ok y.toArray := by
  obtain ⟨hperiod, rfl⟩ := ofConfig_eq_ok.1 hconfig
  refine ⟨_, run_eq_runVector _ hread, ?_⟩
  intro again hagain
  rw [run_eq_runVector _ hagain, runVector_runVector hperiod]

theorem run_again_ties :
    ofConfig ⟨none, (4 : ℝ)⟩ = .ok ⟨2, 4⟩ ∧
      (Buffer.list #[(0 : ℝ), 6, 4]).read = .ok #[0, 6, 4] ∧
        run ⟨2, 4⟩ (.list #[(0 : ℝ), 2, 0]) = .ok #[0, 2, 0] := by
  have hread : (Buffer.list #[(0 : ℝ), 6, 4]).read = .ok #[0, 6, 4] := rfl
  obtain ⟨y, hrun, hagain⟩ := run_again ofConfig_four (p := #v[(0 : ℝ), 6, 4]) hread
  rw [run_ties, Except.ok.injEq] at hrun
  rw [← hrun] at hagain
  exact ⟨ofConfig_four, hread, hagain _ rfl⟩

/-- Up and down are treated alike, jumps of half a period included; read backward, a sequence
unwraps to the same one read backward, but for the whole periods that its start is off by. -/
theorem run_mirrored [Angle] {config : Config ℝ} {u : Unwrapper ℝ}
    (hconfig : ofConfig config = .ok u) {n : ℕ} {p : Vector ℝ n} {input : Buffer ℝ}
    (hread : input.read = .ok p.toArray) :
    ∃ (y : Vector ℝ n) (m : ℤ), u.run input = .ok y.toArray ∧
      (∀ negated : Buffer ℝ, negated.read = .ok (p.map (-·)).toArray →
        u.run negated = .ok (y.map (-·)).toArray) ∧
      ∀ reversed : Buffer ℝ, reversed.read = .ok p.reverse.toArray →
        u.run reversed = .ok (y.reverse.map (· + m * config.period)).toArray := by
  obtain ⟨hperiod, rfl⟩ := ofConfig_eq_ok.1 hconfig
  obtain ⟨m, hreverse⟩ := runVector_reverse (u := ⟨config.threshold, config.period⟩) hperiod p
  refine ⟨_, m, run_eq_runVector _ hread, ?_, ?_⟩
  · intro negated hnegated
    rw [run_eq_runVector _ hnegated, runVector_neg hperiod]
  · intro reversed hreversed
    rw [run_eq_runVector _ hreversed, hreverse]

theorem run_mirrored_ties :
    ofConfig ⟨none, (4 : ℝ)⟩ = .ok ⟨2, 4⟩ ∧
      (Buffer.list #[(0 : ℝ), 6, 4]).read = .ok #[0, 6, 4] ∧
        run ⟨2, 4⟩ (.list #[(0 : ℝ), -6, -4]) = .ok #[0, -2, 0] ∧
          ∃ m : ℤ, run ⟨2, 4⟩ (.list #[(4 : ℝ), 6, 0]) =
            .ok #[m * (4 : ℝ), 2 + m * 4, m * 4] := by
  have hread : (Buffer.list #[(0 : ℝ), 6, 4]).read = .ok #[0, 6, 4] := rfl
  obtain ⟨y, m, hrun, hnegated, hreversed⟩ :=
    run_mirrored ofConfig_four (p := #v[(0 : ℝ), 6, 4]) hread
  rw [run_ties, Except.ok.injEq] at hrun
  obtain rfl : #v[(0 : ℝ), 2, 0] = y := Vector.toArray_inj.1 hrun
  have hopposite : (#v[(0 : ℝ), 6, 4].map (-·)).toArray = #[0, -6, -4] := by simp
  have hbackward : #v[(0 : ℝ), 6, 4].reverse.toArray = #[4, 6, 0] := by simp
  have hnegative := hnegated (.list #[0, -6, -4]) (congrArg Except.ok hopposite.symm)
  have hreverse := hreversed (.list #[4, 6, 0]) (congrArg Except.ok hbackward.symm)
  refine ⟨ofConfig_four, hread, ?_, m, ?_⟩
  · simpa using hnegative
  · simpa using hreverse

end AnalyticTrace.Unwrapper
