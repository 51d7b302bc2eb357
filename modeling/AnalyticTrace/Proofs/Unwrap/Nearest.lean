import AnalyticTrace.Proofs.Unwrap.Periods

namespace AnalyticTrace.Unwrapper

/-- A jump brought within half a period of zero by whole periods. Halfway between two of them it
stays on the side of zero that it was on. -/
structure Nearest (period jump w : ℝ) : Prop where
  near : |w| ≤ period / 2
  periods : ∃ m : ℤ, w = jump + m * period
  side : |w| = period / 2 → 0 < jump * w

section Uniqueness
variable {period jump w w' : ℝ}

theorem Nearest.neg (h : Nearest period jump w) : Nearest period (-jump) (-w) where
  near := by
    rw [abs_neg]
    exact h.near
  periods := by
    obtain ⟨m, hm⟩ := h.periods
    refine ⟨-m, ?_⟩
    rw [hm]
    push_cast
    ring
  side hw := by
    rw [abs_neg] at hw
    rw [neg_mul_neg]
    exact h.side hw

/-- Two choices are whole periods apart. -/
theorem Nearest.period_le_sub (hperiod : 0 < period) (h : Nearest period jump w)
    (h' : Nearest period jump w') (hlt : w' < w) : period ≤ w - w' := by
  obtain ⟨m, hm⟩ := h.periods
  obtain ⟨m', hm'⟩ := h'.periods
  have hapart : w - w' = (m - m' : ℤ) * period := by
    rw [hm, hm']
    push_cast
    ring
  have hpos : (0 : ℝ) < (m - m' : ℤ) := by
    apply pos_of_mul_pos_left _ hperiod.le
    rw [← hapart]
    exact sub_pos.2 hlt
  have hone : (1 : ℝ) ≤ (m - m' : ℤ) := by exact_mod_cast hpos
  rw [hapart]
  exact le_mul_of_one_le_left hperiod.le hone

theorem Nearest.le (hperiod : 0 < period) (h : Nearest period jump w)
    (h' : Nearest period jump w') : w ≤ w' := by
  -- Otherwise they are at both ends, and the jump would be on either side of zero.
  by_contra hlt
  have hapart := h.period_le_sub hperiod h' (not_le.1 hlt)
  have hhigh : w = period / 2 := by linarith [abs_le.1 h.near, abs_le.1 h'.near]
  have hlow : w' = -(period / 2) := by linarith [abs_le.1 h.near, abs_le.1 h'.near]
  have hup := h.side (by rw [hhigh, abs_of_pos (half_pos hperiod)])
  have hdown := h'.side (by rw [hlow, abs_neg, abs_of_pos (half_pos hperiod)])
  rw [hhigh] at hup
  rw [hlow, mul_neg] at hdown
  linarith

theorem Nearest.unique (hperiod : 0 < period) (h : Nearest period jump w)
    (h' : Nearest period jump w') : w = w' :=
  le_antisymm (h.le hperiod h') (h'.le hperiod h)

theorem nearest_of_abs_lt (h : |w| < period / 2) (hperiods : ∃ m : ℤ, w = jump + m * period) :
    Nearest period jump w where
  near := h.le
  periods := hperiods
  side hw := absurd hw h.ne

theorem pos_of_abs_lt_half (h : |w| < period / 2) : 0 < period := by
  linarith [abs_nonneg w]

theorem nearest_self (hperiod : 0 < period) (h : |jump| ≤ period / 2) :
    Nearest period jump jump where
  near := h
  periods := ⟨0, by simp⟩
  side hjump := by
    apply mul_self_pos.2
    rintro rfl
    rw [abs_zero] at hjump
    linarith

end Uniqueness

section Jumps
variable [Angle] {u : Unwrapper ℝ} (hperiod : 0 < u.period)
include hperiod

theorem wrapJump_zero : u.wrapJump 0 = 0 := by
  have hrest : Sample.floorMod (0 - -(u.period / 2)) u.period = u.period / 2 := by
    have hshift : 0 - -(u.period / 2) = u.period / 2 + (0 : ℤ) * u.period := by
      push_cast
      ring
    rw [hshift, floorMod_add_mul (half_pos hperiod).le (half_lt_self hperiod)]
  rw [wrapJump, two_eq, hrest, add_neg_cancel]
  simp

theorem wrapJump_side {jump : ℝ} (h : |u.wrapJump jump| = u.period / 2) :
    0 < jump * u.wrapJump jump := by
  have hne : jump ≠ 0 := by
    rintro rfl
    rw [wrapJump_zero hperiod, abs_zero] at h
    linarith
  have hlt := floorMod_lt hperiod (jump - -(u.period / 2))
  rw [wrapJump, two_eq] at h ⊢
  split at h
  · rename_i htie
    rw [if_pos htie]
    rw [Bool.and_eq_true, decide_eq_true_iff] at htie
    exact mul_pos htie.2 (half_pos hperiod)
  · rename_i htie
    rw [if_neg htie]
    -- The remainder never reaches the period, so only the lower end is left.
    obtain hhigh | hlow := eq_or_eq_neg_of_abs_eq h
    · linarith
    · have hdown : ¬0 < jump := by
        intro hup
        apply htie
        rw [hlow, Bool.and_eq_true, beq_iff_eq, decide_eq_true_iff]
        exact ⟨rfl, hup⟩
      rw [hlow]
      exact mul_pos_of_neg_of_neg (lt_of_le_of_ne (not_lt.1 hdown) hne)
        (neg_neg_of_pos (half_pos hperiod))

theorem wrapJump_nearest (jump : ℝ) : Nearest u.period jump (u.wrapJump jump) where
  near := abs_wrapJump_le hperiod jump
  periods := exists_wrapJump_eq hperiod jump
  side := wrapJump_side hperiod

/-- The jump that is found is the only one there is. -/
theorem wrapJump_eq_iff {jump w : ℝ} : u.wrapJump jump = w ↔ Nearest u.period jump w := by
  constructor
  · rintro rfl
    exact wrapJump_nearest hperiod jump
  · intro h
    exact (wrapJump_nearest hperiod jump).unique hperiod h

theorem wrapJump_neg (jump : ℝ) : u.wrapJump (-jump) = -u.wrapJump jump := by
  rw [wrapJump_eq_iff hperiod]
  exact (wrapJump_nearest hperiod jump).neg

theorem unwrapJump_neg (jump : ℝ) : u.unwrapJump (-jump) = -u.unwrapJump jump := by
  by_cases hjump : |jump| < u.discont
  · rw [unwrapJump_of_lt hjump, unwrapJump_of_lt (by rwa [abs_neg])]
  · rw [unwrapJump_of_not_lt hjump, unwrapJump_of_not_lt (by rwa [abs_neg]), wrapJump_neg hperiod]

/-- A jump within half a period stays, also one that is at the threshold. -/
theorem unwrapJump_of_abs_le {jump : ℝ} (h : |jump| ≤ u.period / 2) : u.unwrapJump jump = jump := by
  by_cases hjump : |jump| < u.discont
  · exact unwrapJump_of_lt hjump
  · rw [unwrapJump_of_not_lt hjump, wrapJump_eq_iff hperiod]
    exact nearest_self hperiod h

theorem unwrapJump_unwrapJump (jump : ℝ) :
    u.unwrapJump (u.unwrapJump jump) = u.unwrapJump jump := by
  by_cases hjump : |jump| < u.discont
  · rw [unwrapJump_of_lt hjump, unwrapJump_of_lt hjump]
  · apply unwrapJump_of_abs_le hperiod
    rw [unwrapJump_of_not_lt hjump]
    exact abs_wrapJump_le hperiod jump

end Jumps
end AnalyticTrace.Unwrapper
