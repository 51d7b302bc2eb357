import AnalyticTrace.Proofs.Exact.Real
import AnalyticTrace.Proofs.Unwrap.Slots

namespace AnalyticTrace.Unwrapper

/-- What becomes of a jump: one below the threshold stays, any other is wrapped. -/
def unwrapJump {α : Type} [Sample α] (u : Unwrapper α) (jump : α) : α :=
  if Sample.abs jump ≥ u.discont then u.wrapJump jump else jump

variable [Angle] {u : Unwrapper ℝ}

theorem correct_eq_add (u : Unwrapper ℝ) (correction jump : ℝ) :
    u.correct correction jump = correction + (u.unwrapJump jump - jump) := by
  rw [correct, unwrapJump]
  split
  · rfl
  · rw [sub_self, add_zero]

theorem unwrappedAt_eq_add (u : Unwrapper ℝ) (p : Array ℝ) (i : ℕ) :
    u.unwrappedAt p i = p.getD i 0 + u.correctionAt p i := by
  rw [unwrappedAt]
  split
  · subst i
    exact (add_zero _).symm
  · rfl

/-- All corrections so far cancel in the jump between two samples. -/
theorem unwrappedAt_succ_sub (u : Unwrapper ℝ) {p : Array ℝ} {i : ℕ} (hi : i + 1 < p.size) :
    u.unwrappedAt p (i + 1) - u.unwrappedAt p i = u.unwrapJump (p[i + 1] - p[i]) := by
  rw [unwrappedAt_eq_add, unwrappedAt_eq_add, correctionAt_succ u hi, correct_eq_add,
    ← Array.getElem_eq_getD (h := hi), ← Array.getElem_eq_getD (h := Nat.lt_of_succ_lt hi)]
  ring

section Bounds
variable (hperiod : 0 < u.period)
include hperiod

theorem abs_wrapJump_le (jump : ℝ) : |u.wrapJump jump| ≤ u.period / 2 := by
  have hnonneg := floorMod_nonneg hperiod (jump - -(u.period / 2))
  have hlt := floorMod_lt hperiod (jump - -(u.period / 2))
  rw [wrapJump, two_eq]
  split
  · rw [abs_of_pos (half_pos hperiod)]
  · rw [abs_le]
    constructor
    · linarith
    · linarith

theorem abs_unwrapJump_le (hdiscont : u.discont ≤ u.period / 2) (jump : ℝ) :
    |u.unwrapJump jump| ≤ u.period / 2 := by
  rw [unwrapJump]
  split
  · exact abs_wrapJump_le hperiod jump
  · rename_i hsmall
    exact (not_le.1 hsmall).le.trans hdiscont

end Bounds
end AnalyticTrace.Unwrapper
