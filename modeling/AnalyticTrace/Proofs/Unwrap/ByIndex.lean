import AnalyticTrace.Contract.Baseline
import AnalyticTrace.Proofs.Unwrap.Slots

namespace AnalyticTrace

/-- What is asked of the full turn in arithmetic that rounds: half of it and twice its half are
exact, and a negative sample is not zero. -/
class TurnSample (α : Type) [Sample α] : Prop where
  two_mul_pi : Sample.two * Sample.pi = (Sample.twoPi : α)
  half_twoPi : Sample.twoPi / Sample.two = (Sample.pi : α)
  abs_twoPi : Sample.abs Sample.twoPi = (Sample.twoPi : α)
  twoPi_not_neg : ¬(Sample.twoPi : α) < 0
  not_beq_of_lt {a b : α} : a < b → (a == b) = false

instance : TurnSample Float where
  two_mul_pi := by decide +kernel
  half_twoPi := by decide +kernel
  abs_twoPi := by decide +kernel
  twoPi_not_neg := by decide +kernel
  not_beq_of_lt := doubleEncoding.not_beq_of_lt

variable {α : Type} [Sample α]

/-- Of a full turn the remainder that is never negative is the one with the sign of the turn. -/
theorem euclidMod_twoPi [TurnSample α] (a : α) :
    Sample.euclidMod a Sample.twoPi = Sample.floorMod a Sample.twoPi := by
  rw [Sample.euclidMod, Sample.floorMod, TurnSample.abs_twoPi]
  by_cases hneg : Sample.rem a Sample.twoPi < 0
  · have hne : (Sample.rem a Sample.twoPi != 0) = true := by
      rw [bne, TurnSample.not_beq_of_lt hneg]
      rfl
    simp [hneg, hne, TurnSample.twoPi_not_neg]
  · -- Also where the remainder is no number: then it is not negative either.
    simp [hneg, TurnSample.twoPi_not_neg]

/-- Unwraps phases in radians. -/
def Unwrapper.radians : Unwrapper α := ⟨Sample.pi, Sample.twoPi⟩

namespace Baseline

open Unwrapper (radians)

theorem unwrapStep_eq [IeeeSample α] [TurnSample α] (p out : Array α) (correction : α) (i : Nat) :
    unwrapStep p (out, correction) i =
      (out.modify i (· + radians.correct correction (p.getD i 0 - p.getD (i - 1) 0)),
        radians.correct correction (p.getD i 0 - p.getD (i - 1) 0)) := by
  simp only [unwrapStep, Unwrapper.correct, Unwrapper.wrapJump, radians, IeeeSample.sub_neg,
    IeeeSample.add_neg, TurnSample.two_mul_pi, TurnSample.half_twoPi, euclidMod_twoPi]

/-- The copy and the correction after jump `t`: samples up to there are moved, those behind it are
still as they were. -/
structure MovedUpTo (p : Array α) (t : Nat) (state : Array α × α) : Prop where
  correction : state.2 = radians.correctionAt p t
  moved : ∀ j, j ≤ t → j < p.size → state.1[j]? = some (radians.unwrappedAt p j)
  rest : ∀ j, t < j → state.1[j]? = p[j]?

theorem movedUpTo_start (p : Array α) : MovedUpTo p 0 (p, 0) where
  correction := rfl
  moved j hj hp := by
    obtain rfl := Nat.le_zero.1 hj
    simp [Unwrapper.unwrappedAt, hp]
  rest j _ := rfl

section Rounds
variable [IeeeSample α] [TurnSample α] {p : Array α} {t : Nat}

theorem MovedUpTo.step {state : Array α × α} (h : MovedUpTo p t state) (ht : t + 1 < p.size) :
    MovedUpTo p (t + 1) (unwrapStep p state (t + 1)) := by
  have hcorrection : radians.correct state.2 (p.getD (t + 1) 0 - p.getD (t + 1 - 1) 0) =
      radians.correctionAt p (t + 1) := by
    rw [h.correction, Unwrapper.correctionAt_succ _ ht, Nat.add_sub_cancel,
      ← Array.getElem_eq_getD (h := ht), ← Array.getElem_eq_getD (h := Nat.lt_of_succ_lt ht)]
  rw [← Prod.mk.eta (p := state), unwrapStep_eq, hcorrection]
  constructor
  · rfl
  · intro j hj hp
    rw [Array.getElem?_modify]
    split
    · -- Here the copy still holds the sample itself, so this is the first time it is moved.
      subst j
      rw [h.rest _ (Nat.lt_succ_self t), Unwrapper.unwrappedAt, if_neg (Nat.succ_ne_zero t),
        Array.getElem?_eq_getElem hp, ← Array.getElem_eq_getD (h := hp)]
      rfl
    · exact h.moved j (by omega) hp
  · intro j hj
    rw [Array.getElem?_modify, if_neg (Nat.ne_of_lt hj)]
    exact h.rest j (Nat.lt_of_succ_lt hj)

theorem movedUpTo_rounds (ht : t < p.size) :
    MovedUpTo p t ((List.range' 1 t).foldl (unwrapStep p) (p, 0)) := by
  induction t with
  | zero => exact movedUpTo_start p
  | succ t ih =>
    rw [List.range'_1_concat, List.foldl_append, Nat.add_comm 1 t]
    exact (ih (Nat.lt_of_succ_lt ht)).step ht

end Rounds

/-- Both ways to unwrap give the same doubles, whatever the samples are: a jump that is no number
and one of half a turn are treated alike, and so is every correction after them. -/
theorem unwrap_double (p : Array Float) : unwrap p = AnalyticTrace.unwrap p := by
  obtain hempty | hpos := Nat.eq_zero_or_pos p.size
  · rw [Array.eq_empty_of_size_eq_zero hempty]
    rfl
  · have hlast : p.size - 1 < p.size := Nat.sub_one_lt_of_lt hpos
    have hrounds := movedUpTo_rounds hlast
    have hsize : (AnalyticTrace.unwrap p).size = p.size := Unwrapper.size_runTrace radians p
    apply Array.ext_getElem?
    intro j
    by_cases hj : j < p.size
    · have hj' : j < (AnalyticTrace.unwrap p).size := hsize ▸ hj
      rw [unwrap, hrounds.moved j (Nat.le_sub_one_of_lt hj) hj, Array.getElem?_eq_getElem hj']
      exact congrArg some (Unwrapper.getElem_runTrace_eq radians p hj').symm
    · have hle : p.size ≤ j := Nat.le_of_not_lt hj
      rw [unwrap, hrounds.rest j (Nat.lt_of_lt_of_le hlast hle), Array.getElem?_eq_none hle,
        Array.getElem?_eq_none (hsize ▸ hle)]

end Baseline
end AnalyticTrace
