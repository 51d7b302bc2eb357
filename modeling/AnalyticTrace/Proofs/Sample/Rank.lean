import Mathlib.Data.Prod.Lex

namespace AnalyticTrace

open Float.Model (UnpackedFloat)
open Float.Model.UnpackedFloat

/-- Both zeros have one rank; what is not a number has none. -/
def rank : UnpackedFloat → Option (ℤ ×ₗ ℤ ×ₗ ℤ)
  | .notANumber => none
  | .infinity .negative => some (toLex (-2, toLex (0, 0)))
  | .infinity .positive => some (toLex (2, toLex (0, 0)))
  | .zero _ => some (toLex (0, toLex (0, 0)))
  | .finite .negative m e _ => some (toLex (-1, toLex (-e, -m)))
  | .finite .positive m e _ => some (toLex (1, toLex (e, m)))

theorem compare_toLex {β γ : Type} [Ord β] [Ord γ] (a b : β) (c d : γ) :
    compare (toLex (a, c)) (toLex (b, d)) = (compare a b).then (compare c d) :=
  rfl

theorem compare_neg (a b : ℤ) : compare (-a) (-b) = (compare a b).swap := by
  simp only [compare, compareOfLessAndEq]
  grind [Ordering.swap]

theorem compare_natCast (m n : ℕ) : compare (m : ℤ) n = compare m n := by
  simp only [compare, compareOfLessAndEq, Int.ofNat_lt, Int.natCast_inj]

theorem compare_eq_compare_rank (a b : UnpackedFloat) :
    a.compare b = (rank a).bind fun x => (rank b).map fun y => compare x y := by
  have hpos (e e' : ℤ) (m m' : ℕ) : (compare e e').then (compare m m') =
      compare (toLex ((1 : ℤ), toLex (e, (m : ℤ)))) (toLex (1, toLex (e', (m' : ℤ)))) := by
    rw [compare_toLex, compare_toLex, compare_natCast]
    rfl
  have hneg (e e' : ℤ) (m m' : ℕ) : ((compare e e').then (compare m m')).swap =
      compare (toLex (-1, toLex (-e, -(m : ℤ)))) (toLex (-1, toLex (-e', -(m' : ℤ)))) := by
    rw [compare_toLex, compare_toLex, compare_neg e, compare_neg (m : ℤ), compare_natCast,
      Ordering.swap_then]
    rfl
  rcases a with s | _ | s | ⟨s, m, e, h⟩ <;> rcases b with s' | _ | s' | ⟨s', m', e', h'⟩
  case finite.finite =>
    cases s with
    | negative =>
      cases s' with
      | negative => exact congrArg some (hneg e e' m m')
      | positive => rfl
    | positive =>
      cases s' with
      | negative => rfl
      | positive => exact congrArg some (hpos e e' m m')
  all_goals try cases s
  all_goals try cases s'
  all_goals rfl

theorem lt_iff_rank {a b : UnpackedFloat} :
    a.lt b = true ↔ ∃ x, rank a = some x ∧ ∃ y, rank b = some y ∧ x < y := by
  rw [UnpackedFloat.lt, compare_eq_compare_rank]
  cases rank a with
  | none => simp
  | some x =>
    cases rank b with
    | none => simp
    | some y => simp [compare_lt_iff_lt]

theorem le_iff_rank {a b : UnpackedFloat} :
    a.le b = true ↔ ∃ x, rank a = some x ∧ ∃ y, rank b = some y ∧ x ≤ y := by
  rw [UnpackedFloat.le, compare_eq_compare_rank]
  cases rank a with
  | none => simp
  | some x =>
    cases rank b with
    | none => simp
    | some y => simp [Ordering.isLE_iff_ne_gt, compare_le_iff_le]

theorem beq_iff_rank {a b : UnpackedFloat} :
    a.beq b = true ↔ ∃ x, rank a = some x ∧ rank b = some x := by
  change (a.compare b == some .eq) = true ↔ _
  rw [compare_eq_compare_rank]
  cases rank a with
  | none => simp
  | some x =>
    cases rank b with
    | none => simp
    | some y => simp [compare_eq_iff_eq, eq_comm (a := y)]

theorem beq_self_iff_rank {a : UnpackedFloat} : a.beq a = true ↔ (rank a).isSome := by
  rw [beq_iff_rank, Option.isSome_iff_exists]
  simp only [and_self]

theorem rank_isSome_iff {a : UnpackedFloat} : (rank a).isSome ↔ a ≠ .notANumber := by
  constructor
  · rintro h rfl
    cases h
  · intro h
    rcases a with s | _ | s | ⟨s, m, e, hm⟩
    case notANumber => exact absurd rfl h
    all_goals cases s <;> rfl

end AnalyticTrace
