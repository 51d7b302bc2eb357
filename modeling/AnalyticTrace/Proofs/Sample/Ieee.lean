import AnalyticTrace.Sample.Basic

namespace AnalyticTrace

variable {α : Type} [Sample α]

def Sample.IsNan (a : α) : Prop := (a == a) = false

instance (a : α) : Decidable (Sample.IsNan a) := inferInstanceAs (Decidable ((a == a) = false))

/-- Equal, or neither of them a number. -/
def Sample.Same (a b : α) : Prop := a = b ∨ Sample.IsNan a ∧ Sample.IsNan b

/-- What is asked of samples that behave like floating-point numbers: an order that leaves out what
is not a number, sums and differences that hand it on, and a zero that a sum keeps unless it has a
sign of its own. -/
class IeeeSample (α : Type) [Sample α] : Prop where
  not_nan_of_lt {a b : α} : a < b → ¬Sample.IsNan a ∧ ¬Sample.IsNan b
  lt_trans {a b c : α} : a < b → b < c → a < c
  lt_or_lt {a b c : α} : a < c → ¬Sample.IsNan b → a < b ∨ b < c
  le_iff {a b : α} : a ≤ b ↔ ¬Sample.IsNan a ∧ ¬Sample.IsNan b ∧ ¬b < a
  nan_add {a b : α} : Sample.IsNan a → Sample.IsNan (a + b)
  add_nan {a b : α} : Sample.IsNan b → Sample.IsNan (a + b)
  nan_sub {a b : α} : Sample.IsNan a → Sample.IsNan (a - b)
  sub_nan {a b : α} : Sample.IsNan b → Sample.IsNan (a - b)
  abs_nan_iff {a : α} : Sample.IsNan (Sample.abs a) ↔ Sample.IsNan a
  sub_neg (a b : α) : a - -b = a + b
  add_neg (a b : α) : a + -b = a - b
  zero_add_zero : (0 : α) + 0 = 0
  add_add_zero {a b : α} : a + 0 = a → a + b + 0 = a + b
  not_nan_of_isFinite {a : α} : Sample.isFinite a = true → ¬Sample.IsNan a
  half_not_nan {a : α} : Sample.isFinite a = true → ¬Sample.IsNan (a / Sample.two)
  pi_not_nan : ¬Sample.IsNan (Sample.pi : α)

namespace IeeeSample

variable [IeeeSample α] {a b t : α}

theorem lt_max_iff : t < Sample.max a b ↔ t < a ∨ t < b := by
  rw [Sample.max]
  constructor
  · intro h
    split at h
    · exact .inl h
    · split at h
      · exact .inr h
      · exact .inl h
  · intro h
    split
    · cases h with
      | inl h => exact h
      | inr h => exact lt_trans h ‹_›
    · split
      · cases h with
        | inl h =>
          have hb : ¬Sample.IsNan b := fun hb => Bool.false_ne_true (hb.symm.trans ‹_›)
          exact (lt_or_lt h hb).resolve_right ‹_›
        | inr h => exact h
      · cases h with
        | inl h => exact h
        | inr h =>
          have hb := (not_nan_of_lt h).2
          exact absurd (Bool.eq_false_iff.2 ‹_›) hb

theorem max_not_nan (h : ¬Sample.IsNan b) : ¬Sample.IsNan (Sample.max a b) := by
  rw [Sample.max]
  split
  · exact (not_nan_of_lt ‹_›).2
  · rw [if_pos (Bool.not_eq_false _ ▸ h)]
    exact h

theorem le_iff_not_lt (ha : ¬Sample.IsNan a) (hb : ¬Sample.IsNan b) : a ≤ b ↔ ¬b < a := by
  rw [le_iff]
  exact ⟨fun h => h.2.2, fun h => ⟨ha, hb, h⟩⟩

end IeeeSample
end AnalyticTrace
