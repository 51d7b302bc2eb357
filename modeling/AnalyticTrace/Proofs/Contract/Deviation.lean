import Mathlib.Algebra.Order.Chebyshev
import AnalyticTrace.Proofs.Contract.Verdict
import AnalyticTrace.Proofs.Exact.Real

namespace AnalyticTrace

namespace Metrics

section Tallies
variable [Angle] (ds : List ℝ) (t : Tally ℝ)

theorem sum_foldl : (ds.foldl Tally.add t).sum = t.sum + ds.sum := by
  induction ds generalizing t with
  | nil => exact (add_zero t.sum).symm
  | cons d ds ih => rw [List.foldl_cons, ih, List.sum_cons, ← add_assoc, Tally.add]

theorem squares_foldl :
    (ds.foldl Tally.add t).squares = t.squares + (ds.map (· ^ 2)).sum := by
  induction ds generalizing t with
  | nil => exact (add_zero t.squares).symm
  | cons d ds ih =>
    rw [List.foldl_cons, ih, List.map_cons, List.sum_cons, ← add_assoc, Tally.add, sq]

end Tallies

/-- What the three numbers tell of two sequences: the mean of their differences, the root of the
mean square and the largest one, in this order of size. Where one of them is zero nothing
differs. -/
structure Gauges {n : ℕ} (a b : Vector ℝ n) (m : Metrics ℝ) : Prop where
  mean : n * m.mae = ∑ i, |a.get i - b.get i|
  mean_square : n * m.rmse ^ 2 = ∑ i, |a.get i - b.get i| ^ 2
  largest : 0 < n → IsGreatest (Set.range fun i => |a.get i - b.get i|) m.maxAbs
  empty : n = 0 → m.mae = 0 ∧ m.rmse = 0 ∧ m.maxAbs = 0
  mae_nonneg : 0 ≤ m.mae
  mae_le_rmse : m.mae ≤ m.rmse
  rmse_le_maxAbs : m.rmse ≤ m.maxAbs
  maxAbs_le : m.maxAbs ≤ n * m.mae
  mae_eq_zero_iff : m.mae = 0 ↔ a = b
  rmse_eq_zero_iff : m.rmse = 0 ↔ a = b
  maxAbs_eq_zero_iff : m.maxAbs = 0 ↔ a = b

section Sequences
variable [Angle] {n : ℕ} (a b : Vector ℝ n)

theorem differences_toArray :
    differences a.toArray b.toArray = List.ofFn fun i => |a.get i - b.get i| := by
  apply List.ext_getElem
  · simp [differences]
  · intro i hi hi'
    simp [differences, Vector.get]
    rfl

theorem differences_comm : differences a.toArray b.toArray = differences b.toArray a.toArray := by
  simp only [differences_toArray, abs_sub_comm]

/-- Nothing is lost where no sequence counts as empty: there the sum is zero. -/
theorem sum_div_count (f : Fin n → ℝ) : (∑ i, f i) / Sample.ofNat (max n 1) = (∑ i, f i) / n := by
  cases n with
  | zero => rw [Finset.univ_eq_empty, Finset.sum_empty, zero_div, zero_div]
  | succ n => rw [max_eq_left (Nat.le_add_left 1 n)]; rfl

theorem mae_eq : (compare a.toArray b.toArray).mae = (∑ i, |a.get i - b.get i|) / n := by
  rw [compare, sum_foldl, differences_toArray, List.sum_ofFn, zero_add, Vector.size_toArray,
    sum_div_count]

theorem rmse_eq : (compare a.toArray b.toArray).rmse = √((∑ i, |a.get i - b.get i| ^ 2) / n) := by
  rw [compare, squares_foldl, differences_toArray, List.map_ofFn, List.sum_ofFn, zero_add,
    Vector.size_toArray, sum_div_count]
  rfl

theorem maxAbs_le_iff {t : ℝ} (ht : 0 ≤ t) :
    (compare a.toArray b.toArray).maxAbs ≤ t ↔ ∀ i, |a.get i - b.get i| ≤ t := by
  rw [← not_lt, lt_maxAbs_iff ht, differences_toArray]
  simp [List.mem_ofFn]

theorem maxAbs_nonneg : 0 ≤ (compare a.toArray b.toArray).maxAbs := by
  apply le_of_forall_lt
  intro t ht
  rw [compare, largest_foldl]
  exact (lt_foldl_max_iff _ _).2 (.inl ht)

theorem isGreatest_maxAbs (hn : 0 < n) :
    IsGreatest (Set.range fun i => |a.get i - b.get i|) (compare a.toArray b.toArray).maxAbs := by
  have : NeZero n := ⟨hn.ne'⟩
  have hbelow := (maxAbs_le_iff a b (maxAbs_nonneg a b)).1 le_rfl
  obtain ⟨j, hj⟩ := Finite.exists_max fun i => |a.get i - b.get i|
  have hattained : |a.get j - b.get j| = (compare a.toArray b.toArray).maxAbs :=
    le_antisymm (hbelow j) ((maxAbs_le_iff a b (abs_nonneg _)).2 hj)
  exact ⟨⟨j, hattained⟩, Set.forall_mem_range.2 hbelow⟩

theorem mae_nonneg : 0 ≤ (compare a.toArray b.toArray).mae := by
  rw [mae_eq]
  exact div_nonneg (Finset.sum_nonneg fun i _ => abs_nonneg _) n.cast_nonneg

/-- A mean is at most the root of the mean square. -/
theorem mae_le_rmse : (compare a.toArray b.toArray).mae ≤ (compare a.toArray b.toArray).rmse := by
  rw [mae_eq, rmse_eq]
  apply Real.le_sqrt_of_sq_le
  have hmeans : ((∑ i, |a.get i - b.get i|) / (Finset.univ : Finset (Fin n)).card) ^ 2 ≤
      (∑ i, |a.get i - b.get i| ^ 2) / (Finset.univ : Finset (Fin n)).card :=
    sum_div_card_sq_le_sum_sq_div_card
  rwa [Finset.card_fin] at hmeans

theorem rmse_le_maxAbs :
    (compare a.toArray b.toArray).rmse ≤ (compare a.toArray b.toArray).maxAbs := by
  have hnonneg := maxAbs_nonneg a b
  have hbelow := (maxAbs_le_iff a b hnonneg).1 le_rfl
  rw [rmse_eq]
  refine Real.sqrt_le_iff.2 ⟨hnonneg, div_le_of_le_mul₀ n.cast_nonneg (sq_nonneg _) ?_⟩
  calc ∑ i, |a.get i - b.get i| ^ 2
    _ ≤ ∑ _i : Fin n, (compare a.toArray b.toArray).maxAbs ^ 2 :=
      Finset.sum_le_sum fun i _ => pow_le_pow_left₀ (abs_nonneg _) (hbelow i) 2
    _ = (compare a.toArray b.toArray).maxAbs ^ 2 * n := by
      rw [Finset.sum_const, Finset.card_fin, nsmul_eq_mul, mul_comm]

theorem card_mul_mean (f : Fin n → ℝ) : n * ((∑ i, f i) / n) = ∑ i, f i := by
  cases n with
  | zero => rw [Nat.cast_zero, zero_mul, Finset.univ_eq_empty, Finset.sum_empty]
  | succ n => exact mul_div_cancel₀ _ (Nat.cast_ne_zero.2 (Nat.succ_ne_zero n))

theorem mul_mae : n * (compare a.toArray b.toArray).mae = ∑ i, |a.get i - b.get i| := by
  rw [mae_eq, card_mul_mean]

theorem mul_rmse_sq :
    n * (compare a.toArray b.toArray).rmse ^ 2 = ∑ i, |a.get i - b.get i| ^ 2 := by
  have hnonneg : 0 ≤ (∑ i, |a.get i - b.get i| ^ 2) / n :=
    div_nonneg (Finset.sum_nonneg fun i _ => sq_nonneg _) n.cast_nonneg
  rw [rmse_eq, Real.sq_sqrt hnonneg, card_mul_mean]

/-- The largest difference is one of those that make up the mean. -/
theorem maxAbs_le_mul_mae :
    (compare a.toArray b.toArray).maxAbs ≤ n * (compare a.toArray b.toArray).mae := by
  have hnonneg : ∀ i ∈ Finset.univ, 0 ≤ |a.get i - b.get i| := fun i _ => abs_nonneg _
  rw [mul_mae, maxAbs_le_iff a b (Finset.sum_nonneg hnonneg)]
  intro i
  exact Finset.single_le_sum hnonneg (Finset.mem_univ i)

theorem maxAbs_eq_zero_iff : (compare a.toArray b.toArray).maxAbs = 0 ↔ a = b := by
  rw [← (maxAbs_nonneg a b).ge_iff_eq', maxAbs_le_iff a b le_rfl, Vector.ext_iff]
  simp only [abs_nonpos_iff, sub_eq_zero]
  exact Fin.forall_iff

-- Each of the three is at most a multiple of any other one, so they vanish together.
theorem mae_eq_zero_iff : (compare a.toArray b.toArray).mae = 0 ↔ a = b := by
  rw [← maxAbs_eq_zero_iff]
  constructor
  · intro h
    have hsum := maxAbs_le_mul_mae a b
    rw [h, mul_zero] at hsum
    exact le_antisymm hsum (maxAbs_nonneg a b)
  · intro h
    have hlargest := (mae_le_rmse a b).trans (rmse_le_maxAbs a b)
    exact le_antisymm (hlargest.trans_eq h) (mae_nonneg a b)

theorem rmse_eq_zero_iff : (compare a.toArray b.toArray).rmse = 0 ↔ a = b := by
  constructor
  · intro h
    rw [← mae_eq_zero_iff]
    exact le_antisymm ((mae_le_rmse a b).trans_eq h) (mae_nonneg a b)
  · intro h
    have hlargest := (maxAbs_eq_zero_iff a b).2 h
    exact le_antisymm ((rmse_le_maxAbs a b).trans_eq hlargest)
      ((mae_nonneg a b).trans (mae_le_rmse a b))

theorem gauges_compare : Gauges a b (compare a.toArray b.toArray) where
  mean := mul_mae a b
  mean_square := mul_rmse_sq a b
  largest := isGreatest_maxAbs a b
  empty := by
    rintro rfl
    have hab : a = b := Vector.ext fun i hi => absurd hi (Nat.not_lt_zero i)
    exact ⟨(mae_eq_zero_iff a b).2 hab, (rmse_eq_zero_iff a b).2 hab,
      (maxAbs_eq_zero_iff a b).2 hab⟩
  mae_nonneg := mae_nonneg a b
  mae_le_rmse := mae_le_rmse a b
  rmse_le_maxAbs := rmse_le_maxAbs a b
  maxAbs_le := maxAbs_le_mul_mae a b
  mae_eq_zero_iff := mae_eq_zero_iff a b
  rmse_eq_zero_iff := rmse_eq_zero_iff a b
  maxAbs_eq_zero_iff := maxAbs_eq_zero_iff a b

/-- The differences of two sequences of one length in three numbers, whichever comes first. -/
theorem compare_gauges : Gauges a b (compare a.toArray b.toArray) ∧
    compare a.toArray b.toArray = compare b.toArray a.toArray := by
  refine ⟨gauges_compare a b, ?_⟩
  rw [compare, compare, differences_comm, Vector.size_toArray, Vector.size_toArray]

end Sequences
end Metrics
end AnalyticTrace
