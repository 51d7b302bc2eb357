import AnalyticTrace.Cplx

namespace AnalyticTrace

/-- Both directions of a discrete Fourier transform at every length, neither of them scaled. -/
class Transform (α : Type) where
  forward {n : Nat} : Vector (Cplx α) n → Vector (Cplx α) n
  backward {n : Nat} : Vector (Cplx α) n → Vector (Cplx α) n
  /-- The entries of scratch space that either direction of a length works in. -/
  scratchLength : Nat → Nat
  /-- What is found in the scratch space once the bins are done. -/
  leftover {n : Nat} : Vector (Cplx α) n → Vector (Cplx α) (scratchLength n)

/-- The least divisor above one, and `n` itself where there is none below it. -/
def leastFactor (n : Nat) : Nat := ((List.range' 2 (n - 2)).find? (n % · = 0)).getD n

theorem leastFactor_dvd (n : Nat) : leastFactor n ∣ n := by
  unfold leastFactor
  cases h : (List.range' 2 (n - 2)).find? (n % · = 0) with
  | none => exact Nat.dvd_refl n
  | some p => exact Nat.dvd_of_mod_eq_zero (by simpa using List.find?_some h)

theorem one_lt_leastFactor {n : Nat} (hn : 1 < n) : 1 < leastFactor n := by
  unfold leastFactor
  cases h : (List.range' 2 (n - 2)).find? (n % · = 0) with
  | none => exact hn
  | some p =>
    have hp := List.mem_of_find?_eq_some h
    simp only [List.mem_range'_1] at hp
    exact hp.1

theorem leastFactor_mul_div (n : Nat) : leastFactor n * (n / leastFactor n) = n :=
  Nat.mul_div_cancel' (leastFactor_dvd n)

theorem div_leastFactor_lt {n : Nat} (hn : 1 < n) : n / leastFactor n < n :=
  Nat.div_lt_self (by omega) (one_lt_leastFactor hn)

theorem strided_lt {p m j r : Nat} (hj : j < m) (hr : r < p) : p * j + r < p * m :=
  calc p * j + r < p * j + p := by omega
    _ = p * (j + 1) := (Nat.mul_succ p j).symm
    _ ≤ p * m := Nat.mul_le_mul_left p hj

variable {α : Type} [Sample α]

/-- The point of the unit circle at `k / n` of a turn. -/
def unitRoot (n k : Nat) : Cplx α := ⟨(Sample.turn n k).1, (Sample.turn n k).2⟩

/-- One column of every residue class modulo the least factor is transformed on its own; a bin sums
its entry of each column, turned by the column's phase. A prime length is a plain sum. -/
def mixedRadix (root : Nat → Nat → Cplx α) (n : Nat) (x : Vector (Cplx α) n) :
    Vector (Cplx α) n :=
  if hn : n ≤ 1 then x
  else
    let p := leastFactor n
    let m := n / p
    have hpm : p * m = n := leastFactor_mul_div n
    have hm : 0 < m := Nat.pos_of_ne_zero fun h => by simp [h] at hpm; omega
    let twiddles : Vector (Cplx α) n := Vector.ofFn fun k => root n k
    let columns : Vector (Vector (Cplx α) m) p := Vector.ofFn fun r =>
      mixedRadix root m (Vector.ofFn fun j =>
        have hjr : p * j.val + r.val < n := hpm ▸ strided_lt j.isLt r.isLt
        x[p * j.val + r.val])
    Vector.ofFn fun k => Fin.foldl p (fun acc r =>
      have hk : k.val % m < m := Nat.mod_lt _ hm
      have hrk : r.val * k.val % n < n := Nat.mod_lt _ (by omega)
      acc + twiddles[r.val * k.val % n] * columns[r][k.val % m]) 0
termination_by n
decreasing_by exact div_leastFactor_lt (by omega)

instance (priority := low) : Transform α where
  forward x := mixedRadix (fun n k => (unitRoot n k).conj) _ x
  backward x := mixedRadix unitRoot _ x
  scratchLength n := n
  leftover bins := bins

end AnalyticTrace
