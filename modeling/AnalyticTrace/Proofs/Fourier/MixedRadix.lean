import AnalyticTrace.Proofs.Fourier.Sums

namespace AnalyticTrace

open Complex (I exp)
open scoped Real

section Turns
variable {c : ℂ} {n : ℕ}

theorem exp_turn_mod (hc : exp c = 1) (hn : 0 < n) (a : ℕ) :
    exp (c * (a % n : ℕ) / n) = exp (c * a / n) := by
  have h0 : (n : ℂ) ≠ 0 := Nat.cast_ne_zero.2 (Nat.ne_of_gt hn)
  have ha : (a : ℂ) = n * (a / n : ℕ) + (a % n : ℕ) := by
    exact_mod_cast (Nat.div_add_mod a n).symm
  have he : c * a / n = (a / n : ℕ) * c + c * (a % n : ℕ) / n := by
    rw [ha]
    field_simp
  rw [he, Complex.exp_add, Complex.exp_nat_mul, hc, one_pow, one_mul]

theorem exp_turn_split (hc : exp c = 1) {p m : ℕ} (h : p * m = n) (hp : 0 < p) (hm : 0 < m)
    (j r k : ℕ) :
    exp (c * (r * k % n : ℕ) / n) * exp (c * (j * (k % m) : ℕ) / m) =
      exp (c * ((p * j + r) * k : ℕ) / n) := by
  subst h
  have hp0 : (p : ℂ) ≠ 0 := Nat.cast_ne_zero.2 (Nat.ne_of_gt hp)
  have hm0 : (m : ℂ) ≠ 0 := Nat.cast_ne_zero.2 (Nat.ne_of_gt hm)
  have hk : exp (c * (j * (k % m) : ℕ) / m) = exp (c * (j * k : ℕ) / m) := by
    rw [← exp_turn_mod hc hm (j * (k % m)), Nat.mul_mod_mod, exp_turn_mod hc hm]
  rw [exp_turn_mod hc (Nat.mul_pos hp hm), hk, ← Complex.exp_add]
  congr 1
  push_cast
  field_simp
  ring

theorem sum_columns {p m : ℕ} (h : p * m = n) (f : Fin n → ℂ) :
    ∑ r : Fin p, ∑ j : Fin m,
      f ⟨p * j + r, Nat.lt_of_lt_of_eq (strided_lt j.isLt r.isLt) h⟩ = ∑ i, f i := by
  subst h
  rw [Finset.sum_comm, ← Fintype.sum_prod_type']
  refine Fintype.sum_equiv (finProdFinEquiv.trans (finCongr (Nat.mul_comm m p))) _ _ ?_
  rintro ⟨j, r⟩
  congr 1
  apply Fin.ext
  exact (Nat.add_comm _ _).trans (finProdFinEquiv_apply_val (j, r)).symm

end Turns

variable [Angle]

theorem toComplex_foldl {p : ℕ} (f : Fin p → Cplx ℝ) :
    (Fin.foldl p (fun acc r => acc + f r) 0).toComplex = ∑ r, (f r).toComplex := by
  induction p with
  | zero => simp
  | succ p ih => rw [Fin.foldl_succ_last, Cplx.toComplex_add, ih, Fin.sum_univ_castSucc]

theorem mixedRadix_apply {c : ℂ} (hc : exp c = 1) {root : ℕ → ℕ → Cplx ℝ}
    (hroot : ∀ n k, (root n k).toComplex = exp (c * k / n)) (n : ℕ) (x : Vector (Cplx ℝ) n)
    (k : Fin n) :
    ((mixedRadix root n x).get k).toComplex =
      ∑ j : Fin n, (x.get j).toComplex * exp (c * (j * k : ℕ) / n) := by
  induction n using Nat.strong_induction_on with
  | _ n ih =>
  -- The bins of a column repeat with its length, so bin `k` takes entry `k % m` of each.
  rw [mixedRadix]
  by_cases hn : n ≤ 1
  · have hk := k.isLt
    obtain rfl : n = 1 := by omega
    obtain rfl : k = 0 := Subsingleton.elim _ _
    simp
  · have hp : 0 < leastFactor n := Nat.lt_trans Nat.zero_lt_one (one_lt_leastFactor (by omega))
    have hpm := leastFactor_mul_div n
    have hm : 0 < n / leastFactor n := Nat.div_pos (Nat.le_of_dvd (by omega) (leastFactor_dvd n)) hp
    have hget {m : ℕ} (v : Vector (Cplx ℝ) m) (i : Fin m) : v.get i = v[i.val] := rfl
    simp only [dif_neg hn, hget, Vector.getElem_ofFn, Fin.getElem_fin, toComplex_foldl,
      Cplx.toComplex_mul, hroot]
    rw [← sum_columns hpm]
    apply Finset.sum_congr rfl
    intro r _
    have hcolumn := ih _ (div_leastFactor_lt (n := n) (by omega))
      (Vector.ofFn fun j =>
        x[(⟨leastFactor n * j + r, Nat.lt_of_lt_of_eq (strided_lt j.isLt r.isLt) hpm⟩ : Fin n)])
      ⟨k % (n / leastFactor n), Nat.mod_lt _ hm⟩
    simp only [hget, Fin.getElem_fin, Vector.getElem_ofFn] at hcolumn
    refine (congrArg (_ * ·) hcolumn).trans ?_
    rw [Finset.mul_sum]
    apply Finset.sum_congr rfl
    intro j _
    rw [← exp_turn_split hc hpm hp hm]
    ring

omit [Angle] in
theorem toComplex_direction (θ : ℝ) :
    Cplx.toComplex ⟨Real.cos θ, Real.sin θ⟩ = exp (θ * I) := by
  apply Complex.ext
  · exact (Complex.exp_ofReal_mul_I_re θ).symm
  · exact (Complex.exp_ofReal_mul_I_im θ).symm

theorem toComplex_unitRoot (n k : ℕ) :
    (unitRoot n k : Cplx ℝ).toComplex = exp (2 * π * I * k / n) := by
  have h : 2 * π * I * k / n = ((2 * π * k / n : ℝ) : ℂ) * I := by
    push_cast
    ring
  rw [h, ← toComplex_direction]
  rfl

/-- The transform by repeated splitting of the length is the transform by its definition. -/
instance : ExactTransform where
  forward_apply x k := by
    have hc : exp (-(2 * π * I)) = 1 := by rw [Complex.exp_neg, Complex.exp_two_pi_mul_I, inv_one]
    have hroot (n k : ℕ) : (unitRoot n k).conj.toComplex = exp (-(2 * π * I) * k / n) := by
      rw [Cplx.toComplex_conj, toComplex_unitRoot, ← Complex.exp_conj]
      simp [map_ofNat]
    refine (mixedRadix_apply hc hroot _ x k).trans ?_
    simp only [neg_mul, neg_div]
  backward_apply x k := mixedRadix_apply Complex.exp_two_pi_mul_I toComplex_unitRoot _ x k

end AnalyticTrace
