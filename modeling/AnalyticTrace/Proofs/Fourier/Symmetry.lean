import AnalyticTrace.Proofs.Fourier.Sums

namespace AnalyticTrace

open Complex (I exp)
open scoped Real ComplexConjugate

variable {n : ℕ}

theorem neg_eq_of_middle {k : ZMod n} (hk : 2 * k.val = n) : -k = k :=
  (ZMod.neg_eq_self_iff k).2 (.inr hk)

variable [NeZero n]

theorem dft_conj (y : ZMod n → ℂ) (k : ZMod n) :
    ZMod.dft (fun j => conj (y j)) k = conj (ZMod.dft y (-k)) := by
  rw [ZMod.dft_apply, ZMod.dft_apply, map_sum]
  apply Finset.sum_congr rfl
  intro j _
  rw [smul_eq_mul, smul_eq_mul, map_mul, ← AddChar.map_neg_eq_conj, mul_neg, neg_neg]

/-- Starting `r` samples later turns every bin. -/
theorem dft_shift (y : ZMod n → ℂ) (r k : ZMod n) :
    ZMod.dft (fun j => y (j + r)) k = ZMod.stdAddChar (r * k) * ZMod.dft y k := by
  have hturn (j : ZMod n) : ZMod.stdAddChar (-(j * k)) =
      ZMod.stdAddChar (r * k) * ZMod.stdAddChar (-((j + r) * k)) := by
    rw [← AddChar.map_add_eq_mul]
    congr 1
    ring
  calc ZMod.dft (fun j => y (j + r)) k
    _ = ∑ j, ZMod.stdAddChar (r * k) * (ZMod.stdAddChar (-((j + r) * k)) * y (j + r)) := by
      rw [ZMod.dft_apply]
      apply Finset.sum_congr rfl
      intro j _
      rw [hturn, smul_eq_mul, mul_assoc]
    _ = ∑ j, ZMod.stdAddChar (r * k) * (ZMod.stdAddChar (-(j * k)) * y j) :=
      Equiv.sum_comp (Equiv.addRight r) fun j =>
        ZMod.stdAddChar (r * k) * (ZMod.stdAddChar (-(j * k)) * y j)
    _ = ZMod.stdAddChar (r * k) * ZMod.dft y k := by
      simp only [ZMod.dft_apply, smul_eq_mul, Finset.mul_sum]

noncomputable def realBins (f : ZMod n → ℝ) : ZMod n → ℂ := ZMod.dft fun j => (f j : ℂ)

theorem realBins_neg (f : ZMod n → ℝ) (k : ZMod n) : conj (realBins f (-k)) = realBins f k := by
  rw [realBins, ← dft_conj]
  simp only [Complex.conj_ofReal]

theorem realBins_im {f : ZMod n → ℝ} {k : ZMod n} (hk : -k = k) : (realBins f k).im = 0 := by
  rw [← Complex.conj_eq_iff_im]
  nth_rewrite 1 [← hk]
  exact realBins_neg f k

/-- The real parts of a signal are `f` if and only if mirrored bins add up to twice those of `f`. -/
theorem re_eq_iff_bins (f : ZMod n → ℝ) (y : ZMod n → ℂ) :
    (∀ j, (y j).re = f j) ↔
      ∀ k, ZMod.dft y k + conj (ZMod.dft y (-k)) = 2 * realBins f k := by
  have hsum (k : ZMod n) : ZMod.dft (fun j => y j + conj (y j)) k =
      ZMod.dft y k + conj (ZMod.dft y (-k)) := by
    rw [← dft_conj, ← Pi.add_apply, ← map_add]
    rfl
  have htwice (k : ZMod n) : ZMod.dft (fun j => (2 * f j : ℂ)) k = 2 * realBins f k := by
    rw [ZMod.dft_const_mul]
    rfl
  have hre (j : ZMod n) : (y j).re = f j ↔ y j + conj (y j) = 2 * f j := by
    rw [Complex.add_conj, ← Complex.ofReal_ofNat, ← Complex.ofReal_mul, Complex.ofReal_inj]
    exact (mul_right_inj' two_ne_zero).symm
  calc (∀ j, (y j).re = f j)
    _ ↔ (fun j => y j + conj (y j)) = fun j => (2 * f j : ℂ) := by simp only [hre, funext_iff]
    _ ↔ ZMod.dft (fun j => y j + conj (y j)) = ZMod.dft fun j => (2 * f j : ℂ) :=
      (EmbeddingLike.apply_eq_iff_eq _).symm
    _ ↔ _ := by simp only [funext_iff, hsum, htwice]

theorem dft_zero_im (y : ZMod n → ℂ) : (ZMod.dft y 0).im = ∑ j, (y j).im := by
  rw [ZMod.dft_apply_zero, Complex.im_sum]

theorem stdAddChar_middle {k : ZMod n} (hk : 2 * k.val = n) (j : ZMod n) :
    ZMod.stdAddChar (-(j * k)) = (-1) ^ j.val := by
  have hn : (n : ℂ) = 2 * k.val := by exact_mod_cast hk.symm
  have h0 : (k.val : ℂ) ≠ 0 := by
    intro h
    rw [h, mul_zero] at hn
    exact NeZero.ne (n : ℂ) hn
  have he : -(2 * π * I * (j.val * k.val : ℕ) / n) = j.val * -(π * I) := by
    rw [hn]
    push_cast
    field_simp
  rw [stdAddChar_neg_mul, he, Complex.exp_nat_mul, Complex.exp_neg, Complex.exp_pi_mul_I, inv_neg,
    inv_one]

theorem dft_middle_im {k : ZMod n} (hk : 2 * k.val = n) (y : ZMod n → ℂ) :
    (ZMod.dft y k).im = ∑ j, (-1) ^ j.val * (y j).im := by
  rw [ZMod.dft_apply, Complex.im_sum]
  apply Finset.sum_congr rfl
  intro j _
  have hsign : ((-1 : ℂ) ^ j.val) = ((-1) ^ j.val : ℝ) := by push_cast; rfl
  rw [stdAddChar_middle hk, smul_eq_mul, hsign, Complex.im_ofReal_mul]

end AnalyticTrace
