import Mathlib.Data.List.Rotate
import AnalyticTrace.Proofs.Analytic.Quadrature

namespace AnalyticTrace

open scoped ComplexConjugate

section Places
variable {β : Type} {n : ℕ}

/-- Sample `i + r` comes to place `i`, counted around. By `n - r` samples it is the rotation the
other way. -/
def rotateLeft (x : Vector β n) (r : ℕ) : Vector β n :=
  ⟨(x.toList.rotate r).toArray, by simp⟩

variable [NeZero n]

theorem get_rotateLeft (x : Vector β n) (r : ℕ) (j : ZMod n) :
    (rotateLeft x r).get ⟨j.val, j.val_lt⟩ = x.get ⟨(j + r).val, (j + r).val_lt⟩ := by
  have hplace : (j + r).val = (j.val + r) % n := by
    rw [ZMod.val_add, ZMod.val_natCast, Nat.add_mod_mod]
  simp only [hplace]
  refine (List.getElem_rotate x.toList r j.val _).trans ?_
  simp only [Vector.length_toList]
  rfl

theorem get_reverse_residue (x : Vector β n) (j : ZMod n) :
    x.reverse.get ⟨j.val, j.val_lt⟩ = x.get ⟨(-(j + 1)).val, (-(j + 1)).val_lt⟩ := by
  have hlt := j.val_lt
  have hresidue : -(j + 1) = (n - 1 - j.val : ℕ) := by
    rw [Nat.sub_sub, Nat.cast_sub (by omega), Nat.cast_add, ZMod.natCast_self,
      ZMod.natCast_zmod_val, Nat.cast_one, zero_sub, add_comm]
  have hplace : (-(j + 1)).val = n - 1 - j.val := by
    rw [hresidue, ZMod.val_cast_of_lt (by omega)]
  simp only [hplace]
  exact Vector.getElem_reverse hlt

end Places

section Bins
variable {n : ℕ} [NeZero n]

theorem realBins_combine (f g : ZMod n → ℝ) (a b : ℝ) (k : ZMod n) :
    realBins (fun j => a * f j + b * g j) k = a * realBins f k + b * realBins g k := by
  have hparts : (fun j => ((a * f j + b * g j : ℝ) : ℂ)) =
      (a : ℂ) • (fun j => (f j : ℂ)) + (b : ℂ) • fun j => (g j : ℂ) := by
    funext j
    push_cast
    rfl
  rw [realBins, hparts, map_add, map_smul, map_smul]
  rfl

theorem realBins_rotate (f : ZMod n → ℝ) (r k : ZMod n) :
    realBins (fun j => f (j + r)) k = ZMod.stdAddChar (r * k) * realBins f k :=
  dft_shift (fun j => (f j : ℂ)) r k

/-- The bins of a sequence that is read backward. -/
theorem dft_reverse (y : ZMod n → ℂ) (k : ZMod n) :
    ZMod.dft (fun j => y (-(j + 1))) k = ZMod.stdAddChar k * ZMod.dft y (-k) := by
  -- Backward is mirrored at sample zero, and then started one sample later.
  have hshift := dft_shift (fun j => y (-j)) 1 k
  rw [ZMod.dft_comp_neg, one_mul] at hshift
  exact hshift

theorem realBins_reverse (f : ZMod n → ℝ) (k : ZMod n) :
    realBins (fun j => f (-(j + 1))) k = ZMod.stdAddChar k * conj (realBins f k) := by
  have hconj := realBins_neg f (-k)
  rw [neg_neg] at hconj
  rw [hconj]
  exact dft_reverse (fun j => (f j : ℂ)) k

end Bins

section Signals
variable [Angle] [Transform ℝ] [ExactTransform] {n : ℕ} [NeZero n]

theorem analyticVector_combine (x w : Vector ℝ n) (a b : ℝ) :
    analyticVector n (Vector.zipWith (fun s t => a * s + b * t) x w).toArray =
      Vector.zipWith (fun z v => z.scale a + v.scale b) (analyticVector n x.toArray)
        (analyticVector n w.toArray) := by
  have hpadded : padded n (Vector.zipWith (fun s t => a * s + b * t) x w).toArray =
      fun j => a * padded n x.toArray j + b * padded n w.toArray j := by
    funext j
    simp only [padded_toArray]
    exact Vector.getElem_zipWith ..
  have hresidues : onResidues (Vector.zipWith (fun z v => z.scale a + v.scale b)
      (analyticVector n x.toArray) (analyticVector n w.toArray)) =
        (a : ℂ) • onResidues (analyticVector n x.toArray) +
          (b : ℂ) • onResidues (analyticVector n w.toArray) := by
    funext j
    simp [onResidues, mul_comm]
  apply analyticVector_eq_of_bins
  intro k
  rw [hpadded, realBins_combine, hresidues, map_add, map_smul, map_smul, dft_analyticVector,
    dft_analyticVector, Pi.add_apply, Pi.smul_apply, Pi.smul_apply, smul_eq_mul, smul_eq_mul]
  ring

theorem analyticVector_rotateLeft (x : Vector ℝ n) (r : ℕ) :
    analyticVector n (rotateLeft x r).toArray = rotateLeft (analyticVector n x.toArray) r := by
  have hpadded : padded n (rotateLeft x r).toArray = fun j => padded n x.toArray (j + r) := by
    funext j
    rw [padded_toArray, padded_toArray, get_rotateLeft]
  have hresidues : onResidues (rotateLeft (analyticVector n x.toArray) r) =
      fun j => onResidues (analyticVector n x.toArray) (j + r) := by
    funext j
    exact congrArg Cplx.toComplex (get_rotateLeft _ r j)
  apply analyticVector_eq_of_bins
  intro k
  rw [hpadded, realBins_rotate, hresidues, dft_shift, dft_analyticVector, mul_assoc]

/-- Read backward, the samples turn the other way. -/
theorem analyticVector_reverse (x : Vector ℝ n) :
    analyticVector n x.reverse.toArray = (analyticVector n x.toArray).reverse.map Cplx.conj := by
  have hpadded : padded n x.reverse.toArray = fun j => padded n x.toArray (-(j + 1)) := by
    funext j
    rw [padded_toArray, padded_toArray, get_reverse_residue]
  have hresidues : onResidues ((analyticVector n x.toArray).reverse.map Cplx.conj) =
      fun j => conj (onResidues (analyticVector n x.toArray) (-(j + 1))) := by
    funext j
    have hplace := get_reverse_residue (analyticVector n x.toArray) j
    exact (congrArg Cplx.toComplex (Vector.getElem_map ..)).trans
      (congrArg (fun z => conj z.toComplex) hplace)
  apply analyticVector_eq_of_bins
  intro k
  rw [hpadded, realBins_reverse, hresidues, dft_conj, dft_reverse, neg_neg, dft_analyticVector,
    map_mul, map_mul, Complex.conj_ofReal, ← AddChar.map_neg_eq_conj, neg_neg, mul_assoc]

end Signals

/-- The analytic signal is linear in the trace, and where the trace goes around it comes along. -/
theorem analyticSignal_equivariant [Angle] [Transform ℝ] [ExactTransform] {n : ℕ} (hn : 0 < n)
    (x w : Vector ℝ n) :
    ∃ y v : Vector (Cplx ℝ) n, analyticSignal x.toArray = .ok y.toArray ∧
      analyticSignal w.toArray = .ok v.toArray ∧
      (∀ a b : ℝ, analyticSignal (Vector.zipWith (fun s t => a * s + b * t) x w).toArray =
        .ok (Vector.zipWith (fun z u => z.scale a + u.scale b) y v).toArray) ∧
      ∀ r : ℕ, analyticSignal (rotateLeft x r).toArray = .ok (rotateLeft y r).toArray := by
  have : NeZero n := ⟨hn.ne'⟩
  refine ⟨_, _, analyticSignal_toArray hn x, analyticSignal_toArray hn w, ?_, ?_⟩
  · intro a b
    rw [analyticSignal_toArray hn, analyticVector_combine]
  · intro r
    rw [analyticSignal_toArray hn, analyticVector_rotateLeft]

theorem analyticSignal_equivariant_three :
    0 < 3 ∧ ∃ y v : Vector (Cplx ℝ) 3, analyticSignal #[(1 : ℝ), 2, 4] = .ok y.toArray ∧
      analyticSignal #[(0 : ℝ), 1, -1] = .ok v.toArray ∧
      analyticSignal #[(2 : ℝ), 1, 11] =
        .ok (Vector.zipWith (fun z u => z.scale 2 + u.scale (-3)) y v).toArray ∧
      analyticSignal #[(4 : ℝ), 1, 2] = .ok (rotateLeft y 2).toArray := by
  have hpos : 0 < 3 := by decide
  obtain ⟨y, v, hy, hv, hcombine, hrotate⟩ :=
    analyticSignal_equivariant hpos #v[(1 : ℝ), 2, 4] #v[(0 : ℝ), 1, -1]
  have hsum := hcombine 2 (-3)
  have hturned := hrotate 2
  refine ⟨hpos, y, v, hy, hv, ?_, hturned⟩
  rw [← hsum]
  norm_num

end AnalyticTrace
