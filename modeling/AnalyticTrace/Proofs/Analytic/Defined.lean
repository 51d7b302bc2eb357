import AnalyticTrace.Proofs.Analytic.Composition
import AnalyticTrace.Proofs.Exact.Partial

namespace AnalyticTrace

section MixedRadix
variable {α β : Type} [Sample α] [Sample β] {f : Cplx α → Cplx β}

theorem foldl_map_add (hzero : f 0 = 0) (hadd : ∀ z w, f (z + w) = f z + f w) {p : ℕ}
    (g : Fin p → Cplx α) :
    Fin.foldl p (fun acc r => acc + f (g r)) 0 = f (Fin.foldl p (fun acc r => acc + g r) 0) := by
  induction p with
  | zero => simp [hzero]
  | succ p ih => rw [Fin.foldl_succ_last, ih, Fin.foldl_succ_last, hadd]

/-- A map that keeps zero, sums and products may be applied before or after the transform. -/
theorem mixedRadix_map (hzero : f 0 = 0) (hadd : ∀ z w, f (z + w) = f z + f w)
    (hmul : ∀ z w, f (z * w) = f z * f w) {root : ℕ → ℕ → Cplx α} {root' : ℕ → ℕ → Cplx β}
    (hroot : ∀ n k, 0 < n → root' n k = f (root n k)) (n : ℕ) (x : Vector (Cplx α) n) :
    mixedRadix root' n (x.map f) = (mixedRadix root n x).map f := by
  induction n using Nat.strong_induction_on with
  | _ n ih =>
  rw [mixedRadix, mixedRadix]
  by_cases hn : n ≤ 1
  · rw [dif_pos hn, dif_pos hn]
  · have hpos : 0 < n := by omega
    have hcolumn (g : Fin (n / leastFactor n) → Cplx α) :
        mixedRadix root' _ (Vector.ofFn fun j => f (g j)) =
          (mixedRadix root _ (Vector.ofFn g)).map f := by
      rw [← ih _ (div_leastFactor_lt (by omega)), Vector.map_ofFn]
      rfl
    apply Vector.ext
    intro k hk
    simp only [dif_neg hn, Vector.getElem_map, Vector.getElem_ofFn, Fin.getElem_fin,
      hroot _ _ hpos, hcolumn, ← hmul, foldl_map_add hzero hadd]

end MixedRadix

/-- A transform that divides by nothing: where all bins have values, it comes to what it comes to on
the values. -/
class DefinedTransform [Transform ℝ] [Transform PartialReal] : Prop where
  forward_toPartial {n : ℕ} (x : Vector (Cplx ℝ) n) :
    Transform.forward (x.map Cplx.toPartial) = (Transform.forward x).map Cplx.toPartial
  backward_toPartial {n : ℕ} (x : Vector (Cplx ℝ) n) :
    Transform.backward (x.map Cplx.toPartial) = (Transform.backward x).map Cplx.toPartial

variable [Angle]

open PartialReal (value)

theorem unitRoot_toPartial {n : ℕ} (hn : 0 < n) (k : ℕ) :
    unitRoot n k = (unitRoot n k).toPartial := by
  rw [unitRoot, PartialReal.turn_eq hn]
  rfl

instance : DefinedTransform where
  forward_toPartial x := by
    refine mixedRadix_map Cplx.toPartial_zero Cplx.toPartial_add Cplx.toPartial_mul ?_ _ x
    intro n k hn
    rw [Cplx.toPartial_conj, unitRoot_toPartial hn]
  backward_toPartial x := by
    refine mixedRadix_map Cplx.toPartial_zero Cplx.toPartial_add Cplx.toPartial_mul ?_ _ x
    intro n k hn
    exact unitRoot_toPartial hn k

theorem maskWeight_value (n k : ℕ) : (maskWeight n k : PartialReal) = value (maskWeight n k) := by
  simp only [maskWeight, PartialReal.zero_eq, PartialReal.one_eq, PartialReal.two_eq_value,
    ← apply_ite value]

/-- The scale divides by the length, which is not zero. -/
theorem scale_value {n : ℕ} (hn : 0 < n) :
    (1 / Sample.ofNat n : PartialReal) = value (1 / Sample.ofNat n) := by
  have hdivisor : (Sample.ofNat n : ℝ) ≠ 0 := Nat.cast_ne_zero.2 hn.ne'
  rw [PartialReal.one_eq, PartialReal.ofNat_eq, PartialReal.value_div hdivisor]

theorem analyticVector_value [Transform ℝ] [Transform PartialReal] [DefinedTransform] {n : ℕ}
    (hn : 0 < n) (x : Array ℝ) :
    analyticVector n (x.map value) = (analyticVector n x).map Cplx.toPartial := by
  have hload : (Vector.ofFn fun i : Fin n => Cplx.ofReal ((x.map value).getD i 0)) =
      (Vector.ofFn fun i : Fin n => Cplx.ofReal (x.getD i 0)).map Cplx.toPartial := by
    rw [Vector.map_ofFn]
    congr 1
    funext i
    rw [getD_map_zero PartialReal.zero_eq.symm, Function.comp_apply, Cplx.toPartial_ofReal]
  have hweigh (v : Vector (Cplx ℝ) n) :
      (Vector.ofFn fun k : Fin n => ((v.map Cplx.toPartial).get k).scale (maskWeight n k)) =
        (Vector.ofFn fun k : Fin n => (v.get k).scale (maskWeight n k)).map Cplx.toPartial := by
    rw [Vector.map_ofFn]
    congr 1
    funext k
    simp [maskWeight_value, Vector.get]
  rw [analyticVector, hload, DefinedTransform.forward_toPartial, hweigh,
    DefinedTransform.backward_toPartial, scale_value hn, analyticVector, Vector.map_map,
    Vector.map_map]
  rfl

end AnalyticTrace
