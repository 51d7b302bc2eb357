import AnalyticTrace.Proofs.Exact.Real
import AnalyticTrace.Proofs.Gradient.Slopes

namespace AnalyticTrace

section Slopes
variable [Angle] {h : ℝ} {n : ℕ} {x y : ℕ → ℝ}

/-- Moving all samples by the same moves no slope. -/
theorem slopeAt_offset {c : ℝ} (hxy : ∀ j < n, y j = x j + c) (h : ℝ) {i : ℕ} (hi : i < n) :
    slopeAt h n y i = slopeAt h n x i := by
  have hplace : n = 1 ∨ 1 < n ∧ i = 0 ∨ 0 < i ∧ i + 1 = n ∨ 0 < i ∧ i + 1 < n := by omega
  rcases hplace with rfl | ⟨hn, rfl⟩ | ⟨h0, hn⟩ | ⟨h0, hn⟩
  · rw [slopeAt_single, slopeAt_single]
  · rw [slopeAt_left _ _ hn, slopeAt_left _ _ hn, hxy 1 hn, hxy 0 hi, add_sub_add_right_eq_sub]
  · rw [slopeAt_right _ _ h0 hn, slopeAt_right _ _ h0 hn, hxy i hi, hxy (i - 1) (by omega),
      add_sub_add_right_eq_sub]
  · rw [slopeAt_inside _ _ h0 hn, slopeAt_inside _ _ h0 hn, hxy (i + 1) hn, hxy (i - 1) (by omega),
      add_sub_add_right_eq_sub]

/-- A central slope ties a sample to the one after the next, so even and odd samples each hang
together; the slope at the left end ties both chains to each other. -/
theorem sub_eq_of_slopes (hh : 0 < h) (hslopes : ∀ i < n, slopeAt h n x i = slopeAt h n y i)
    {i : ℕ} (hi : i < n) : y i - x i = y 0 - x 0 := by
  induction i using Nat.twoStepInduction with
  | zero => rfl
  | one =>
    have hleft := hslopes 0 (Nat.zero_lt_of_lt hi)
    rw [slopeAt_left _ _ hi, slopeAt_left _ _ hi, div_left_inj' hh.ne'] at hleft
    linarith
  | more i ih _ =>
    have hinside := hslopes (i + 1) (Nat.lt_of_succ_lt hi)
    rw [slopeAt_inside _ _ (Nat.zero_lt_succ i) hi, slopeAt_inside _ _ (Nat.zero_lt_succ i) hi,
      div_left_inj' (add_pos hh hh).ne', Nat.succ_eq_add_one, Nat.add_sub_cancel] at hinside
    have hbefore := ih (by omega)
    linarith

end Slopes

noncomputable def gradientVector [Angle] (h : ℝ) {n : ℕ} (x : Vector ℝ n) : Vector ℝ n :=
  ⟨gradient h x.toArray, (size_gradient h x.toArray).trans x.size_toArray⟩

section Sequences
variable {n : ℕ} (x y : Vector ℝ n)

theorem eq_map_add_iff (c : ℝ) :
    y = x.map (· + c) ↔ ∀ i < n, y.toArray.getD i 0 = x.toArray.getD i 0 + c := by
  have hsample (z : Vector ℝ n) {i : ℕ} (hi : i < n) : z.toArray.getD i 0 = z[i] := by
    simp [hi]
  rw [Vector.ext_iff]
  refine forall₂_congr fun i hi => ?_
  rw [Vector.getElem_map, hsample y hi, hsample x hi]

theorem getElem_gradientVector [Angle] (h : ℝ) {i : ℕ} (hi : i < n) :
    (gradientVector h x)[i] = slopeAt h n (x.toArray.getD · 0) i := by
  have hsize : i < (gradient h x.toArray).size := by
    rwa [size_gradient, Vector.size_toArray]
  have hslope := getElem_gradient h x.toArray hsize
  rwa [Vector.size_toArray] at hslope

end Sequences

/-- The derivative tells a sequence from all others of its length, except for its offset. -/
theorem timeDerivative_eq_iff [Angle] {dt : ℝ} (hdt : 0 < dt) {n : ℕ} (x y : Vector ℝ n) :
    ∃ u v : Vector ℝ n, timeDerivative x.toArray dt = .ok u.toArray ∧
      timeDerivative y.toArray dt = .ok v.toArray ∧ (u = v ↔ ∃ c, y = x.map (· + c)) := by
  have hspacing : checkSpacing dt "spacing" = .ok () := checkSpacing_eq_ok.2 ⟨rfl, hdt.not_ge⟩
  refine ⟨gradientVector dt x, gradientVector dt y, timeDerivative_eq hspacing _,
    timeDerivative_eq hspacing _, ?_⟩
  rw [Vector.ext_iff]
  simp only [getElem_gradientVector]
  constructor
  · intro hslopes
    refine ⟨y.toArray.getD 0 0 - x.toArray.getD 0 0, (eq_map_add_iff x y _).2 fun i hi => ?_⟩
    rw [← sub_eq_of_slopes hdt hslopes hi, add_sub_cancel]
  · rintro ⟨c, hc⟩ i hi
    exact (slopeAt_offset ((eq_map_add_iff x y c).1 hc) dt hi).symm

/-- Between its ends a checkerboard has no slope, whichever colour comes first; the ends tell. -/
theorem timeDerivative_eq_iff_checkerboard :
    (0 : ℝ) < 1 / 2 ∧
      timeDerivative #[(0 : ℝ), 1, 0, 1] (1 / 2) ≠ timeDerivative #[(1 : ℝ), 0, 1, 0] (1 / 2) := by
  have hdt : (0 : ℝ) < 1 / 2 := half_pos one_pos
  obtain ⟨u, v, hu, hv, hiff⟩ := timeDerivative_eq_iff hdt #v[(0 : ℝ), 1, 0, 1] #v[1, 0, 1, 0]
  refine ⟨hdt, fun heq => ?_⟩
  rw [hu, hv, Except.ok.injEq, Vector.toArray_inj, hiff] at heq
  obtain ⟨c, hc⟩ := heq
  have hfirst := (eq_map_add_iff _ _ c).1 hc 0 (by decide)
  have hsecond := (eq_map_add_iff _ _ c).1 hc 1 (by decide)
  norm_num at hfirst hsecond
  linarith

end AnalyticTrace
