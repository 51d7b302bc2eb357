import AnalyticTrace.Proofs.Unwrap.Jumps
import AnalyticTrace.Proofs.Attribute.Selection

namespace AnalyticTrace

open scoped Real

theorem abs_div_le {h b jump : ℝ} (hh : 0 < h) (hjump : |jump| ≤ b) : |jump / h| ≤ b / h := by
  rw [abs_div, abs_of_pos hh]
  gcongr

section Slopes
variable [Angle]

/-- No difference, one-sided or central, is steeper than the steepest jump. -/
theorem abs_slopeAt_le {h b : ℝ} (hh : 0 < h) (hb : 0 ≤ b) {n : ℕ} {x : ℕ → ℝ}
    (hx : ∀ j, j + 1 < n → |x (j + 1) - x j| ≤ b) {i : ℕ} (hi : i < n) :
    |slopeAt h n x i| ≤ b / h := by
  rw [slopeAt]
  split
  · rw [abs_zero]
    exact div_nonneg hb hh.le
  · cases i with
    | zero => exact abs_div_le hh (hx 0 (by omega))
    | succ j =>
      rw [if_neg (Nat.succ_ne_zero j), Nat.add_sub_cancel]
      split
      · exact abs_div_le hh (hx j hi)
      · -- Two jumps, and twice the spacing.
        have htwo : |x (j + 1 + 1) - x j| ≤ b + b := by
          calc |x (j + 1 + 1) - x j|
            _ ≤ |x (j + 1 + 1) - x (j + 1)| + |x (j + 1) - x j| := abs_sub_le _ _ _
            _ ≤ b + b := add_le_add (hx (j + 1) (by omega)) (hx j hi)
        calc |(x (j + 1 + 1) - x j) / (h + h)|
          _ ≤ (b + b) / (h + h) := abs_div_le (add_pos hh hh) htwo
          _ = b / h := by rw [← two_mul, ← two_mul, mul_div_mul_left _ _ two_ne_zero]

theorem abs_unwrap_step_le {p : Array ℝ} {i : ℕ} (hi : i + 1 < p.size) :
    |(unwrap p).getD (i + 1) 0 - (unwrap p).getD i 0| ≤ π := by
  have hhalf : (Sample.twoPi : ℝ) / 2 = π := by
    rw [twoPi_eq, mul_div_cancel_left₀ π two_ne_zero]
  have hsize : (unwrap p).size = p.size := Unwrapper.size_runTrace _ p
  have hat (j : ℕ) (hj : j < p.size) :
      (unwrap p).getD j 0 = Unwrapper.unwrappedAt ⟨Sample.pi, Sample.twoPi⟩ p j := by
    rw [← Array.getElem_eq_getD (h := hsize ▸ hj)]
    exact Unwrapper.getElem_runTrace_eq _ p (hsize ▸ hj)
  rw [hat _ hi, hat _ (Nat.lt_of_succ_lt hi), Unwrapper.unwrappedAt_succ_sub _ hi, ← hhalf]
  refine Unwrapper.abs_unwrapJump_le ?_ ?_ _
  · rw [twoPi_eq]
    exact Real.two_pi_pos
  · exact hhalf.ge

end Slopes

namespace AttributeExtractor

theorem abs_frequency_le [Angle] {dt : ℝ} (hdt : 0 < dt) (phase : Array ℝ) {i : ℕ}
    (hi : i < (frequency dt phase).size) : |(frequency dt phase)[i]| ≤ 1 / (2 * dt) := by
  have hsize : (unwrap phase).size = phase.size := Unwrapper.size_runTrace _ phase
  have hslope : |slopeAt dt (unwrap phase).size ((unwrap phase).getD · 0) i| ≤ π / dt :=
    abs_slopeAt_le hdt Real.pi_pos.le (fun j hj => abs_unwrap_step_le (hsize ▸ hj))
      (by rwa [hsize, ← size_frequency dt phase])
  have hget : (frequency dt phase)[i] =
      slopeAt dt (unwrap phase).size ((unwrap phase).getD · 0) i / (2 * π) := by
    simp only [frequency, Array.getElem_map, getElem_gradient, twoPi_eq]
  rw [hget, abs_div, abs_of_pos Real.two_pi_pos]
  calc |slopeAt dt (unwrap phase).size ((unwrap phase).getD · 0) i| / (2 * π)
    _ ≤ π / dt / (2 * π) := by gcongr
    _ = 1 / (2 * dt) := by field_simp

/-- No frequency exceeds half the sampling rate, at the ends as little as inside, and whatever the
phases are. -/
theorem run_frequency_le [Angle] [Transform ℝ] {attributes : List Attribute} {dt : ℝ}
    {parallel : Bool} {k : AttributeExtractor ℝ} (hk : ofConfig ⟨attributes, dt, parallel⟩ = .ok k)
    (hfrequency : Attribute.frequency ∈ attributes) {input : Buffer ℝ} {x : Array ℝ}
    (hread : input.read = .ok x) (hx : 0 < x.size) :
    (∃ outputs f, k.run input = .ok outputs ∧
      outputs[attributes.idxOf Attribute.frequency]? = some f ∧ f.size = x.size ∧
        ∀ i (hi : i < f.size), |f[i]| ≤ 1 / (2 * dt)) ∧
      ∀ phase i (hi : i < (frequency dt phase).size), |(frequency dt phase)[i]| ≤ 1 / (2 * dt) := by
  obtain ⟨rfl, -, -, hspacing⟩ := ofConfig_eq_ok.1 hk
  have hdt : 0 < dt := not_le.1 (checkSpacing_eq_ok.1 hspacing).2
  refine ⟨⟨_, attributeOf dt x (analyticVector x.size x).toArray .frequency,
    (run_of_read _ hread).trans (runTrace_eq _ hx), ?_, ?_, fun i hi => ?_⟩,
    fun phase i hi => abs_frequency_le hdt phase hi⟩
  · rw [List.getElem?_map, List.getElem?_idxOf hfrequency]
    rfl
  · exact size_attributeOf dt (Vector.size_toArray _) .frequency
  · exact abs_frequency_le hdt _ hi

theorem run_frequency_le_three :
    ofConfig ⟨[.phase, .frequency], (1 / 2 : ℝ), false⟩ =
        .ok ⟨[.phase, .frequency], 1 / 2, false⟩ ∧
      ∃ (outputs : List (Array ℝ)) (f : Array ℝ),
        run ⟨[.phase, .frequency], 1 / 2, false⟩ (.list #[(1 : ℝ), -2, 3]) = .ok outputs ∧
        outputs[1]? = some f ∧ f.size = 3 ∧ ∀ i (hi : i < f.size), |f[i]| ≤ 1 := by
  have hspacing : checkSpacing (1 / 2 : ℝ) "sample_interval" = .ok () :=
    checkSpacing_eq_ok.2 ⟨rfl, (half_pos one_pos).not_ge⟩
  have hconfig : ofConfig ⟨[.phase, .frequency], (1 / 2 : ℝ), false⟩ =
      .ok ⟨[.phase, .frequency], 1 / 2, false⟩ :=
    ofConfig_eq_ok.2 ⟨rfl, List.cons_ne_nil _ _, by decide, hspacing⟩
  have hread : (Buffer.list #[(1 : ℝ), -2, 3]).read = .ok #[1, -2, 3] := rfl
  obtain ⟨⟨outputs, f, hrun, hf, hsize, hle⟩, -⟩ :=
    run_frequency_le hconfig (by decide) hread (by decide)
  refine ⟨hconfig, outputs, f, hrun, hf, hsize, fun i hi => (hle i hi).trans_eq ?_⟩
  norm_num

end AttributeExtractor
end AnalyticTrace
