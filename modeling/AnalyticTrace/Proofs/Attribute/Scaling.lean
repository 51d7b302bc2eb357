import AnalyticTrace.Proofs.Analytic.OneSided
import AnalyticTrace.Proofs.Attribute.Selection

namespace AnalyticTrace

open scoped Real

/-- A vector points the same way however long it is. -/
class RayAngle [Angle] : Prop where
  angle_mul {c : ℝ} (hc : 0 < c) (y x : ℝ) : Angle.angle (c * y) (c * x) = Angle.angle y x

instance : RayAngle where
  angle_mul {c} hc y x := by
    have hlegs : (⟨c * x, c * y⟩ : ℂ) = c * ⟨x, y⟩ := by
      apply Complex.ext
      · simp
      · simp
    exact (congrArg Complex.arg hlegs).trans (Complex.arg_real_mul _ hc)

section Arithmetic
variable [Angle]

theorem norm_scale (z : Cplx ℝ) (c : ℝ) : (z.scale c).norm = |c| * z.norm := by
  have hlegs : (z.re * c) ^ 2 + (z.im * c) ^ 2 = c ^ 2 * (z.re ^ 2 + z.im ^ 2) := by ring
  calc √((z.re * c) ^ 2 + (z.im * c) ^ 2)
    _ = √(c ^ 2) * √(z.re ^ 2 + z.im ^ 2) := by rw [hlegs, Real.sqrt_mul (sq_nonneg c)]
    _ = |c| * √(z.re ^ 2 + z.im ^ 2) := by rw [Real.sqrt_sq_eq_abs]

theorem phaseOf_scale [RayAngle] (z : Cplx ℝ) {c : ℝ} (hc : 0 < c) :
    phaseOf (z.scale c) = phaseOf z := by
  have harg : (z.scale c).arg = z.arg := by
    rw [Cplx.arg, Cplx.scale, mul_comm z.re, mul_comm z.im]
    exact RayAngle.angle_mul hc z.im z.re
  rw [phaseOf, harg, phaseOf]

omit [Angle] in
theorem realBins_padded_scale {n : ℕ} [NeZero n] (x : Array ℝ) (c : ℝ) :
    realBins (padded n (x.map (c * ·))) = (c : ℂ) • realBins (padded n x) := by
  have hpadded : (fun j => (padded n (x.map (c * ·)) j : ℂ)) =
      (c : ℂ) • fun j => (padded n x j : ℂ) := by
    funext j
    rw [padded, getD_map_zero (mul_zero c), Complex.ofReal_mul]
    rfl
  rw [realBins, hpadded, LinearEquiv.map_smul]
  rfl

/-- The analytic signal is linear in the trace, so far as factors go. -/
theorem analyticVector_scale [Transform ℝ] [ExactTransform] {n : ℕ} [NeZero n] (x : Array ℝ)
    (c : ℝ) : analyticVector n (x.map (c * ·)) = (analyticVector n x).map (·.scale c) := by
  apply analyticVector_eq_of_bins
  intro k
  rw [onResidues_scale, LinearEquiv.map_smul, dft_analyticVector, realBins_padded_scale]
  simp only [Pi.smul_apply, smul_eq_mul, mul_assoc]

section Slopes
variable (c s h : ℝ)

theorem slopeAt_scale (n : ℕ) (x : ℕ → ℝ) (i : ℕ) :
    slopeAt (s * h) n (fun j => c * x j) i = c / s * slopeAt h n x i := by
  have hquotient (a b d : ℝ) : (c * a - c * b) / (s * d) = c / s * ((a - b) / d) := by
    rw [← mul_sub, mul_div_mul_comm]
  rw [slopeAt, slopeAt, ← mul_add]
  simp only [hquotient]
  split_ifs
  · rw [mul_zero]
  all_goals rfl

theorem gradient_scale (x : Array ℝ) :
    gradient (s * h) (x.map (c * ·)) = (gradient h x).map (c / s * ·) := by
  apply Array.ext
  · rw [size_gradient, Array.size_map, Array.size_map, size_gradient]
  · intro i hi hi'
    rw [getElem_gradient, Array.getElem_map, getElem_gradient, Array.size_map]
    simp only [getD_map_zero (mul_zero c)]
    exact slopeAt_scale c s h x.size _ i

end Slopes
end Arithmetic

/-- What becomes of the attributes of a trace whose samples are `c` times as large and `s` times as
far apart. A reversed trace turns its phases by half a circle, and with them the jumps that are
removed, so nothing is said there of what is read off the phase. -/
structure ScaledAttributes (c s : ℝ) (f g : Attribute → Array ℝ) : Prop where
  value : g .value = (f .value).map (c * ·)
  hilbert : g .hilbert = (f .hilbert).map (c * ·)
  envelope : g .envelope = (f .envelope).map (|c| * ·)
  bandwidth : g .bandwidth = (f .bandwidth).map (1 / s * ·)
  phase : 0 < c → g .phase = f .phase
  frequency : 0 < c → g .frequency = (f .frequency).map (1 / s * ·)
  sweetness : 0 < c → g .sweetness = (f .sweetness).map (c * √s * ·)

namespace AttributeExtractor

theorem frequency_scale [Angle] (s dt : ℝ) (phase : Array ℝ) :
    frequency (s * dt) phase = (frequency dt phase).map (1 / s * ·) := by
  have hslopes := gradient_scale 1 s dt (unwrap phase)
  simp only [one_mul, Array.map_id'] at hslopes
  rw [frequency, hslopes, frequency, Array.map_map, Array.map_map]
  congr 1
  funext d
  exact mul_div_assoc (1 / s) d Sample.twoPi

theorem bandwidth_scale [Angle] {c s : ℝ} (hc : 0 < c) (hs : 0 < s) (dt : ℝ) (envelope : Array ℝ) :
    bandwidth (s * dt) (envelope.map (c * ·)) = (bandwidth dt envelope).map (1 / s * ·) := by
  rw [bandwidth, gradient_scale, Array.zipWith_map, bandwidth, Array.map_zipWith]
  congr 1
  funext d e
  -- A factor moves no zero, so both runs are guarded at the same samples.
  by_cases he : e = 0
  · simp [he]
  · have hguard : c * e ≠ 0 := mul_ne_zero hc.ne' he
    have hslope : |c / s * d| = c * (1 / s * |d|) := by
      rw [abs_mul, abs_of_pos (div_pos hc hs)]
      ring
    simp only [beq_iff_eq, if_neg he, if_neg hguard, Sample.abs]
    rw [hslope, mul_left_comm _ c e, mul_div_mul_left _ _ hc.ne', mul_div_assoc]

theorem sweetness_scale [Angle] {s : ℝ} (hs : 0 < s) (c : ℝ) (envelope frequency : Array ℝ) :
    sweetness (envelope.map (c * ·)) (frequency.map (1 / s * ·)) =
      (sweetness envelope frequency).map (c * √s * ·) := by
  rw [sweetness, Array.zipWith_map, sweetness, Array.map_zipWith]
  congr 1
  funext e f
  by_cases hf : f = 0
  · simp [hf]
  · have hguard : 1 / s * f ≠ 0 := mul_ne_zero (one_div_ne_zero hs.ne') hf
    have hroot : √|1 / s * f| = √|f| / √s := by
      rw [abs_mul, abs_of_pos (one_div_pos.2 hs), one_div_mul_eq_div, Real.sqrt_div (abs_nonneg f)]
    simp only [beq_iff_eq, if_neg hf, if_neg hguard, Sample.abs, Sample.sqrt]
    rw [hroot, div_div_eq_mul_div]
    ring

theorem scaledAttributes_attributeOf [Angle] [RayAngle] {c s : ℝ} (hc : c ≠ 0) (hs : 0 < s) (dt : ℝ)
    (x : Array ℝ) (analytic : Array (Cplx ℝ)) :
    ScaledAttributes c s (attributeOf dt x analytic)
      (attributeOf (s * dt) (x.map (c * ·)) (analytic.map (·.scale c))) := by
  have henvelope : (Polar.ofAnalytic (analytic.map (·.scale c))).envelope =
      (Polar.ofAnalytic analytic).envelope.map (|c| * ·) := by
    simp only [Polar.ofAnalytic, Array.map_map, Function.comp_def, norm_scale]
  have hphase (hpos : 0 < c) : (Polar.ofAnalytic (analytic.map (·.scale c))).phase =
      (Polar.ofAnalytic analytic).phase := by
    simp only [Polar.ofAnalytic, Array.map_map, Function.comp_def, phaseOf_scale _ hpos]
  have hfrequency (hpos : 0 < c) :
      frequency (s * dt) (Polar.ofAnalytic (analytic.map (·.scale c))).phase =
        (frequency dt (Polar.ofAnalytic analytic).phase).map (1 / s * ·) := by
    rw [hphase hpos, frequency_scale]
  exact {
    value := rfl
    hilbert := by
      simp only [attributeOf, Polar.ofAnalytic, Array.map_map, Function.comp_def, Cplx.scale,
        mul_comm]
    envelope := henvelope
    bandwidth := by
      rw [attributeOf, henvelope]
      exact bandwidth_scale (abs_pos.2 hc) hs dt _
    phase := hphase
    frequency := hfrequency
    sweetness := fun hpos => by
      rw [attributeOf, henvelope, hfrequency hpos, abs_of_pos hpos]
      exact sweetness_scale hs c _ _ }

theorem ofConfig_real_eq_ok [Angle] {config k : AttributeExtractor ℝ} :
    ofConfig config = .ok k ↔ k = config ∧ config.attributes ≠ [] ∧ config.attributes.Nodup ∧
      0 < config.sampleInterval := by
  have hspacing : checkSpacing config.sampleInterval "sample_interval" = .ok () ↔
      0 < config.sampleInterval := by
    rw [checkSpacing_eq_ok, not_le]
    exact and_iff_right rfl
  rw [ofConfig_eq_ok, hspacing]

/-- An extractor knows no units: another unit of the samples or of the time between them comes out
as a factor, also where an attribute is set to zero. -/
theorem run_scaled [Angle] [RayAngle] [Transform ℝ] [ExactTransform] {x : Array ℝ} (hx : 0 < x.size)
    {c s : ℝ} (hc : c ≠ 0) (hs : 0 < s) (dt : ℝ) :
    ∃ f g : Attribute → Array ℝ, (∀ a, (f a).size = x.size) ∧ ScaledAttributes c s f g ∧
      ∀ attributes parallel k, ofConfig ⟨attributes, dt, parallel⟩ = .ok k →
        ∃ k', ofConfig ⟨attributes, s * dt, parallel⟩ = .ok k' ∧
          ∀ input scaled : Buffer ℝ, input.read = .ok x → scaled.read = .ok (x.map (c * ·)) →
            k.run input = .ok (attributes.map f) ∧ k'.run scaled = .ok (attributes.map g) := by
  have : NeZero x.size := ⟨hx.ne'⟩
  refine ⟨_, _, size_attributeOf dt (Vector.size_toArray (analyticVector x.size x)),
    scaledAttributes_attributeOf hc hs dt x (analyticVector x.size x).toArray,
    fun attributes parallel k hk => ?_⟩
  obtain ⟨rfl, hne, hnodup, hdt⟩ := ofConfig_real_eq_ok.1 hk
  refine ⟨_, ofConfig_real_eq_ok.2 ⟨rfl, hne, hnodup, mul_pos hs hdt⟩, ?_⟩
  intro input scaled hread hread'
  have hsize : (x.map (c * ·)).size = x.size := Array.size_map ..
  constructor
  · rw [run_of_read _ hread, runTrace_eq _ hx]
  · rw [run_of_read _ hread', runTrace_eq _ (hx.trans_eq hsize.symm), hsize, analyticVector_scale,
      Vector.toArray_map]

theorem run_scaled_three :
    ofConfig ⟨[.sweetness, .value, .phase], (1 / 2 : ℝ), false⟩ =
        .ok ⟨[.sweetness, .value, .phase], 1 / 2, false⟩ ∧
      ∃ sweetness value phase : Array ℝ, sweetness.size = 3 ∧
        run ⟨[.sweetness, .value, .phase], 1 / 2, false⟩ (.list #[(1 : ℝ), -2, 3]) =
          .ok [sweetness, value, phase] ∧
        run ⟨[.sweetness, .value, .phase], 4 * (1 / 2), false⟩ (.list #[(3 : ℝ), -6, 9]) =
          .ok [sweetness.map (6 * ·), value.map (3 * ·), phase] := by
  have hconfig : ofConfig ⟨[.sweetness, .value, .phase], (1 / 2 : ℝ), false⟩ =
      .ok ⟨[.sweetness, .value, .phase], 1 / 2, false⟩ :=
    ofConfig_real_eq_ok.2 ⟨rfl, List.cons_ne_nil _ _, by decide, half_pos one_pos⟩
  have hmap : #[(1 : ℝ), -2, 3].map (3 * ·) = #[3, -6, 9] := by norm_num
  have hread : (Buffer.list #[(3 : ℝ), -6, 9]).read = .ok (#[(1 : ℝ), -2, 3].map (3 * ·)) :=
    congrArg Except.ok hmap.symm
  have hgain : (3 : ℝ) * √4 = 6 := by
    rw [Real.sqrt_eq_cases.2 (.inl ⟨by norm_num, two_pos.le⟩)]
    norm_num
  have hpos : (0 : ℝ) < 4 := four_pos
  obtain ⟨f, g, hsize, hscaled, hrun⟩ :=
    run_scaled (x := #[(1 : ℝ), -2, 3]) (by decide) (three_ne_zero' ℝ) hpos (1 / 2)
  obtain ⟨k', hk', hboth⟩ := hrun _ _ _ hconfig
  obtain ⟨rfl, -⟩ := ofConfig_real_eq_ok.1 hk'
  obtain ⟨hplain, hscaledRun⟩ := hboth (.list #[1, -2, 3]) _ rfl hread
  refine ⟨hconfig, f .sweetness, f .value, f .phase, hsize .sweetness, hplain, ?_⟩
  rw [hscaledRun, List.map_cons, List.map_cons, List.map_cons, List.map_nil,
    hscaled.sweetness three_pos, hscaled.value, hscaled.phase three_pos, hgain]

end AttributeExtractor
end AnalyticTrace
