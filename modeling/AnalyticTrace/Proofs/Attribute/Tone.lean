import AnalyticTrace.Proofs.Analytic.Tone
import AnalyticTrace.Proofs.Attribute.Selection
import AnalyticTrace.Proofs.Unwrap.Recovery

namespace AnalyticTrace

open scoped Real

section Line
variable [Angle] {a s : ℝ}

theorem slopeAt_line {n : ℕ} {x : ℕ → ℝ} (hn : 1 < n) (hx : ∀ j, j < n → x j = a + j * s) (h : ℝ)
    {i : ℕ} (hi : i < n) : slopeAt h n x i = s / h := by
  rw [slopeAt, if_neg hn.ne']
  by_cases hfirst : i = 0
  · rw [if_pos hfirst, hx 1 hn, hx 0 (by omega)]
    push_cast
    ring
  · obtain ⟨j, rfl⟩ := Nat.exists_eq_add_one_of_ne_zero hfirst
    rw [if_neg hfirst, Nat.add_sub_cancel, hx j (by omega)]
    by_cases hlast : j + 1 + 1 = n
    · rw [if_pos hlast, hx (j + 1) hi]
      push_cast
      ring
    · rw [if_neg hlast, hx (j + 1 + 1) (by omega)]
      push_cast
      rw [← mul_div_mul_left s h two_ne_zero]
      ring

theorem gradient_line {p : Array ℝ} (hp : ∀ i (hi : i < p.size), p[i] = a + i * s)
    (hsize : 1 < p.size) (h : ℝ) : gradient h p = Array.replicate p.size (s / h) := by
  have hline (j : ℕ) (hj : j < p.size) : p.getD j 0 = a + j * s := by
    rw [← Array.getElem_eq_getD (h := hj)]
    exact hp j hj
  apply Array.ext
  · rw [size_gradient, Array.size_replicate]
  · intro i hi hi'
    rw [getElem_gradient, Array.getElem_replicate]
    exact slopeAt_line hsize hline h (size_gradient h p ▸ hi)

end Line

theorem phaseOf_eq_arg (z : Cplx ℝ) : phaseOf z = z.toComplex.arg := by
  have hne : z.toComplex.arg ≠ -π := (Complex.neg_pi_lt_arg _).ne'
  exact if_neg fun h => hne (eq_of_beq h)

theorem norm_turning [Angle] {A : ℝ} (hA : 0 < A) (θ : ℝ) :
    Cplx.norm ⟨A * Real.cos θ, A * Real.sin θ⟩ = A := by
  have hsum : (A * Real.cos θ) ^ 2 + (A * Real.sin θ) ^ 2 = A ^ 2 := by
    rw [mul_pow, mul_pow, ← mul_add, Real.cos_sq_add_sin_sq, mul_one]
  exact (congrArg Real.sqrt hsum).trans (Real.sqrt_sq hA.le)

theorem phaseOf_turning {A : ℝ} (hA : 0 < A) (θ : ℝ) :
    phaseOf ⟨A * Real.cos θ, A * Real.sin θ⟩ = principalAngle θ := by
  rw [phaseOf_eq_arg, toComplex_turning, Complex.arg_real_mul _ hA, Complex.arg_exp_mul_I,
    principalAngle]

namespace AttributeExtractor

/-- The frequency of a phase that grows steadily does not depend on where the phase is cut. -/
theorem frequency_wraps [Angle] {θ : ℕ → ℝ} {m : ℕ → ℤ} {p : Array ℝ} {a s : ℝ}
    (hp : Unwrapper.Wraps ⟨Sample.pi, Sample.twoPi⟩ θ m p) (hθ : ∀ i, θ i = a + i * s)
    (hsize : 1 < p.size) (dt : ℝ) :
    frequency dt p = Array.replicate p.size (s / dt / (2 * π)) := by
  have hunwrap : (unwrap p).size = p.size := Unwrapper.size_runTrace _ p
  have hhalf : (Sample.pi : ℝ) = Sample.twoPi / 2 := (add_self_div_two π).symm
  have hline (i : ℕ) (hi : i < (unwrap p).size) :
      (unwrap p)[i] = a + m 0 * Sample.twoPi + i * s := by
    simp only [unwrap]
    rw [Unwrapper.getElem_runTrace_eq, hp.unwrappedAt_eq hhalf (hunwrap ▸ hi), hθ]
    ring
  rw [frequency, gradient_line hline (hunwrap ▸ hsize), hunwrap, Array.map_replicate, twoPi_eq]

theorem bandwidth_const [Angle] {n : ℕ} (hn : 1 < n) (A dt : ℝ) :
    bandwidth dt (Array.replicate n A) = Array.replicate n 0 := by
  have hline (i : ℕ) (hi : i < (Array.replicate n A).size) :
      (Array.replicate n A)[i] = A + i * 0 := by
    rw [Array.getElem_replicate, mul_zero, add_zero]
  have hgradient := gradient_line hline (by rwa [Array.size_replicate]) dt
  rw [Array.size_replicate, zero_div] at hgradient
  rw [bandwidth, hgradient, Array.zipWith_replicate, Nat.min_self]
  simp [Sample.abs]

theorem sweetness_const [Angle] {n : ℕ} {f : ℝ} (hf : 0 < f) (A : ℝ) :
    sweetness (Array.replicate n A) (Array.replicate n f) = Array.replicate n (A / √f) := by
  rw [sweetness, Array.zipWith_replicate, Nat.min_self]
  simp [Sample.abs, Sample.sqrt, hf.ne', abs_of_pos hf]

end AttributeExtractor

section Tone
variable {n k : ℕ}

theorem toneAngle_eq_line (n k : ℕ) (φ : ℝ) (i : ℕ) :
    toneAngle n k φ i = φ + i * (2 * π * k / n) := by
  rw [toneAngle, turnAngle]
  push_cast
  ring

theorem toneAngle_step (hn : 2 * k < n) (φ : ℝ) (i : ℕ) :
    |toneAngle n k φ (i + 1) - toneAngle n k φ i| < π := by
  have hnpos : (0 : ℝ) < n := by exact_mod_cast (Nat.zero_le _).trans_lt hn
  have hstep : toneAngle n k φ (i + 1) - toneAngle n k φ i = 2 * π * k / n := by
    rw [toneAngle_eq_line, toneAngle_eq_line]
    push_cast
    ring
  rw [hstep, abs_of_nonneg (by positivity), div_lt_iff₀ hnpos]
  have hcast : (2 * k : ℝ) < n := by exact_mod_cast hn
  calc 2 * π * k
    _ = π * (2 * k) := by ring
    _ < π * n := mul_lt_mul_of_pos_left hcast Real.pi_pos

noncomputable def tonePhase (n k : ℕ) (φ : ℝ) : Array ℝ :=
  Array.ofFn fun i : Fin n => principalAngle (toneAngle n k φ i)

theorem size_tonePhase (n k : ℕ) (φ : ℝ) : (tonePhase n k φ).size = n := Array.size_ofFn

theorem getElem_tonePhase {φ : ℝ} {i : ℕ} (hi : i < (tonePhase n k φ).size) :
    (tonePhase n k φ)[i] = principalAngle (toneAngle n k φ i) :=
  Array.getElem_ofFn ..

theorem wraps_tonePhase [Angle] (hn : 2 * k < n) (φ : ℝ) :
    Unwrapper.Wraps ⟨Sample.pi, Sample.twoPi⟩ (toneAngle n k φ)
      (fun i => turnsBack (toneAngle n k φ i)) (tonePhase n k φ) where
  samples i hi := by rw [getElem_tonePhase hi, principalAngle_eq, twoPi_eq]
  steps i _ := by
    rw [twoPi_eq, mul_div_cancel_left₀ π two_ne_zero]
    exact toneAngle_step hn φ i

theorem polar_rotatingTone {A : ℝ} (hA : 0 < A) (φ : ℝ) :
    Polar.ofAnalytic (rotatingTone n k A φ).toArray =
      ⟨tonePhase n k φ, Array.replicate n A,
        Array.ofFn fun i : Fin n => A * Real.sin (toneAngle n k φ i)⟩ := by
  have hphase : (rotatingTone n k A φ).toArray.map phaseOf = tonePhase n k φ := by
    rw [rotatingTone, Vector.toArray_ofFn, Array.map_ofFn, tonePhase]
    congr 1
    funext i
    exact phaseOf_turning hA _
  have henvelope : (rotatingTone n k A φ).toArray.map Cplx.norm = Array.replicate n A := by
    apply Array.ext
    · simp
    · intro i hi hi'
      simpa [rotatingTone] using norm_turning hA _
  have hhilbert : (rotatingTone n k A φ).toArray.map Cplx.im =
      Array.ofFn fun i : Fin n => A * Real.sin (toneAngle n k φ i) := by
    rw [rotatingTone, Vector.toArray_ofFn, Array.map_ofFn]
    rfl
  rw [Polar.ofAnalytic, hphase, henvelope, hhilbert]

end Tone

/-- All attributes of a tone, at every sample and so at both ends as well. -/
structure AttributesOfTone (n k : ℕ) (A φ dt : ℝ) (f : Attribute → Array ℝ) : Prop where
  value : f .value = tone n k A φ
  hilbert : f .hilbert = Array.ofFn fun i : Fin n => A * Real.sin (toneAngle n k φ i)
  envelope : f .envelope = Array.replicate n A
  phase_size : (f .phase).size = n
  phase : ∀ i (hi : i < (f .phase).size), (f .phase)[i] ∈ Set.Ioc (-π) π ∧
    ∃ m : ℤ, (f .phase)[i] = toneAngle n k φ i + m * (2 * π)
  frequency : f .frequency = Array.replicate n (k / (n * dt))
  bandwidth : f .bandwidth = Array.replicate n 0
  sweetness : f .sweetness = Array.replicate n (A * √(n * dt / k))

namespace AttributeExtractor

theorem frequency_tonePhase [Angle] {n k : ℕ} (hk : 0 < k) (hn : 2 * k < n) (φ dt : ℝ) :
    frequency dt (tonePhase n k φ) = Array.replicate n (k / (n * dt)) := by
  have hsize : 1 < (tonePhase n k φ).size := by
    rw [size_tonePhase]
    omega
  have hslope : 2 * π * k / n / dt / (2 * π) = k / (n * dt) := by field_simp
  rw [frequency_wraps (wraps_tonePhase hn φ) (toneAngle_eq_line n k φ) hsize, size_tonePhase,
    hslope]

theorem attributesOfTone_attributeOf {n k : ℕ} (hk : 0 < k) (hn : 2 * k < n) {A : ℝ} (hA : 0 < A)
    (φ : ℝ) {dt : ℝ} (hdt : 0 < dt) :
    AttributesOfTone n k A φ dt
      (attributeOf dt (tone n k A φ) (rotatingTone n k A φ).toArray) := by
  have hpolar := polar_rotatingTone (n := n) (k := k) hA φ
  have hfrequency := frequency_tonePhase hk hn φ dt
  have hbandwidth : bandwidth dt (Array.replicate n A) = Array.replicate n 0 :=
    bandwidth_const (by omega) A dt
  have hsweetness : sweetness (Array.replicate n A) (frequency dt (tonePhase n k φ)) =
      Array.replicate n (A * √(n * dt / k)) := by
    have hpos : (0 : ℝ) < k / (n * dt) := by
      have hk' : (0 : ℝ) < k := by exact_mod_cast hk
      have hn' : (0 : ℝ) < n := by exact_mod_cast (Nat.zero_le _).trans_lt hn
      positivity
    rw [hfrequency, sweetness_const hpos, ← inv_div (k : ℝ), Real.sqrt_inv, div_eq_mul_inv]
  exact {
    value := rfl
    hilbert := by rw [attributeOf, hpolar]
    envelope := by rw [attributeOf, hpolar]
    phase_size := by rw [attributeOf, hpolar, size_tonePhase]
    phase := by
      rw [attributeOf, hpolar]
      intro i hi
      rw [getElem_tonePhase hi]
      exact ⟨principalAngle_mem _, _, principalAngle_eq _⟩
    frequency := by rw [attributeOf, hpolar, hfrequency]
    bandwidth := by rw [attributeOf, hpolar, hbandwidth]
    sweetness := by rw [attributeOf, hpolar, hsweetness] }

/-- A tone of fewer cycles than would fill half its samples has the attributes of a tone, whichever
of them are asked for. -/
theorem run_tone [Transform ℝ] [ExactTransform] {n k : ℕ} (hk : 0 < k) (hn : 2 * k < n) {A : ℝ}
    (hA : 0 < A) (φ : ℝ) {dt : ℝ} (hdt : 0 < dt) :
    ∃ f : Attribute → Array ℝ, AttributesOfTone n k A φ dt f ∧
      ∀ attributes parallel, attributes ≠ [] → attributes.Nodup →
        ∃ e, ofConfig ⟨attributes, dt, parallel⟩ = .ok e ∧
          ∀ input : Buffer ℝ, input.read = .ok (tone n k A φ) →
            e.run input = .ok (attributes.map f) := by
  refine ⟨_, attributesOfTone_attributeOf hk hn hA φ hdt, fun attributes parallel hne hnodup => ?_⟩
  have hspacing : checkSpacing dt "sample_interval" = .ok () :=
    checkSpacing_eq_ok.2 ⟨rfl, hdt.not_ge⟩
  have hsize : (tone n k A φ).size = n := Array.size_ofFn
  refine ⟨_, ofConfig_eq_ok.2 ⟨rfl, hne, hnodup, hspacing⟩, fun input hread => ?_⟩
  rw [run_of_read _ hread, runTrace_eq _ (by omega), hsize, analyticVector_tone hk hn]

theorem run_tone_four :
    run ⟨[.sweetness, .frequency], 1, false⟩ (.list #[(2 : ℝ), 0, -2, 0]) =
      .ok [#[4, 4, 4, 4], #[1 / 4, 1 / 4, 1 / 4, 1 / 4]] := by
  obtain ⟨f, hf, hrun⟩ := run_tone (n := 4) (k := 1) (by decide) (by decide)
    (two_pos : (0 : ℝ) < 2) 0 (one_pos : (0 : ℝ) < 1)
  obtain ⟨e, he, hinput⟩ := hrun [.sweetness, .frequency] false (by decide) (by decide)
  obtain ⟨rfl, -⟩ := ofConfig_eq_ok.1 he
  have hsqrt : √4 = (2 : ℝ) := by
    rw [Real.sqrt_eq_iff_mul_self_eq_of_pos two_pos]
    norm_num
  have hread : (Buffer.list #[(2 : ℝ), 0, -2, 0]).read = .ok (tone 4 1 2 0) :=
    congrArg Except.ok tone_four.symm
  rw [hinput _ hread, List.map_cons, List.map_cons, List.map_nil,
    hf.sweetness, hf.frequency]
  norm_num [hsqrt, Array.replicate_succ]

end AttributeExtractor

end AnalyticTrace
