import AnalyticTrace.Proofs.Analytic.Defined
import AnalyticTrace.Proofs.Attribute.Scaling
import AnalyticTrace.Proofs.Grid.PerTrace

namespace AnalyticTrace

open PartialReal (value)

section Arithmetic
variable [Angle]

theorem floorMod_value {a b : ℝ} (hb : b ≠ 0) :
    Sample.floorMod (value a) (value b) = value (Sample.floorMod a b) := by
  simp [Sample.floorMod, PartialReal.rem_value hb, bne, apply_ite value]

namespace Unwrapper

def toPartial (u : Unwrapper ℝ) : Unwrapper PartialReal := ⟨value u.discont, value u.period⟩

section Steps
variable {u : Unwrapper ℝ} (hperiod : 0 < u.period)
include hperiod

theorem wrapJump_value (jump : ℝ) :
    u.toPartial.wrapJump (value jump) = value (u.wrapJump jump) := by
  have htwo : (Sample.two : ℝ) ≠ 0 := two_eq.trans_ne two_ne_zero
  simp [wrapJump, toPartial, PartialReal.value_div htwo, floorMod_value hperiod.ne',
    apply_ite value]

theorem correct_value (correction jump : ℝ) :
    u.toPartial.correct (value correction) (value jump) = value (u.correct correction jump) := by
  have hjump := wrapJump_value hperiod jump
  have hdiscont : u.toPartial.discont = value u.discont := rfl
  simp [correct, hjump, hdiscont, apply_ite value]

theorem follow_value (previous correction : ℝ) (xs : List ℝ) :
    u.toPartial.follow (value previous) (value correction) (xs.map value) =
      (u.follow previous correction xs).map value := by
  induction xs generalizing previous correction with
  | nil => rfl
  | cons x xs ih =>
    have hcorrect : u.toPartial.correct (value correction) (value x - value previous) =
        value (u.correct correction (x - previous)) := correct_value hperiod _ _
    rw [List.map_cons, follow, hcorrect, ih]
    rfl

theorem runList_value (xs : List ℝ) :
    u.toPartial.runList (xs.map value) = (u.runList xs).map value := by
  cases xs with
  | nil => rfl
  | cons x xs => exact congrArg (value x :: ·) (follow_value hperiod x 0 xs)

theorem runTrace_value (p : Array ℝ) :
    u.toPartial.runTrace (p.map value) = (u.runTrace p).map value := by
  rw [runTrace, runTrace, Array.toList_map, runList_value hperiod, List.map_toArray]

end Steps
end Unwrapper

theorem unwrap_value (p : Array ℝ) : unwrap (p.map value) = (unwrap p).map value :=
  Unwrapper.runTrace_value (u := ⟨Sample.pi, Sample.twoPi⟩) twoPi_pos p

section Slopes
variable {h : ℝ} (hh : 0 < h)
include hh

theorem centralDifferences_value (a b : ℝ) (cs : List ℝ) :
    centralDifferences (value h) (value a) (value b) (cs.map value) =
      (centralDifferences h a b cs).map value := by
  have htwo : h + h ≠ 0 := (add_pos hh hh).ne'
  induction cs generalizing a b with
  | nil => simp [centralDifferences, PartialReal.value_div hh.ne']
  | cons c cs ih => simp [centralDifferences, PartialReal.value_div htwo, ih]

theorem gradientList_value (xs : List ℝ) :
    gradientList (value h) (xs.map value) = (gradientList h xs).map value := by
  cases xs with
  | nil => rfl
  | cons a xs =>
    cases xs with
    | nil => rfl
    | cons b cs => simp [gradientList, PartialReal.value_div hh.ne', centralDifferences_value hh]

theorem gradient_value (x : Array ℝ) :
    gradient (value h) (x.map value) = (gradient h x).map value := by
  rw [gradient, gradient, Array.toList_map, gradientList_value hh, List.map_toArray]

end Slopes

theorem phaseOf_value (z : Cplx ℝ) : phaseOf z.toPartial = value (phaseOf z) := by
  simp [phaseOf, Cplx.arg, Cplx.toPartial, apply_ite value]

theorem norm_value (z : Cplx ℝ) : z.toPartial.norm = value z.norm := PartialReal.hypot_value

theorem ofAnalytic_toPartial (y : Array (Cplx ℝ)) :
    Polar.ofAnalytic (y.map Cplx.toPartial) =
      ⟨(Polar.ofAnalytic y).phase.map value, (Polar.ofAnalytic y).envelope.map value,
        (Polar.ofAnalytic y).hilbert.map value⟩ := by
  simp only [Polar.ofAnalytic, Array.map_map, Function.comp_def, phaseOf_value, norm_value]
  rfl

namespace AttributeExtractor

section Samples
variable {dt : ℝ} (hdt : 0 < dt)
include hdt

theorem frequency_value (phase : Array ℝ) :
    frequency (value dt) (phase.map value) = (frequency dt phase).map value := by
  simp [frequency, unwrap_value, gradient_value hdt, PartialReal.value_div twoPi_pos.ne']

theorem bandwidth_value (envelope : Array ℝ) :
    bandwidth (value dt) (envelope.map value) = (bandwidth dt envelope).map value := by
  rw [bandwidth, gradient_value hdt, Array.zipWith_map, bandwidth, Array.map_zipWith]
  congr 1
  funext d e
  -- The quotient is taken only behind the guard, where the envelope is not zero.
  by_cases he : e = 0
  · simp [he]
  · have hdivisor : Sample.twoPi * e ≠ 0 := mul_ne_zero twoPi_pos.ne' he
    simp [he, PartialReal.value_div hdivisor]

omit hdt in
theorem sweetness_value (envelope frequency : Array ℝ) :
    sweetness (envelope.map value) (frequency.map value) =
      (sweetness envelope frequency).map value := by
  rw [sweetness, Array.zipWith_map, sweetness, Array.map_zipWith]
  congr 1
  funext e f
  by_cases hf : f = 0
  · simp [hf]
  · have hroot : Sample.sqrt (value (Sample.abs f)) = value (Sample.sqrt (Sample.abs f)) :=
      PartialReal.sqrt_value (abs_nonneg f)
    have hdivisor : Sample.sqrt (Sample.abs f) ≠ 0 := Real.sqrt_ne_zero'.2 (abs_pos.2 hf)
    simp [hf, hroot, PartialReal.value_div hdivisor]

theorem attributeOf_value (x : Array ℝ) (y : Array (Cplx ℝ)) (a : Attribute) :
    attributeOf (value dt) (x.map value) (y.map Cplx.toPartial) a =
      (attributeOf dt x y a).map value := by
  cases a with
  | frequency =>
    simp only [attributeOf, ofAnalytic_toPartial, frequency_value hdt]
  | bandwidth =>
    simp only [attributeOf, ofAnalytic_toPartial, bandwidth_value hdt]
  | sweetness =>
    simp only [attributeOf, ofAnalytic_toPartial, frequency_value hdt, sweetness_value]
  | _ => simp only [attributeOf, ofAnalytic_toPartial]

end Samples

section Signs
variable {envelope : Array ℝ}

theorem envelope_nonneg (y : Array (Cplx ℝ)) : ∀ r ∈ (Polar.ofAnalytic y).envelope, 0 ≤ r := by
  intro r hr
  obtain ⟨z, -, rfl⟩ := Array.mem_map.1 hr
  exact Real.sqrt_nonneg _

theorem bandwidth_nonneg (henvelope : ∀ e ∈ envelope, 0 ≤ e) (dt : ℝ) :
    ∀ r ∈ bandwidth dt envelope, 0 ≤ r := by
  intro r hr
  obtain ⟨i, hi, rfl⟩ := Array.getElem_of_mem hr
  simp only [bandwidth, Array.getElem_zipWith]
  split
  · exact le_rfl
  · exact div_nonneg (abs_nonneg _)
      (mul_nonneg twoPi_pos.le (henvelope _ (Array.getElem_mem _)))

theorem sweetness_nonneg (henvelope : ∀ e ∈ envelope, 0 ≤ e) (frequency : Array ℝ) :
    ∀ r ∈ sweetness envelope frequency, 0 ≤ r := by
  intro r hr
  obtain ⟨i, hi, rfl⟩ := Array.getElem_of_mem hr
  simp only [sweetness, Array.getElem_zipWith]
  split
  · exact le_rfl
  · exact div_nonneg (henvelope _ (Array.getElem_mem _)) (Real.sqrt_nonneg _)

theorem attributeOf_nonneg (dt : ℝ) (x : Array ℝ) (y : Array (Cplx ℝ)) :
    ∀ a ∈ [Attribute.envelope, .bandwidth, .sweetness], ∀ r ∈ attributeOf dt x y a, 0 ≤ r := by
  simp only [List.forall_mem_cons, List.not_mem_nil, false_implies, implies_true, and_true]
  exact ⟨envelope_nonneg y, bandwidth_nonneg (envelope_nonneg y) dt,
    sweetness_nonneg (envelope_nonneg y) _⟩

end Signs
end AttributeExtractor

theorem checkSpacing_partial_eq_ok {dt : PartialReal} {arg : String} :
    checkSpacing dt arg = .ok () ↔ ∃ h, dt = value h ∧ 0 < h := by
  rw [checkSpacing_eq_ok]
  cases dt with
  | undefined => exact iff_of_false (fun h => Bool.false_ne_true h.1) nofun
  | value h =>
    constructor
    · rintro ⟨-, hpos⟩
      exact ⟨h, rfl, not_le.1 hpos⟩
    · rintro ⟨_, ⟨⟩, hpos⟩
      exact ⟨rfl, hpos.not_ge⟩

theorem timeDerivative_value {dt : ℝ} (hdt : 0 < dt) (x : Array ℝ) :
    timeDerivative (x.map value) (value dt) = .ok ((gradient dt x).map value) := by
  have hspacing : checkSpacing (value dt) "spacing" = .ok () :=
    checkSpacing_partial_eq_ok.2 ⟨dt, rfl, hdt⟩
  rw [timeDerivative_eq hspacing, gradient_value hdt]

section Stages
variable [Transform PartialReal]

/-- All that is computed on the way to the attributes `f` of a trace has a value, also what an
extractor does not return. -/
structure DefinedThroughout (dt : ℝ) (x : Array ℝ) (f : Attribute → Array ℝ) : Prop where
  samples : f .value = x
  scale : ∀ plan : Plan, plan.length = x.size → ∃ c : ℝ, plan.scale = value c
  analytic : ∃ y : Array (Cplx ℝ), analyticSignal (x.map value) = .ok (y.map Cplx.toPartial)
  polar : instantaneousAttributes (x.map value) =
    .ok ⟨(f .phase).map value, (f .envelope).map value, (f .hilbert).map value⟩
  turning : ∃ p slope : Array ℝ, unwrap ((f .phase).map value) = p.map value ∧
    timeDerivative (p.map value) (value dt) = .ok (slope.map value)
  growth : ∃ slope : Array ℝ,
    timeDerivative ((f .envelope).map value) (value dt) = .ok (slope.map value)
  frequency : AttributeExtractor.frequency (value dt) ((f .phase).map value) =
    (f .frequency).map value
  bandwidth : AttributeExtractor.bandwidth (value dt) ((f .envelope).map value) =
    (f .bandwidth).map value
  sweetness : AttributeExtractor.sweetness ((f .envelope).map value) ((f .frequency).map value) =
    (f .sweetness).map value
  nonneg : ∀ a ∈ [Attribute.envelope, .bandwidth, .sweetness], ∀ r ∈ f a, 0 ≤ r

namespace AttributeExtractor

variable [Transform ℝ] [DefinedTransform]

theorem definedThroughout_attributeOf {dt : ℝ} (hdt : 0 < dt) {x : Array ℝ} (hx : 0 < x.size) :
    DefinedThroughout dt x (attributeOf dt x (analyticVector x.size x).toArray) := by
  have hx' : 0 < (x.map value).size := hx.trans_eq (Array.size_map ..).symm
  have hanalytic : (analyticVector (x.map value).size (x.map value)).toArray =
      (analyticVector x.size x).toArray.map Cplx.toPartial := by
    rw [Array.size_map, analyticVector_value hx, Vector.toArray_map]
  exact {
    samples := rfl
    scale := fun plan _ => ⟨_, scale_value plan.length_pos⟩
    analytic := ⟨_, (analyticSignal_eq hx').trans (congrArg Except.ok hanalytic)⟩
    polar := by
      rw [instantaneousAttributes_eq hx', hanalytic, ofAnalytic_toPartial]
      rfl
    turning := ⟨_, _, unwrap_value _, timeDerivative_value hdt _⟩
    growth := ⟨_, timeDerivative_value hdt _⟩
    frequency := frequency_value hdt _
    bandwidth := bandwidth_value hdt _
    sweetness := sweetness_value _ _
    nonneg := attributeOf_nonneg dt x _ }

theorem runTrace_value (k : AttributeExtractor PartialReal) {dt : ℝ}
    (hk : k.sampleInterval = value dt) (hdt : 0 < dt) {x : Array ℝ} (hx : 0 < x.size) :
    k.runTrace (x.map value) = .ok (k.attributes.map fun a =>
      (attributeOf dt x (analyticVector x.size x).toArray a).map value) := by
  have hx' : 0 < (x.map value).size := hx.trans_eq (Array.size_map ..).symm
  rw [runTrace_eq _ hx', hk, Array.size_map, analyticVector_value hx, Vector.toArray_map]
  congr 2
  funext a
  exact attributeOf_value hdt x _ a

theorem runGrid_value (k : AttributeExtractor PartialReal) {dt : ℝ}
    (hk : k.sampleInterval = value dt) (hdt : 0 < dt) {grid : TraceGrid PartialReal}
    {traces : List (Array ℝ)} (hread : grid.Reads (traces.map (·.map value))) :
    ∃ grids, k.runGrid grid = .ok grids ∧ (∀ g ∈ grids, g.rows = traces.length) ∧
      ∀ i (hi : i < traces.length), 0 < traces[i].size ∧
        grids.map (·.row i) = k.attributes.map fun a =>
          (attributeOf dt traces[i] (analyticVector traces[i].size traces[i]).toArray a).map
            value := by
  obtain ⟨grids, hgrids⟩ := perTrace k hread
  refine ⟨grids, hgrids.run k.parallel, fun g hg => ?_, fun i hi => ?_⟩
  · rw [(hgrids.shape g hg).1, List.length_map]
  · have hi' : i < (traces.map (·.map value)).length := hi.trans_eq (List.length_map _).symm
    have hsize := hread.size _ (List.getElem_mem hi')
    have hpos := hread.pos (List.ne_nil_of_length_pos (Nat.zero_lt_of_lt hi'))
    rw [List.getElem_map, Array.size_map] at hsize
    have hx : 0 < traces[i].size := hpos.trans_eq hsize.symm
    have hlist : (Buffer.list (traces[i].map value)).read = .ok (traces[i].map value) := rfl
    have hrow := hgrids.row i hi'
    rw [List.getElem_map, run_of_read _ hlist, runTrace_value k hk hdt hx, Except.ok.injEq] at hrow
    exact ⟨hx, hrow.symm⟩

end AttributeExtractor
end Stages
end Arithmetic

namespace AttributeExtractor

/-- No run divides by zero or takes the root of a negative number: in arithmetic where these have no
value every sample has one, the same that it has among the real numbers. -/
theorem runs_defined [Angle] [Transform ℝ] [Transform PartialReal] [DefinedTransform]
    {attributes : List Attribute} {dt : PartialReal} {parallel : Bool}
    {k : AttributeExtractor PartialReal} (hk : ofConfig ⟨attributes, dt, parallel⟩ = .ok k) :
    ∃ (h : ℝ) (k' : AttributeExtractor ℝ) (f : Array ℝ → Attribute → Array ℝ), dt = value h ∧
      ofConfig ⟨attributes, h, parallel⟩ = .ok k' ∧
      (∀ x : Array ℝ, 0 < x.size → DefinedThroughout h x (f x) ∧
        k'.run (.list x) = .ok (attributes.map (f x)) ∧
        ∀ input : Buffer PartialReal, input.read = .ok (x.map value) →
          k.run input = .ok (attributes.map fun a => (f x a).map value)) ∧
      ∀ (grid : TraceGrid PartialReal) (traces : List (Array ℝ)),
        grid.readAll = .ok (traces.map (·.map value)) → ∃ grids, k.runGrid grid = .ok grids ∧
          (∀ g ∈ grids, g.rows = traces.length) ∧ ∀ i (hi : i < traces.length),
            0 < traces[i].size ∧
              grids.map (·.row i) = attributes.map fun a => (f traces[i] a).map value := by
  obtain ⟨rfl, hne, hnodup, hspacing⟩ := ofConfig_eq_ok.1 hk
  obtain ⟨h, rfl, hh⟩ := checkSpacing_partial_eq_ok.1 hspacing
  refine ⟨h, _, fun x => attributeOf h x (analyticVector x.size x).toArray, rfl,
    ofConfig_real_eq_ok.2 ⟨rfl, hne, hnodup, hh⟩, fun x hx => ?_, fun grid traces hread => ?_⟩
  · refine ⟨definedThroughout_attributeOf hh hx, runTrace_eq _ hx, fun input hread => ?_⟩
    rw [run_of_read _ hread, runTrace_value _ rfl hh hx]
  · exact runGrid_value _ rfl hh (TraceGrid.readAll_eq_ok.1 hread)

theorem runs_defined_zeros :
    ofConfig ⟨[.bandwidth, .sweetness], value (1 / 2), false⟩ =
        .ok ⟨[.bandwidth, .sweetness], value (1 / 2), false⟩ ∧
      ∃ (bandwidth sweetness : Array ℝ) (grids : List (Grid PartialReal)),
        run ⟨[.bandwidth, .sweetness], value (1 / 2), false⟩
            (.list #[value 0, value 0, value 0]) =
          .ok [bandwidth.map value, sweetness.map value] ∧
        runGrid ⟨[.bandwidth, .sweetness], value (1 / 2), false⟩
            (.rows #[#[value 1, value (-2), value 3], #[value 0, value 0, value 0]]) = .ok grids ∧
        grids.map (·.row 1) = [bandwidth.map value, sweetness.map value] ∧
        (∀ r ∈ bandwidth, 0 ≤ r) ∧ ∀ r ∈ sweetness, 0 ≤ r := by
  have hconfig : ofConfig ⟨[.bandwidth, .sweetness], value (1 / 2), false⟩ =
      .ok ⟨[.bandwidth, .sweetness], value (1 / 2), false⟩ :=
    ofConfig_eq_ok.2 ⟨rfl, List.cons_ne_nil _ _, by decide,
      checkSpacing_partial_eq_ok.2 ⟨1 / 2, rfl, half_pos one_pos⟩⟩
  have hzero : #[0, 0, 0].map value = #[value 0, value 0, value 0] := by simp
  have hpair : [#[1, -2, 3], #[0, 0, 0]].map (·.map value) =
      [#[value 1, value (-2), value 3], #[value 0, value 0, value 0]] := by simp
  obtain ⟨_, _, f, _, _, hrun, hgrid⟩ := runs_defined hconfig
  obtain ⟨hdefined, -, hzeros⟩ := hrun #[0, 0, 0] (by decide)
  have hlist : (Buffer.list #[value 0, value 0, value 0]).read = .ok (#[0, 0, 0].map value) :=
    congrArg Except.ok hzero.symm
  have hread : (TraceGrid.rows #[#[value 1, value (-2), value 3], #[value 0, value 0, value 0]]
      ).readAll = .ok ([#[1, -2, 3], #[0, 0, 0]].map (·.map value)) := by
    rw [hpair]
    rfl
  obtain ⟨grids, hgrids, -, hrows⟩ := hgrid _ _ hread
  exact ⟨hconfig, f #[0, 0, 0] .bandwidth, f #[0, 0, 0] .sweetness, grids, hzeros _ hlist, hgrids,
    (hrows 1 (by decide)).2, hdefined.nonneg _ (by decide), hdefined.nonneg _ (by decide)⟩

end AttributeExtractor
end AnalyticTrace
