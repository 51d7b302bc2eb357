import AnalyticTrace.Proofs.Analytic.Pipeline
import AnalyticTrace.Proofs.Gradient.Slopes
import AnalyticTrace.Sample.Float

namespace AnalyticTrace

variable {α : Type} [Sample α]

theorem firstRepeat_go_eq_none {as seen : List Attribute} {i : Nat} :
    firstRepeat.go i seen as = none ↔ as.Nodup ∧ ∀ a ∈ as, a ∉ seen := by
  induction as generalizing seen i with
  | nil => simp [firstRepeat.go]
  | cons a as ih =>
    rw [firstRepeat.go]
    by_cases h : a ∈ seen
    · rw [if_pos h]
      exact iff_of_false nofun fun hall => hall.2 a List.mem_cons_self h
    · rw [if_neg h, ih]
      constructor
      · rintro ⟨hnodup, hfresh⟩
        have ha : a ∉ as := fun ha => hfresh a ha List.mem_cons_self
        refine ⟨List.nodup_cons.2 ⟨ha, hnodup⟩, List.forall_mem_cons.2 ⟨h, fun b hb hs => ?_⟩⟩
        exact hfresh b hb (List.mem_cons_of_mem a hs)
      · rintro ⟨hnodup, hfresh⟩
        obtain ⟨ha, hrest⟩ := List.nodup_cons.1 hnodup
        refine ⟨hrest, fun b hb hs => ?_⟩
        obtain rfl | hs := List.mem_cons.1 hs
        · exact ha hb
        · exact hfresh b (List.mem_cons_of_mem a hb) hs

theorem firstRepeat_eq_none {as : List Attribute} : firstRepeat as = none ↔ as.Nodup := by
  rw [firstRepeat, firstRepeat_go_eq_none]
  exact and_iff_left fun _ _ => List.not_mem_nil

namespace AttributeExtractor

/-- One attribute of a trace with the given analytic signal, on its own. -/
def attributeOf (dt : α) (x : Array α) (analytic : Array (Cplx α)) : Attribute → Array α
  | .value => x
  | .hilbert => (Polar.ofAnalytic analytic).hilbert
  | .envelope => (Polar.ofAnalytic analytic).envelope
  | .phase => (Polar.ofAnalytic analytic).phase
  | .frequency => frequency dt (Polar.ofAnalytic analytic).phase
  | .bandwidth => bandwidth dt (Polar.ofAnalytic analytic).envelope
  | .sweetness =>
    sweetness (Polar.ofAnalytic analytic).envelope
      (frequency dt (Polar.ofAnalytic analytic).phase)

theorem size_attributeOf (dt : α) {x : Array α} {analytic : Array (Cplx α)}
    (h : analytic.size = x.size) (a : Attribute) : (attributeOf dt x analytic a).size = x.size := by
  have hphase : (Polar.ofAnalytic analytic).phase.size = x.size := (Array.size_map ..).trans h
  have henvelope : (Polar.ofAnalytic analytic).envelope.size = x.size :=
    (Array.size_map ..).trans h
  have hfrequency : (frequency dt (Polar.ofAnalytic analytic).phase).size = x.size :=
    (size_frequency dt _).trans hphase
  cases a with
  | value => rfl
  | hilbert => exact (Array.size_map ..).trans h
  | envelope => exact henvelope
  | phase => exact hphase
  | frequency => exact hfrequency
  | bandwidth => exact (size_bandwidth dt _).trans henvelope
  | sweetness => exact (size_sweetness (hfrequency.trans henvelope.symm)).trans henvelope

theorem select_eq_map (k : AttributeExtractor α) (x : Array α) (analytic : Array (Cplx α)) :
    k.select x analytic = k.attributes.map (attributeOf k.sampleInterval x analytic) := by
  apply List.map_congr_left
  intro a ha
  cases a with
  | frequency => exact if_pos (.inl ha)
  | sweetness => exact congrArg (sweetness _) (if_pos (.inr ha))
  | _ => rfl

theorem select_empty {k : AttributeExtractor α} (h : k.needsAnalytic = false) (x : Array α)
    (analytic : Array (Cplx α)) :
    k.select x #[] = k.attributes.map (attributeOf k.sampleInterval x analytic) := by
  rw [select_eq_map]
  apply List.map_congr_left
  intro a ha
  rw [eq_value_of_needsAnalytic h ha]
  rfl

theorem ofConfig_eq_ok {config k : AttributeExtractor α} :
    ofConfig config = .ok k ↔ k = config ∧ config.attributes ≠ [] ∧ config.attributes.Nodup ∧
      checkSpacing config.sampleInterval "sample_interval" = .ok () := by
  rw [ofConfig, ← firstRepeat_eq_none]
  by_cases hempty : config.attributes = []
  · rw [if_pos (List.isEmpty_iff.2 hempty)]
    exact iff_of_false nofun fun h => h.2.1 hempty
  · rw [if_neg fun h => hempty (List.isEmpty_iff.1 h)]
    cases hrepeat : firstRepeat config.attributes with
    | some i => exact iff_of_false nofun nofun
    | none =>
      cases hspacing : checkSpacing config.sampleInterval "sample_interval" with
      | error e => exact iff_of_false nofun nofun
      | ok _ =>
        constructor
        · rintro ⟨⟩
          exact ⟨rfl, hempty, rfl, rfl⟩
        · rintro ⟨rfl, -⟩
          rfl

variable [Transform α]

theorem runTrace_eq (k : AttributeExtractor α) {x : Array α} (h : 0 < x.size) :
    k.runTrace x = .ok (k.attributes.map
      (attributeOf k.sampleInterval x (analyticVector x.size x).toArray)) := by
  have hempty : x.isEmpty = false :=
    Bool.eq_false_iff.2 fun he => Nat.ne_of_gt h (Array.isEmpty_iff_size_eq_zero.1 he)
  rw [runTrace, hempty]
  cases hneeds : k.needsAnalytic with
  | false => exact congrArg Except.ok (select_empty hneeds x _)
  | true =>
    rw [← select_eq_map, Plan.ofLength_eq h]
    exact bind_eq_ok.2 ⟨_, rfl, bind_eq_ok.2 ⟨_, Plan.finish_analytic ⟨x.size, h⟩ x, rfl⟩⟩

theorem run_of_read (k : AttributeExtractor α) {input : Buffer α} {x : Array α}
    (h : input.read = .ok x) : k.run input = k.runTrace x := by
  rw [run, h]
  rfl

end AttributeExtractor

section Attributes
variable [Transform α]

theorem instantaneousAttributes_eq {x : Array α} (h : 0 < x.size) :
    instantaneousAttributes x = .ok (.ofAnalytic (analyticVector x.size x).toArray) := by
  have hrun := HilbertTransformer.runTrace_eq (t := ⟨none, nofun⟩) (x := x) h
  exact bind_eq_ok.2 ⟨_, rfl, bind_eq_ok.2 ⟨_, hrun, rfl⟩⟩

/-- All attributes of a trace, each by its own rule: nothing is said of which of them are asked for,
or in which order. -/
structure AttributesOf (x : Array α) (dt : α) (f : Attribute → Vector α x.size) : Prop where
  value : (f .value).toArray = x
  polar : instantaneousAttributes x =
    .ok ⟨(f .phase).toArray, (f .envelope).toArray, (f .hilbert).toArray⟩
  frequency : ∃ slope : Vector α x.size,
    timeDerivative (unwrap (f .phase).toArray) dt = .ok slope.toArray ∧
      ∀ i : Fin x.size, (f .frequency)[i] = slope[i] / (Sample.pi + Sample.pi)
  bandwidth : ∃ slope : Vector α x.size,
    timeDerivative (f .envelope).toArray dt = .ok slope.toArray ∧
      ∀ i : Fin x.size, (f .bandwidth)[i] =
        if (f .envelope)[i] == 0 then 0
        else Sample.abs slope[i] / ((Sample.pi + Sample.pi) * (f .envelope)[i])
  sweetness : ∀ i : Fin x.size, (f .sweetness)[i] =
    if (f .frequency)[i] == 0 then 0
    else (f .envelope)[i] / Sample.sqrt (Sample.abs (f .frequency)[i])

namespace AttributeExtractor

def attributeVector (dt : α) (x : Array α) (a : Attribute) : Vector α x.size :=
  ⟨attributeOf dt x (analyticVector x.size x).toArray a,
    size_attributeOf dt (Vector.size_toArray _) a⟩

theorem attributesOf_attributeVector {x : Array α} (h : 0 < x.size) {dt : α} {arg : String}
    (hdt : checkSpacing dt arg = .ok ()) : AttributesOf x dt (attributeVector dt x) where
  value := rfl
  polar := instantaneousAttributes_eq h
  frequency := by
    have hsize : (gradient dt (unwrap (attributeVector dt x .phase).toArray)).size = x.size := by
      rw [size_gradient, unwrap, Unwrapper.size_runTrace, Vector.size_toArray]
    refine ⟨⟨_, hsize⟩, timeDerivative_eq hdt _, fun i => ?_⟩
    exact Array.getElem_map ..
  bandwidth := by
    have hsize : (gradient dt (attributeVector dt x .envelope).toArray).size = x.size := by
      rw [size_gradient, Vector.size_toArray]
    refine ⟨⟨_, hsize⟩, timeDerivative_eq hdt _, fun i => ?_⟩
    exact Array.getElem_zipWith ..
  sweetness i := Array.getElem_zipWith ..

/-- An extractor reads off each attribute what it is for itself, in the order of its list. -/
theorem run_eq_map {x : Array α} (hx : 0 < x.size) (dt : α) :
    ∃ f : Attribute → Vector α x.size, ∀ attributes parallel k,
      ofConfig ⟨attributes, dt, parallel⟩ = .ok k →
        AttributesOf x dt f ∧ ∀ input : Buffer α, input.read = .ok x →
          k.run input = .ok (attributes.map fun a => (f a).toArray) := by
  refine ⟨attributeVector dt x, fun attributes parallel k hk => ?_⟩
  obtain ⟨rfl, -, -, hdt⟩ := ofConfig_eq_ok.1 hk
  refine ⟨attributesOf_attributeVector hx hdt, fun input hread => ?_⟩
  rw [run_of_read _ hread, runTrace_eq _ hx]
  rfl

theorem run_eq_map_pair :
    ofConfig ⟨[.sweetness, .value], (0.5 : Float), false⟩ =
        .ok ⟨[.sweetness, .value], 0.5, false⟩ ∧
      ∃ f : Attribute → Vector Float 2, AttributesOf #[3, 4] 0.5 f ∧
        run ⟨[.sweetness, .value], 0.5, false⟩ (.list #[3, 4]) =
          .ok [(f .sweetness).toArray, #[3, 4]] := by
  have hconfig : ofConfig ⟨[.sweetness, .value], (0.5 : Float), false⟩ =
      .ok ⟨[.sweetness, .value], 0.5, false⟩ := rfl
  have hread : (Buffer.list #[(3 : Float), 4]).read = .ok #[3, 4] := rfl
  obtain ⟨f, hf⟩ := run_eq_map (x := #[(3 : Float), 4]) (by decide) 0.5
  obtain ⟨hattributes, hrun⟩ := hf _ _ _ hconfig
  refine ⟨hconfig, f, hattributes, ?_⟩
  rw [hrun _ hread, List.map_cons, List.map_cons, List.map_nil, hattributes.value]

end AttributeExtractor
end Attributes

end AnalyticTrace
