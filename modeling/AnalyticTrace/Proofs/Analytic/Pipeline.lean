import AnalyticTrace.Analytic.Signal
import AnalyticTrace.Proofs.Steps

namespace AnalyticTrace

variable {α : Type} [Transform α]

/-- The plan can work here, and the sequence is `v`. Nothing is said of what the scratch space
holds. -/
structure Workspace.Holds (w : Workspace α) (plan : Plan) (v : Vector (Cplx α) plan.length) :
    Prop where
  data : w.data = v.toArray
  scratch : plan.scratchLength α ≤ w.scratch.size

section Steps
variable {plan : Plan} {w : Workspace α} {v : Vector (Cplx α) plan.length}

theorem Workspace.finish_eq {ε : Type} {act : EStateM ε (Workspace α) Unit}
    (h : ∃ w', act w = .ok () w' ∧ w'.Holds plan v) : w.finish act = .ok v.toArray := by
  obtain ⟨w', hw, hv⟩ := h
  simp only [Workspace.finish, hw, hv.data]

theorem Plan.apply_holds (h : w.Holds plan v)
    (f : Vector (Cplx α) plan.length → Vector (Cplx α) plan.length) :
    ∃ w', plan.apply f w = .ok () w' ∧ w'.Holds plan (f v) := by
  obtain ⟨data, scratch⟩ := w
  obtain ⟨rfl, hs⟩ := h
  refine ⟨⟨(f v).toArray,
    (Transform.leftover (f v)).toArray ++ scratch.drop (plan.scratchLength α)⟩, ?_, rfl, ?_⟩
  · simp only [Plan.apply, Vector.size_toArray, ↓reduceDIte, if_neg (Nat.not_lt.2 hs)]
  · simp only [Array.size_append, Vector.size_toArray]
    exact Nat.le_add_right _ _

theorem Plan.forward_holds (h : w.Holds plan v) :
    ∃ w', plan.forward w = .ok () w' ∧ w'.Holds plan (Transform.forward v) :=
  Plan.apply_holds h _

variable [Sample α]

theorem Plan.workspace_holds (plan : Plan) (v : Vector (Cplx α) plan.length) :
    (plan.workspace v.toArray).Holds plan v := by
  refine ⟨rfl, ?_⟩
  simp only [Plan.workspace, Plan.makeScratch, Array.size_replicate, Nat.le_refl]

theorem Workspace.Holds.load (h : w.Holds plan v) (trace : Array α) :
    (w.load trace).Holds plan
      (Vector.ofFn fun i : Fin plan.length => Cplx.ofReal (trace.getD i 0)) := by
  refine ⟨?_, h.scratch⟩
  rw [Workspace.load, h.data]
  apply Array.ext
  · simp
  · intro i h₁ h₂
    simp

theorem Workspace.Holds.applyMask (h : w.Holds plan v) :
    (w.applyMask plan.length).Holds plan
      (Vector.ofFn fun k : Fin plan.length => v[k].scale (maskWeight plan.length k)) := by
  refine ⟨?_, h.scratch⟩
  rw [Workspace.applyMask, h.data]
  apply Array.ext
  · simp
  · intro k h₁ h₂
    simp

theorem Plan.inverse_holds (h : w.Holds plan v) :
    ∃ w', plan.inverse w = .ok () w' ∧
      w'.Holds plan ((Transform.backward v).map (·.scale plan.scale)) := by
  obtain ⟨w₁, hw, h₁⟩ := Plan.apply_holds h Transform.backward
  refine ⟨{ w₁ with data := w₁.data.map (·.scale plan.scale) }, ?_, ?_, h₁.scratch⟩
  · rw [Plan.inverse, bind_of_ok hw, modify_run]
  · simp only [h₁.data, Vector.toArray_map]

end Steps

variable [Sample α]

/-- The analytic signal of a trace over `n` points as one expression: no workspace, no error. -/
def analyticVector (n : Nat) (trace : Array α) : Vector (Cplx α) n :=
  let spectrum := Transform.forward (Vector.ofFn fun i : Fin n => Cplx.ofReal (trace.getD i 0))
  let weighed := Vector.ofFn fun k : Fin n => (spectrum.get k).scale (maskWeight n k)
  (Transform.backward weighed).map (·.scale (1 / Sample.ofNat n))

/-- Whatever a workspace held before, it ends up with the analytic signal of the trace. -/
theorem Plan.analytic_holds {plan : Plan} {w : Workspace α} {v : Vector (Cplx α) plan.length}
    (h : w.Holds plan v) (trace : Array α) :
    ∃ w', plan.analytic trace w = .ok () w' ∧
      w'.Holds plan (analyticVector plan.length trace) := by
  obtain ⟨w₁, hf, h₁⟩ := Plan.forward_holds (h.load trace)
  obtain ⟨w₂, hi, h₂⟩ := Plan.inverse_holds h₁.applyMask
  refine ⟨w₂, ?_, h₂⟩
  rw [Plan.analytic, bind_of_ok (modify_run _), bind_of_ok (adaptExcept_of_ok _ hf),
    bind_of_ok (modify_run _), adaptExcept_of_ok _ hi]

theorem Plan.finish_analytic (plan : Plan) (trace : Array α) :
    (plan.workspace (Array.replicate plan.length 0)).finish (plan.analytic trace) =
      .ok (analyticVector plan.length trace).toArray := by
  have h := plan.workspace_holds (Vector.replicate plan.length (0 : Cplx α))
  rw [Vector.toArray_replicate] at h
  exact Workspace.finish_eq (Plan.analytic_holds h trace)

theorem Plan.ofLength_eq {n : Nat} (h : 0 < n) : Plan.ofLength n = .ok ⟨n, h⟩ :=
  dif_pos h

namespace HilbertTransformer

theorem outputLength_pos {t : HilbertTransformer} {samples : Nat}
    (h : t.components = none → 0 < samples) : 0 < t.outputLength samples := by
  rw [outputLength]
  cases hc : t.components with
  | none => exact h hc
  | some m => exact Nat.pos_of_ne_zero fun hm => t.components_ne_zero (hc.trans (congrArg some hm))

theorem plan_eq {t : HilbertTransformer} {samples : Nat} (h : 0 < t.outputLength samples) :
    t.plan samples = .ok ⟨t.outputLength samples, h⟩ := by
  rw [HilbertTransformer.plan, if_neg (Nat.ne_of_gt h), Plan.ofLength_eq h]
  rfl

theorem runTrace_eq {t : HilbertTransformer} {x : Array α} (h : 0 < t.outputLength x.size) :
    t.runTrace x = .ok (analyticVector (t.outputLength x.size) x).toArray := by
  rw [HilbertTransformer.runTrace, plan_eq h]
  exact Plan.finish_analytic ⟨_, h⟩ x

theorem run_of_read (t : HilbertTransformer) {input : Buffer α} {x : Array α}
    (h : input.read = .ok x) : t.run input = t.runTrace x := by
  rw [HilbertTransformer.run, h]
  rfl

end HilbertTransformer
end AnalyticTrace
