import AnalyticTrace.Error
import AnalyticTrace.Fourier.Transform

namespace AnalyticTrace

/-- Both directions of the transform, prepared for one length. -/
structure Plan where
  length : Nat
  length_pos : 0 < length
  deriving DecidableEq, Repr

/-- What a transform works on: the sequence itself and room for intermediate results. -/
structure Workspace (α : Type) where
  data : Array (Cplx α)
  scratch : Array (Cplx α)
  deriving DecidableEq, Repr

/-- The sequence that a computation leaves behind. -/
def Workspace.finish {α ε : Type} (w : Workspace α) (act : EStateM ε (Workspace α) Unit) :
    Except ε (Array (Cplx α)) :=
  match act w with
  | .ok _ w => .ok w.data
  | .error e _ => .error e

namespace Plan

def ofLength (n : Nat) : Except TransformError Plan :=
  if h : 0 < n then .ok ⟨n, h⟩ else .error (.invalidLength "len")

def scratchLength (α : Type) [Transform α] (plan : Plan) : Nat :=
  Transform.scratchLength α plan.length

variable {α : Type} [Sample α]

def scale (plan : Plan) : α := 1 / Sample.ofNat plan.length

variable [Transform α]

def makeScratch (plan : Plan) : Array (Cplx α) := Array.replicate (plan.scratchLength α) 0

def workspace (plan : Plan) (data : Array (Cplx α)) : Workspace α := ⟨data, plan.makeScratch⟩

/-- Replaces the sequence by `f` of it, by way of the scratch space. -/
def apply (plan : Plan) (f : Vector (Cplx α) plan.length → Vector (Cplx α) plan.length) :
    EStateM TransformError (Workspace α) Unit := fun w =>
  if h : w.data.size = plan.length then
    if w.scratch.size < plan.scratchLength α then
      .error (.lengthMismatch "scratch" (plan.scratchLength α) w.scratch.size) w
    else
      let bins := f ⟨w.data, h⟩
      .ok () ⟨bins.toArray,
        (Transform.leftover bins).toArray ++ w.scratch.drop (plan.scratchLength α)⟩
  else .error (.lengthMismatch "buf" plan.length w.data.size) w

def forward (plan : Plan) : EStateM TransformError (Workspace α) Unit :=
  plan.apply Transform.forward

/-- The backward direction, divided by the length. -/
def inverse (plan : Plan) : EStateM TransformError (Workspace α) Unit := do
  plan.apply Transform.backward
  modify fun w => { w with data := w.data.map (·.scale plan.scale) }

end Plan
end AnalyticTrace
