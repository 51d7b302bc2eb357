import AnalyticTrace.Sample.Basic

namespace AnalyticTrace

/-- A complex number over a sample type. -/
@[ext]
structure Cplx (α : Type) where
  re : α
  im : α
  deriving DecidableEq, Repr

namespace Cplx

variable {α : Type} [Sample α]

instance : Zero (Cplx α) := ⟨⟨0, 0⟩⟩

instance : Add (Cplx α) := ⟨fun z w => ⟨z.re + w.re, z.im + w.im⟩⟩

instance : Mul (Cplx α) := ⟨fun z w => ⟨z.re * w.re - z.im * w.im, z.re * w.im + z.im * w.re⟩⟩

def ofReal (x : α) : Cplx α := ⟨x, 0⟩

def scale (z : Cplx α) (c : α) : Cplx α := ⟨z.re * c, z.im * c⟩

def conj (z : Cplx α) : Cplx α := ⟨z.re, -z.im⟩

def norm (z : Cplx α) : α := Sample.hypot z.re z.im

def arg (z : Cplx α) : α := Sample.atan2 z.im z.re

/-- All real parts, then all imaginary parts. -/
def splitParts (zs : Array (Cplx α)) : Array α := zs.map re ++ zs.map im

end Cplx
end AnalyticTrace
