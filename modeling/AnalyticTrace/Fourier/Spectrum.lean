import AnalyticTrace.Fourier.Plan

namespace AnalyticTrace

variable {α : Type}

/-- The first `n` entries, zeros after the last. -/
def resize {β : Type} [Zero β] (n : Nat) (x : Array β) : Array β :=
  x.take n ++ Array.replicate (n - x.size) 0

def planFor (arg : String) (n : Nat) : Except TransformError Plan :=
  (Plan.ofLength n).mapError fun _ => .invalidLength arg

variable [Sample α] [Transform α]

/-- The discrete Fourier transform, not scaled. -/
def fft (x : Array (Cplx α)) : Except TransformError (Array (Cplx α)) := do
  let plan ← planFor "x" x.size
  (plan.workspace x).finish plan.forward

/-- All bins of the transform of a real sequence. -/
def rfftFull (x : Array α) : Except TransformError (Array (Cplx α)) :=
  fft (x.map Cplx.ofReal)

/-- The transform over exactly `n` points. -/
def fftN (x : Array (Cplx α)) (n : Nat) : Except TransformError (Array (Cplx α)) :=
  if n = 0 then .error (.invalidLength "n") else fft (resize n x)

/-- The inverse transform, divided by the length. -/
def ifft (spectrum : Array (Cplx α)) : Except TransformError (Array (Cplx α)) := do
  let plan ← planFor "spectrum" spectrum.size
  (plan.workspace spectrum).finish plan.inverse

end AnalyticTrace
