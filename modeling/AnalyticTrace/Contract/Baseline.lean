import AnalyticTrace.Analytic.Mask
import AnalyticTrace.Cplx

namespace AnalyticTrace
namespace Baseline

variable {α : Type} [Sample α]

/-- A broadband trace with positive and negative lobes. -/
def syntheticTrace (samples : Nat) : Array α := Array.ofFn fun i : Fin samples =>
  let x : α := Sample.ofNat i / 27.0
  Sample.sin x + 0.35 * Sample.cos (2.3 * x) + 0.1 * Sample.sin (7.0 * x)

/-- The angle by which sample `j` of `n` is turned in bin `k`, the number of steps reduced modulo
`n`. -/
def angle (sign : α) (n k j : Nat) : α :=
  sign * Sample.two * Sample.pi * Sample.ofNat (k * j % n) / Sample.ofNat n

/-- Bin `k` by its definition, not scaled. -/
def bin (sign : α) (x : Array (Cplx α)) (k : Nat) : Cplx α :=
  x.toList.zipIdx.foldl (fun acc (z, j) =>
    acc + z * ⟨Sample.cos (angle sign x.size k j), Sample.sin (angle sign x.size k j)⟩) 0

/-- The transform by its definition; the inverse is divided by the length. -/
def dft (x : Array (Cplx α)) (inverse : Bool) : Array (Cplx α) :=
  let sign : α := if inverse then 1 else -1
  let scale : α := if inverse then 1 / Sample.ofNat x.size else 1
  Array.ofFn fun k : Fin x.size => (bin sign x k).scale scale

def analytic (x : Array α) : Array (Cplx α) :=
  dft (Array.zipWith Cplx.scale (dft (x.map Cplx.ofReal) false) (hilbertMask x.size)) true

/-- Moves sample `i` by the correction so far, after the jump before it has been looked at. -/
def unwrapStep (p : Array α) (state : Array α × α) (i : Nat) : Array α × α :=
  let (out, correction) := state
  let jump := p.getD i 0 - p.getD (i - 1) 0
  let remainder := Sample.euclidMod (jump + Sample.pi) (Sample.two * Sample.pi) - Sample.pi
  let wrapped :=
    if remainder == -Sample.pi && decide (jump > 0) then Sample.pi else remainder
  let correction :=
    if Sample.abs jump ≥ Sample.pi then correction + (wrapped - jump) else correction
  (out.modify i (· + correction), correction)

/-- Unwraps a phase in radians on a copy, sample by sample. -/
def unwrap (p : Array α) : Array α :=
  ((List.range' 1 (p.size - 1)).foldl (unwrapStep p) (p, 0)).1

/-- The derivative by index: one-sided at both ends, central inside. -/
def gradient (x : Array α) (dt : α) : Array α := Array.ofFn fun i : Fin x.size =>
  if hn : x.size < 2 then 0
  else if h0 : i.val = 0 then (x[1] - x[0]) / dt
  else if hl : i.val = x.size - 1 then (x[x.size - 1] - x[x.size - 2]) / dt
  else (x[i.val + 1] - x[i.val - 1]) / (Sample.two * dt)

end Baseline
end AnalyticTrace
