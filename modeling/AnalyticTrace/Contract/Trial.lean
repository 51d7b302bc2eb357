import AnalyticTrace.Contract.Baseline
import AnalyticTrace.Contract.Case
import AnalyticTrace.Fourier.Spectrum
import AnalyticTrace.Grid.Attributes

namespace AnalyticTrace

/-- The comparisons of a contract run. -/
inductive Trial where
  | forward
  | inverse
  | analyticEven
  | analyticOdd
  | phase
  | envelope
  | quadrature
  | unwrapping
  | derivative
  | frequency
  | gridEnvelope
  deriving DecidableEq, Repr

/-- Why a trial gave no case. -/
structure TrialError where
  label : String
  cause : RunError
  deriving DecidableEq, Repr

def TrialError.message (e : TrialError) : String := s!"{e.label} failed: {e.cause.message}"

namespace Trial

/-- In the order in which they are run. -/
def all : List Trial :=
  [forward, inverse, analyticEven, analyticOdd, phase, envelope, quadrature, unwrapping, derivative,
    frequency, gridEnvelope]

def id : Trial → String
  | forward => "fft_512_f64"
  | inverse => "ifft_511_f64"
  | analyticEven => "hilbert_512_f64"
  | analyticOdd => "hilbert_511_f64"
  | phase => "phase_511_f64"
  | envelope => "envelope_511_f64"
  | quadrature => "quadrature_511_f64"
  | unwrapping => "unwrap_400_f64"
  | derivative => "gradient_512_f64"
  | frequency => "frequency_512_f64"
  | gridEnvelope => "grid_envelope_48x300_f64"

/-- What an error of the trial is reported under. -/
def label : Trial → String
  | forward => "fft"
  | inverse => "ifft"
  | analyticEven => "hilbert_512_f64 candidate execution"
  | analyticOdd => "hilbert_511_f64 candidate execution"
  | phase | envelope | quadrature => "attribute candidate execution"
  | unwrapping => "unwrap"
  | derivative => "gradient"
  | frequency => "frequency candidate execution"
  | gridEnvelope => "grid candidate execution"

variable {α : Type} [Sample α]

def sampleInterval : α := 0.004

def even : Array α := Baseline.syntheticTrace 512

def odd : Array α := Baseline.syntheticTrace 511

def oddSpectrum : Array (Cplx α) := Baseline.dft (odd.map Cplx.ofReal) false

/-- A growing phase with a ripple, wrapped to one turn. -/
def wrappedPhase : Array α := Array.ofFn fun i : Fin 400 =>
  let p : α := 0.37 * Sample.ofNat i + 0.5 * Sample.sin (Sample.ofNat i / 11.0)
  Sample.euclidMod (p + Sample.pi) (Sample.two * Sample.pi) - Sample.pi

/-- A wavelet that arrives earlier from trace to trace. -/
def wavelet (trace sample : Nat) : α :=
  let t : α := Sample.ofNat sample * sampleInterval + Sample.ofNat trace * 0.002
  let late := t - 0.6
  Sample.sin (Sample.two * Sample.pi * 18.0 * t) * Sample.exp (-(late * late) * 20.0)

def wavelets : TraceGrid α :=
  let samples : Vector α (48 * 300) := Vector.ofFn fun p => wavelet (p / 300) (p % 300)
  .array (StridedGrid.rowMajor 48 300 samples.toArray samples.size_toArray)

variable [Transform α]

def analyze (x : Array α) : Except RunError (Array (Cplx α)) := do
  let t ← (HilbertTransformer.ofComponents none).mapError RunError.config
  t.run (.list x)

def polar (x : Array α) : Except RunError (Polar (Array α)) := do
  let k ← (PolarExtractor.ofComponents none).mapError RunError.config
  k.run (.list x)

def frequencies (x : Array α) : Except RunError (Array α) := do
  let config : AttributeExtractor α := ⟨[.frequency], sampleInterval, false⟩
  let k ← (AttributeExtractor.ofConfig config).mapError RunError.config
  return (← k.run (.list x)).headD #[]

/-- What the library computes. -/
def candidate : Trial → Except RunError (Array α)
  | forward => ((rfftFull even).map Cplx.splitParts).mapError RunError.ofTransform
  | inverse => ((ifft oddSpectrum).map Cplx.splitParts).mapError RunError.ofTransform
  | analyticEven => (analyze even).map Cplx.splitParts
  | analyticOdd => (analyze odd).map Cplx.splitParts
  | phase => (polar odd).map Polar.phase
  | envelope => (polar odd).map Polar.envelope
  | quadrature => (polar odd).map Polar.hilbert
  | unwrapping => .ok (unwrap wrappedPhase)
  | derivative => timeDerivative even sampleInterval
  | frequency => frequencies even
  | gridEnvelope => (GridPolarExtractor.run ⟨true⟩ wavelets).map fun p => p.envelope.data

/-- What the same quantity is by its definition, or for the grid without workers. -/
def baseline : Trial → Except RunError (Array α)
  | forward => .ok (Cplx.splitParts (Baseline.dft (even.map Cplx.ofReal) false))
  | inverse => .ok (Cplx.splitParts (Baseline.dft oddSpectrum true))
  | analyticEven => .ok (Cplx.splitParts (Baseline.analytic even))
  | analyticOdd => .ok (Cplx.splitParts (Baseline.analytic odd))
  | phase => .ok ((Baseline.analytic odd).map Cplx.arg)
  | envelope => .ok ((Baseline.analytic odd).map Cplx.norm)
  | quadrature => .ok ((Baseline.analytic odd).map Cplx.im)
  | unwrapping => .ok (Baseline.unwrap wrappedPhase)
  | derivative => .ok (Baseline.gradient even sampleInterval)
  | frequency =>
    let phase := (Baseline.analytic even).map Cplx.arg
    .ok ((Baseline.gradient (Baseline.unwrap phase) sampleInterval).map
      (· / (Sample.two * Sample.pi)))
  | gridEnvelope => (GridPolarExtractor.run ⟨false⟩ wavelets).map fun p => p.envelope.data

/-- The case of a trial, given how long candidate and baseline take. -/
def case (t : Trial) (durations : α × α) : Except TrialError (Case α) := do
  let candidate ← t.candidate.mapError (TrialError.mk t.label)
  let baseline ← t.baseline.mapError (TrialError.mk t.label)
  return {
    id := t.id
    candidate := candidate
    candidateNs := durations.1
    baseline := baseline
    baselineNs := durations.2 }

end Trial
end AnalyticTrace
