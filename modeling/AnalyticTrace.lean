import AnalyticTrace.Analytic.Mask
import AnalyticTrace.Analytic.Signal
import AnalyticTrace.Attribute.Basic
import AnalyticTrace.Attribute.Extractor
import AnalyticTrace.Attribute.Polar
import AnalyticTrace.Contract.Baseline
import AnalyticTrace.Contract.Case
import AnalyticTrace.Contract.Metrics
import AnalyticTrace.Contract.Recorder
import AnalyticTrace.Contract.Reply
import AnalyticTrace.Contract.Suite
import AnalyticTrace.Contract.Table
import AnalyticTrace.Contract.Trial
import AnalyticTrace.Cplx
import AnalyticTrace.Decimal.Notation
import AnalyticTrace.Decimal.Rounding
import AnalyticTrace.Decimal.Shortest
import AnalyticTrace.Error
import AnalyticTrace.Fourier.Plan
import AnalyticTrace.Fourier.Spectrum
import AnalyticTrace.Fourier.Transform
import AnalyticTrace.Gradient
import AnalyticTrace.Grid.Attributes
import AnalyticTrace.Grid.Rows
import AnalyticTrace.Grid.Schedule
import AnalyticTrace.Main
import AnalyticTrace.Proofs.Analytic.Composition
import AnalyticTrace.Proofs.Analytic.Defined
import AnalyticTrace.Proofs.Analytic.Equivariance
import AnalyticTrace.Proofs.Analytic.Mask
import AnalyticTrace.Proofs.Analytic.OneSided
import AnalyticTrace.Proofs.Analytic.Pipeline
import AnalyticTrace.Proofs.Analytic.Quadrature
import AnalyticTrace.Proofs.Analytic.Tone
import AnalyticTrace.Proofs.Attribute.Defined
import AnalyticTrace.Proofs.Attribute.Energy
import AnalyticTrace.Proofs.Attribute.Lengths
import AnalyticTrace.Proofs.Attribute.Names
import AnalyticTrace.Proofs.Attribute.Nyquist
import AnalyticTrace.Proofs.Attribute.PolarForm
import AnalyticTrace.Proofs.Attribute.Refusal
import AnalyticTrace.Proofs.Attribute.Reversal
import AnalyticTrace.Proofs.Attribute.Scaling
import AnalyticTrace.Proofs.Attribute.Selection
import AnalyticTrace.Proofs.Attribute.Tone
import AnalyticTrace.Proofs.Contract.Baseline
import AnalyticTrace.Proofs.Contract.Calls
import AnalyticTrace.Proofs.Contract.Deviation
import AnalyticTrace.Proofs.Contract.Ending
import AnalyticTrace.Proofs.Contract.Samples
import AnalyticTrace.Proofs.Contract.Verdict
import AnalyticTrace.Proofs.Exact.Partial
import AnalyticTrace.Proofs.Exact.Real
import AnalyticTrace.Proofs.Fourier.Hermitian
import AnalyticTrace.Proofs.Fourier.Inversion
import AnalyticTrace.Proofs.Fourier.MixedRadix
import AnalyticTrace.Proofs.Fourier.Parseval
import AnalyticTrace.Proofs.Fourier.Passes
import AnalyticTrace.Proofs.Fourier.Spectrum
import AnalyticTrace.Proofs.Fourier.Sums
import AnalyticTrace.Proofs.Fourier.Symmetry
import AnalyticTrace.Proofs.Gradient.ByIndex
import AnalyticTrace.Proofs.Gradient.Offset
import AnalyticTrace.Proofs.Gradient.Slopes
import AnalyticTrace.Proofs.Grid.Contents
import AnalyticTrace.Proofs.Grid.PerTrace
import AnalyticTrace.Proofs.Grid.Refusal
import AnalyticTrace.Proofs.Grid.Rows
import AnalyticTrace.Proofs.Grid.Schedule
import AnalyticTrace.Proofs.Sample.Binary
import AnalyticTrace.Proofs.Sample.Ieee
import AnalyticTrace.Proofs.Sample.Packing
import AnalyticTrace.Proofs.Sample.Rank
import AnalyticTrace.Proofs.Sample.Rounding
import AnalyticTrace.Proofs.Steps
import AnalyticTrace.Proofs.Storage.Contents
import AnalyticTrace.Proofs.Storage.Filling
import AnalyticTrace.Proofs.Storage.Layout
import AnalyticTrace.Proofs.Storage.RunInto
import AnalyticTrace.Proofs.Text.Spelling
import AnalyticTrace.Proofs.Unwrap.ByIndex
import AnalyticTrace.Proofs.Unwrap.Jumps
import AnalyticTrace.Proofs.Unwrap.Nearest
import AnalyticTrace.Proofs.Unwrap.Periods
import AnalyticTrace.Proofs.Unwrap.Recovery
import AnalyticTrace.Proofs.Unwrap.Rule
import AnalyticTrace.Proofs.Unwrap.Slots
import AnalyticTrace.Proofs.Unwrap.Symmetry
import AnalyticTrace.Sample.Basic
import AnalyticTrace.Sample.BinaryValue
import AnalyticTrace.Sample.Float
import AnalyticTrace.Storage.Buffer
import AnalyticTrace.Storage.Grid
import AnalyticTrace.Storage.Strided
import AnalyticTrace.Storage.TraceGrid
import AnalyticTrace.Text.Blank
import AnalyticTrace.Text.Json
import AnalyticTrace.Unwrap
