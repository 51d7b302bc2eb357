import AnalyticTrace.Contract.Recorder
import AnalyticTrace.Decimal.Notation

namespace AnalyticTrace
namespace Row

/-- Deviations have four digits and a power of ten. -/
def deviationText (x : Float) : String := Decimal.text (Decimal.scientific 3) x

def durationText (x : Float) : String := Decimal.text (Decimal.fixed 3) x

def ratioText (x : Float) : String := Decimal.text (Decimal.fixed 6) x

def header : String :=
  "case_id,samples,mae,rmse,max_abs,rust_candidate_ns,rust_baseline_ns,python_ns," ++
    "speedup_vs_baseline,speedup_vs_python\n"

/-- The row with commas between its fields. Nothing is quoted. -/
def line (row : Row Float) : String :=
  ",".intercalate [
    row.caseId,
    toString row.samples,
    deviationText row.deviation.mae,
    deviationText row.deviation.rmse,
    deviationText row.deviation.maxAbs,
    durationText row.candidateNs,
    durationText row.baselineNs,
    durationText row.referenceNs,
    ratioText row.speedupOverBaseline,
    ratioText row.speedupOverReference] ++ "\n"

end Row

/-- All rows under the header. -/
def table (rows : List (Row Float)) : String :=
  rows.foldl (fun text row => text ++ row.line) Row.header

end AnalyticTrace
