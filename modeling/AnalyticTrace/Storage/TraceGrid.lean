import AnalyticTrace.Error
import AnalyticTrace.Storage.Strided

namespace AnalyticTrace

/-- Traces as a caller holds them, one a row; a list of rows need not be rectangular. -/
inductive TraceGrid (α : Type) where
  | rows (traces : Array (Array α))
  | array (traces : StridedGrid α)
  | view (traces : StridedGrid α)

namespace TraceGrid

variable {α : Type}

def rowCount : TraceGrid α → Nat
  | rows traces => traces.size
  | array traces => traces.rows
  | view traces => traces.rows

/-- The samples of a trace, where they are known without one. -/
def colCount? : TraceGrid α → Option Nat
  | rows _ => none
  | array traces => some traces.cols
  | view traces => some traces.cols

def rowOutOfBounds : ConfigError := .invalidArgument "row" "row index out of bounds"

def readStrided (arg : String) (traces : StridedGrid α) (i : Nat) :
    Except ConfigError (Array α) :=
  if h : i < traces.rows then
    let row := traces.row i h
    if row.contiguous then .ok row.toArray else .error (.nonContiguous arg)
  else .error rowOutOfBounds

def readRow : TraceGrid α → Nat → Except ConfigError (Array α)
  | rows traces, i => if h : i < traces.size then .ok traces[i] else .error rowOutOfBounds
  | array traces, i => readStrided "grid" traces i
  | view traces, i => readStrided "grid_view" traces i

end TraceGrid
end AnalyticTrace
