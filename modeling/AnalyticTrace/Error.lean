namespace AnalyticTrace

/-- What stops a transform. -/
inductive TransformError where
  | invalidLength (arg : String)
  | lengthMismatch (arg : String) (expected got : Nat)
  deriving DecidableEq, Repr

/-- What a configuration or a piece of storage is refused for. -/
inductive ConfigError where
  | emptyInput (arg : String)
  | invalidArgument (arg reason : String)
  | duplicateArgument (arg : String) (index : Nat)
  | nonContiguous (arg : String)
  | lengthMismatch (arg : String) (expected got : Nat)
  deriving DecidableEq, Repr

/-- What stops a run of an accepted configuration. -/
inductive RunError where
  | invalidState (reason : String)
  | invalidLength (arg : String)
  | raggedGrid (row expected got : Nat)
  | lengthMismatch (arg : String) (expected got : Nat)
  | config (cause : ConfigError)
  deriving DecidableEq, Repr

def TransformError.message : TransformError → String
  | invalidLength arg => s!"Invalid length for `{arg}`: transform length must be > 0"
  | lengthMismatch arg expected got =>
    s!"Length mismatch on `{arg}`. Expected {expected}, got {got}."

def ConfigError.message : ConfigError → String
  | emptyInput arg => s!"Input `{arg}` was empty."
  | invalidArgument arg reason => s!"Invalid argument `{arg}`: {reason}"
  | duplicateArgument arg index => s!"Argument `{arg}` repeats an entry at position {index}."
  | nonContiguous arg => s!"Argument `{arg}` is not contiguous in memory."
  | lengthMismatch arg expected got =>
    s!"Length mismatch on `{arg}`. Expected {expected}, got {got}."

def RunError.message : RunError → String
  | invalidState reason => s!"Execution invariant violation: {reason}"
  | invalidLength arg => s!"Invalid length for `{arg}`: traces must hold at least one sample"
  | raggedGrid row expected got =>
    s!"Ragged grid: row {row} has {got} samples, row 0 has {expected}."
  | lengthMismatch arg expected got =>
    s!"Execution length mismatch on `{arg}`. Expected {expected}, got {got}."
  | config cause => cause.message

/-- The refusal behind a failed run, if there is one. -/
def RunError.cause? : RunError → Option ConfigError
  | config cause => some cause
  | _ => none

def RunError.ofTransform : TransformError → RunError
  | .invalidLength arg => .invalidLength arg
  | .lengthMismatch arg expected got => .lengthMismatch arg expected got

end AnalyticTrace
