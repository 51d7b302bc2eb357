namespace AnalyticTrace

/-- One input computed twice, with the mean time of each. -/
structure Case (α : Type) where
  id : String
  candidate : Array α
  candidateNs : α
  baseline : Array α
  baselineNs : α
  deriving DecidableEq, Repr

end AnalyticTrace
