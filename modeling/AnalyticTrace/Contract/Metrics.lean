import AnalyticTrace.Sample.Basic

namespace AnalyticTrace

/-- How far two sequences are apart: mean, root of the mean square, and largest difference. -/
structure Metrics (α : Type) where
  mae : α
  rmse : α
  maxAbs : α
  deriving DecidableEq, Repr

namespace Metrics

variable {α : Type} [Sample α]

/-- The absolute differences, as far as both sequences go. -/
def differences (a b : Array α) : List α :=
  List.zipWith (fun x y => Sample.abs (x - y)) a.toList b.toList

/-- Sum, sum of squares and maximum so far. -/
structure Tally (α : Type) where
  sum : α
  squares : α
  largest : α

def Tally.add (t : Tally α) (d : α) : Tally α where
  sum := t.sum + d
  squares := t.squares + d * d
  largest := Sample.max t.largest d

/-- No sequence is empty to the means: they divide by one at least. -/
def compare (a b : Array α) : Metrics α :=
  let count : α := Sample.ofNat (max a.size 1)
  let t := (differences a b).foldl Tally.add ⟨0, 0, 0⟩
  { mae := t.sum / count, rmse := Sample.sqrt (t.squares / count), maxAbs := t.largest }

end Metrics
end AnalyticTrace
