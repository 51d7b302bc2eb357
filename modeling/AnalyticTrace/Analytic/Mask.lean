import AnalyticTrace.Sample.Basic

namespace AnalyticTrace

variable {α : Type} [Sample α]

/-- The weight of bin `k` of `n`: positive frequencies count twice, negative ones not at all; the
mean and, for even `n`, the highest frequency stand for themselves. -/
def maskWeight (n k : Nat) : α :=
  if k = 0 then 1
  else if n % 2 = 0 then
    if k < n / 2 then Sample.two else if k = n / 2 then 1 else 0
  else if k ≤ n / 2 then Sample.two else 0

def hilbertMask (n : Nat) : Array α := Array.ofFn fun k : Fin n => maskWeight n k

end AnalyticTrace
