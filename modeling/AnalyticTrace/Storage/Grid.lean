namespace AnalyticTrace

/-- A rectangular array, one row after the other. -/
structure Grid (α : Type) where
  rows : Nat
  cols : Nat
  data : Array α
  size_data : data.size = rows * cols
  deriving DecidableEq, Repr

namespace Grid

variable {α : Type}

def ofData? (rows cols : Nat) (data : Array α) : Option (Grid α) :=
  if h : data.size = rows * cols then some ⟨rows, cols, data, h⟩ else none

/-- No rows of the given length. -/
def empty (cols : Nat) : Grid α := ⟨0, cols, #[], by simp⟩

def row (g : Grid α) (i : Nat) : Array α := g.data.extract (i * g.cols) ((i + 1) * g.cols)

end Grid
end AnalyticTrace
