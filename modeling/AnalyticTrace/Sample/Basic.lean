namespace AnalyticTrace

/-- The arithmetic of a sample type. No law is assumed of it. -/
class Sample (α : Type) extends Add α, Sub α, Mul α, Div α, Neg α, Zero α, One α,
    OfScientific α, BEq α, LT α, LE α where
  decLt : DecidableLT α
  decLe : DecidableLE α
  ofNat : Nat → α
  /-- The remainder of the division truncated toward zero. -/
  rem : α → α → α
  abs : α → α
  sqrt : α → α
  /-- The length of the vector with the given legs. -/
  hypot : α → α → α
  /-- The angle of the vector with the given legs, the vertical leg first. -/
  atan2 : α → α → α
  exp : α → α
  sin : α → α
  cos : α → α
  pi : α
  isFinite : α → Bool
  /-- Cosine and sine of `k / n` of a full turn, `turn n k`. -/
  turn : Nat → Nat → α × α

attribute [reducible, instance] Sample.decLt Sample.decLe

namespace Sample

variable {α : Type} [Sample α]

def two : α := 1 + 1

def twoPi : α := pi + pi

/-- The larger of two samples, of equal ones the second; a sample that differs from itself loses to
any other. -/
def max (a b : α) : α :=
  if b < a then a else if b == b then b else a

/-- The remainder that carries the sign of the divisor. -/
def floorMod (a b : α) : α :=
  let r := rem a b
  if r != 0 && decide (r < 0) != decide (b < 0) then r + b else r

/-- The remainder that is never negative. -/
def euclidMod (a b : α) : α :=
  let r := rem a b
  if r < 0 then r + abs b else r

end Sample
end AnalyticTrace
