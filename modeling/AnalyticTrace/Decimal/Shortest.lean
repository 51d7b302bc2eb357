import AnalyticTrace.Decimal.Rounding

namespace AnalyticTrace

/-- The number `digits * 10 ^ exponent`. -/
structure Decimal where
  digits : Nat
  exponent : Int
  deriving DecidableEq, Repr

namespace Decimal

/-- How a decimal compares with `n * 2 ^ e`. -/
def compareBinary (d : Decimal) (n : Nat) (e : Int) : Ordering :=
  compare ((d.digits * tenPow d.exponent.toNat) <<< (-e).toNat)
    ((n * tenPow (-d.exponent).toNat) <<< e.toNat)

/-- Whether a decimal lies halfway at most to the neighbours of a value. The neighbour below a power
of two is nearer, and halfway itself belongs to even mantissas. -/
def readsBack (v : BinaryValue) (d : Decimal) : Bool :=
  let narrow := v.mantissa = BinaryValue.hiddenBit ∧ -1074 < v.exponent
  let low := if narrow then 4 * v.mantissa - 1 else 4 * v.mantissa - 2
  let ends := v.mantissa % 2 == 0
  let overLow := d.compareBinary low (v.exponent - 2)
  let overHigh := d.compareBinary (4 * v.mantissa + 2) (v.exponent - 2)
  (overLow == .gt || ends && overLow == .eq) && (overHigh == .lt || ends && overHigh == .eq)

/-- The multiple of `10 ^ e` closest to a value among those that read back, the upper of two. -/
def onGrid? (v : BinaryValue) (e : Int) : Option Decimal :=
  let num := v.numerator * tenPow (-e).toNat
  let den := v.denominator * tenPow e.toNat
  let below : Decimal := ⟨num / den, e⟩
  let above : Decimal := ⟨num / den + 1, e⟩
  let belowCloser := decide (2 * (num % den) < den)
  if readsBack v below && (belowCloser || !readsBack v above) then some below
  else if readsBack v above then some above
  else none

/-- Without the zeros at the end of its digits, of which there are at most `fuel`. -/
def dropZeros : Nat → Decimal → Decimal
  | 0, d => d
  | fuel + 1, d => if d.digits % 10 = 0 then dropZeros fuel ⟨d.digits / 10, d.exponent + 1⟩ else d

/-- The fewest digits that read back, and of those the closest. Seventeen are always enough. -/
def shortest (v : BinaryValue) : Decimal :=
  let e := leadingExponent v.numerator v.denominator
  let found := (List.range 17).findSome? fun places : Nat => onGrid? v (e - places)
  let finest := v.numerator * tenPow (16 - e).toNat / (v.denominator * tenPow (e - 16).toNat)
  dropZeros 17 (found.getD ⟨finest, e - 16⟩)

end Decimal
end AnalyticTrace
