import AnalyticTrace.Sample.BinaryValue

namespace AnalyticTrace

namespace BinaryValue

/-- The magnitude is `numerator / denominator`. -/
def numerator (v : BinaryValue) : Nat := v.mantissa <<< v.exponent.toNat

def denominator (v : BinaryValue) : Nat := 1 <<< (-v.exponent).toNat

end BinaryValue

namespace Decimal

/-- The quotient rounded to a whole number, a half to the even one. -/
def roundDiv (num den : Nat) : Nat :=
  let q := num / den
  let r := num % den
  if 2 * r < den then q
  else if den < 2 * r then q + 1
  else if q % 2 = 0 then q else q + 1

def tenPow (n : Nat) : Nat := Nat.pow 10 n

/-- The exponent of the leading digit of `num / den`, neither of them zero. -/
def leadingExponent (num den : Nat) : Int :=
  let gap : Int := (toString num).length - (toString den).length
  if den * tenPow gap.toNat ≤ num * tenPow (-gap).toNat then gap else gap - 1

end Decimal
end AnalyticTrace
