import AnalyticTrace.Decimal.Rounding
import AnalyticTrace.Decimal.Shortest

namespace AnalyticTrace
namespace Decimal

/-- The digits of `units`, the last `places` of them behind the point. -/
def pointed (places units : Nat) : String :=
  if places = 0 then toString units
  else
    let behind := toString (units % tenPow places)
    toString (units / tenPow places) ++ "." ++ "".pushn '0' (places - behind.length) ++ behind

def signed (v : BinaryValue) (text : String) : String :=
  if v.negative then "-" ++ text else text

/-- A set number of places behind the point. -/
def fixed (places : Nat) (v : BinaryValue) : String :=
  signed v (pointed places (roundDiv (v.numerator * tenPow places) v.denominator))

/-- One digit before the point, a set number behind it, and the power of ten. -/
def scientific (places : Nat) (v : BinaryValue) : String :=
  if v.mantissa = 0 then signed v (pointed places 0 ++ "e0")
  else
    let e := leadingExponent v.numerator v.denominator
    let units := roundDiv (v.numerator * tenPow (places - e).toNat)
      (v.denominator * tenPow (e - places).toNat)
    if units < tenPow (places + 1) then signed v s!"{pointed places units}e{e}"
    else signed v s!"{pointed places (tenPow places)}e{e + 1}"

/-- One digit before the point, as many behind it as tell the value from all others. -/
def exact (v : BinaryValue) : String :=
  if v.mantissa = 0 then signed v "0e0"
  else
    let d := shortest v
    let places := (toString d.digits).length - 1
    signed v s!"{pointed places d.digits}e{d.exponent + places}"

/-- Lays out a finite value; a NaN has no sign. -/
def text (layout : BinaryValue → String) (x : Float) : String :=
  match BinaryValue.ofFloat? x with
  | some v => layout v
  | none => if x == x then if x < 0 then "-inf" else "inf" else "NaN"

end Decimal
end AnalyticTrace
