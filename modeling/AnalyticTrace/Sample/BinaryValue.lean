namespace AnalyticTrace

/-- A finite binary float taken apart: `± mantissa * 2 ^ exponent`. -/
structure BinaryValue where
  negative : Bool
  mantissa : Nat
  exponent : Int
  deriving DecidableEq, Repr

namespace BinaryValue

/-- The mantissa of one, `2 ^ 52`. -/
def hiddenBit : Nat := 1 <<< 52

/-- The exact value of a double; none for infinities and NaN. -/
def ofFloat? (x : Float) : Option BinaryValue :=
  let bits := x.toBits.toNat
  let field : Nat := bits / hiddenBit % 2048
  let fraction : Nat := bits % hiddenBit
  let negative := decide (1 <<< 63 ≤ bits)
  if field = 2047 then none
  else if field = 0 then some ⟨negative, fraction, -1074⟩
  else some ⟨negative, hiddenBit + fraction, (field : Int) - 1075⟩

/-- Magnitude in units of `2 ^ e`, cut off below. -/
def scaled (v : BinaryValue) (e : Int) : Nat :=
  v.mantissa <<< (v.exponent - e).toNat >>> (e - v.exponent).toNat

/-- The double with this value; exact for every value that has one. -/
def toFloat (v : BinaryValue) : Float :=
  let top := v.exponent + v.mantissa.log2
  let magnitude :=
    if v.mantissa = 0 then 0
    else if -1022 ≤ top then (top + 1022).toNat * hiddenBit + v.scaled (top - 52)
    else v.scaled (-1074)
  Float.ofBits (UInt64.ofNat (magnitude + if v.negative then 1 <<< 63 else 0))

/-- The remainder of the division truncated toward zero, with the sign of the dividend. -/
def rem (a b : BinaryValue) : BinaryValue :=
  let e := min a.exponent b.exponent
  ⟨a.negative, a.scaled e % b.scaled e, e⟩

end BinaryValue
end AnalyticTrace
