import AnalyticTrace.Sample.Basic
import AnalyticTrace.Sample.BinaryValue

namespace AnalyticTrace
namespace Double

/-- Exact; an infinite divisor leaves a finite dividend as it is. -/
def rem (x y : Float) : Float :=
  match BinaryValue.ofFloat? x, BinaryValue.ofFloat? y with
  | some a, some b => if b.mantissa = 0 then 0 / 0 else (a.rem b).toFloat
  | some _, none => if y == y then x else y
  | none, _ => 0 / 0

/-- The longer leg is divided out, so that no square overflows or vanishes. -/
def hypot (x y : Float) : Float :=
  let longer := if x.abs < y.abs then y.abs else x.abs
  let shorter := if x.abs < y.abs then x.abs else y.abs
  if x.isInf || y.isInf then 1 / 0
  else if longer == 0 then longer + shorter
  else longer * (1 + (shorter / longer) * (shorter / longer)).sqrt

def pi : Float := 3.14159265358979323846

def turn (n k : Nat) : Float × Float :=
  let angle := (pi + pi) * Float.ofNat k / Float.ofNat n
  (angle.cos, angle.sin)

end Double

instance : Sample Float where
  decLt := inferInstance
  decLe := inferInstance
  ofNat := Float.ofNat
  rem := Double.rem
  abs := Float.abs
  sqrt := Float.sqrt
  hypot := Double.hypot
  atan2 := Float.atan2
  exp := Float.exp
  sin := Float.sin
  cos := Float.cos
  pi := Double.pi
  isFinite := Float.isFinite
  turn := Double.turn

/-- Remainder, length and points of the circle are taken in double precision and rounded once. -/
instance : Sample Float32 where
  decLt := inferInstance
  decLe := inferInstance
  ofNat := Float32.ofNat
  rem x y := (Double.rem x.toFloat y.toFloat).toFloat32
  abs := Float32.abs
  sqrt := Float32.sqrt
  hypot x y := (Double.hypot x.toFloat y.toFloat).toFloat32
  atan2 := Float32.atan2
  exp := Float32.exp
  sin := Float32.sin
  cos := Float32.cos
  pi := 3.14159265358979323846
  isFinite := Float32.isFinite
  turn n k := ((Double.turn n k).1.toFloat32, (Double.turn n k).2.toFloat32)

end AnalyticTrace
