import AnalyticTrace.Proofs.Exact.Real

namespace AnalyticTrace

/-- What exact arithmetic comes to where a quotient by zero and the root of a negative number have
no value. -/
inductive PartialReal where
  | undefined
  | value (x : ℝ)

namespace PartialReal

/-- An operation on a number that need not have a value. Of what is undefined nothing else comes. -/
def bind (f : ℝ → PartialReal) : PartialReal → PartialReal
  | undefined => undefined
  | value x => f x

def map (f : ℝ → ℝ) : PartialReal → PartialReal := bind fun x => value (f x)

def combine (f : ℝ → ℝ → ℝ) (a b : PartialReal) : PartialReal := a.bind fun x => b.map (f x)

/-- A comparison, which fails where a side is undefined. -/
def Holds (r : ℝ → ℝ → Prop) : PartialReal → PartialReal → Prop
  | value x, value y => r x y
  | _, _ => False

noncomputable def quotient (a b : PartialReal) : PartialReal :=
  a.bind fun x => b.bind fun y => if y = 0 then undefined else value (x / y)

noncomputable def remainder (a b : PartialReal) : PartialReal :=
  a.bind fun x => b.bind fun y => if y = 0 then undefined else value (truncatedRem x y)

noncomputable def root (a : PartialReal) : PartialReal :=
  a.bind fun x => if x < 0 then undefined else value √x

/-- Exact arithmetic in which a computation has a value only if all its divisors are other than zero
and all its radicands at least zero. -/
noncomputable instance [Angle] : Sample PartialReal where
  add := combine (· + ·)
  sub := combine (· - ·)
  mul := combine (· * ·)
  div := quotient
  neg := map (-·)
  zero := value 0
  one := value 1
  ofScientific m s e := value (OfScientific.ofScientific m s e)
  beq a b := @decide (Holds (· = ·) a b) (Classical.propDecidable _)
  lt := Holds (· < ·)
  le := Holds (· ≤ ·)
  decLt _ _ := Classical.propDecidable _
  decLe _ _ := Classical.propDecidable _
  ofNat n := value n
  rem := remainder
  abs := map (|·|)
  sqrt := root
  hypot a b := root (combine (fun x y => x ^ 2 + y ^ 2) a b)
  atan2 := combine Angle.angle
  exp := map Real.exp
  sin := map Real.sin
  cos := map Real.cos
  pi := value Real.pi
  isFinite
    | undefined => false
    | value _ => true
  turn n k :=
    if n = 0 then (undefined, undefined)
    else (value (Real.cos (turnAngle n k)), value (Real.sin (turnAngle n k)))

section Values
variable [Angle] {x y : ℝ}

@[simp] theorem zero_eq : (0 : PartialReal) = value 0 := rfl

@[simp] theorem one_eq : (1 : PartialReal) = value 1 := rfl

@[simp] theorem pi_eq : (Sample.pi : PartialReal) = value Sample.pi := rfl

@[simp] theorem ofNat_eq (n : ℕ) : (Sample.ofNat n : PartialReal) = value (Sample.ofNat n) :=
  rfl

@[simp] theorem value_add : value x + value y = value (x + y) := rfl

@[simp] theorem value_sub : value x - value y = value (x - y) := rfl

@[simp] theorem value_mul : value x * value y = value (x * y) := rfl

@[simp] theorem neg_value : -value x = value (-x) := rfl

@[simp] theorem abs_value : Sample.abs (value x) = value (Sample.abs x) := rfl

@[simp] theorem atan2_value : Sample.atan2 (value y) (value x) = value (Sample.atan2 y x) :=
  rfl

@[simp] theorem value_lt : value x < value y ↔ x < y := Iff.rfl

@[simp] theorem value_le : value x ≤ value y ↔ x ≤ y := Iff.rfl

@[simp] theorem value_beq : (value x == value y) = (x == y) := by
  by_cases h : x = y
  · exact (decide_eq_true h).trans (beq_iff_eq.2 h).symm
  · exact (decide_eq_false h).trans (beq_eq_false_iff_ne.2 h).symm

@[simp] theorem two_eq_value : (Sample.two : PartialReal) = value Sample.two := rfl

@[simp] theorem twoPi_eq_value : (Sample.twoPi : PartialReal) = value Sample.twoPi := rfl

theorem turn_eq {n : ℕ} (hn : 0 < n) (k : ℕ) : (Sample.turn n k : PartialReal × PartialReal) =
    (value (Sample.turn n k).1, value (Sample.turn n k).2) :=
  if_neg hn.ne'

theorem value_div (hy : y ≠ 0) : value x / value y = value (x / y) := if_neg hy

theorem div_eq_undefined_iff : value x / value y = undefined ↔ y = 0 := by
  by_cases hy : y = 0
  · exact iff_of_true (if_pos hy) hy
  · exact iff_of_false (by simp [value_div hy]) hy

theorem rem_value (hy : y ≠ 0) : Sample.rem (value x) (value y) = value (Sample.rem x y) :=
  if_neg hy

theorem sqrt_value (hx : 0 ≤ x) : Sample.sqrt (value x) = value (Sample.sqrt x) :=
  if_neg hx.not_gt

theorem sqrt_eq_undefined_iff : Sample.sqrt (value x) = undefined ↔ x < 0 := by
  by_cases hx : x < 0
  · exact iff_of_true (if_pos hx) hx
  · exact iff_of_false (by simp [sqrt_value (not_lt.1 hx)]) hx

theorem hypot_value : Sample.hypot (value x) (value y) = value (Sample.hypot x y) :=
  sqrt_value (add_nonneg (sq_nonneg x) (sq_nonneg y))

end Values
end PartialReal

namespace Cplx

open PartialReal (value)

def toPartial (z : Cplx ℝ) : Cplx PartialReal := ⟨value z.re, value z.im⟩

variable [Angle] (z w : Cplx ℝ)

@[simp] theorem toPartial_zero : toPartial 0 = 0 := rfl

@[simp] theorem toPartial_add : (z + w).toPartial = z.toPartial + w.toPartial := rfl

@[simp] theorem toPartial_mul : (z * w).toPartial = z.toPartial * w.toPartial := rfl

@[simp] theorem toPartial_conj : z.conj.toPartial = z.toPartial.conj := rfl

@[simp] theorem toPartial_ofReal (x : ℝ) : (ofReal x).toPartial = ofReal (value x) := rfl

@[simp] theorem toPartial_scale (c : ℝ) : (z.scale c).toPartial = z.toPartial.scale (value c) := rfl

end Cplx
end AnalyticTrace
