import Mathlib.Analysis.SpecialFunctions.Complex.Arg
import AnalyticTrace.Cplx
import AnalyticTrace.Proofs.Sample.Ieee

namespace AnalyticTrace

/-- The angle of a vector as a function of its legs, the vertical one first. Nothing is assumed of
it here. -/
class Angle where
  angle : ℝ → ℝ → ℝ

noncomputable instance (priority := low) Angle.principal : Angle where
  angle y x := Complex.arg ⟨x, y⟩

/-- The angle of `k / n` of a full turn. -/
noncomputable def turnAngle (n k : ℕ) : ℝ := 2 * Real.pi * k / n

/-- The turns that bring an angle into `(-π, π]`. -/
noncomputable def turnsBack (θ : ℝ) : ℤ := -toIocDiv Real.two_pi_pos (-Real.pi) θ

noncomputable def principalAngle (θ : ℝ) : ℝ := toIocMod Real.two_pi_pos (-Real.pi) θ

theorem principalAngle_eq (θ : ℝ) : principalAngle θ = θ + turnsBack θ * (2 * Real.pi) := by
  rw [principalAngle, turnsBack, ← self_sub_toIocDiv_zsmul, zsmul_eq_mul, sub_eq_add_neg,
    Int.cast_neg, neg_mul]

theorem principalAngle_mem (θ : ℝ) : principalAngle θ ∈ Set.Ioc (-Real.pi) Real.pi := by
  have htop : -Real.pi + 2 * Real.pi = Real.pi := by ring
  have hmem := toIocMod_mem_Ioc Real.two_pi_pos (-Real.pi) θ
  rwa [htop] at hmem

noncomputable def truncatedRem (a b : ℝ) : ℝ :=
  a - b * (if 0 ≤ a / b then ⌊a / b⌋ else ⌈a / b⌉ : ℤ)

/-- Exact arithmetic: every sample is a real number and no result is rounded. -/
noncomputable instance [Angle] : Sample ℝ where
  decLt := inferInstance
  decLe := inferInstance
  ofNat n := n
  rem := truncatedRem
  abs x := |x|
  sqrt := Real.sqrt
  hypot x y := √(x ^ 2 + y ^ 2)
  atan2 := Angle.angle
  exp := Real.exp
  sin := Real.sin
  cos := Real.cos
  pi := Real.pi
  isFinite _ := true
  turn n k := (Real.cos (2 * Real.pi * k / n), Real.sin (2 * Real.pi * k / n))

theorem two_eq [Angle] : (Sample.two : ℝ) = 2 := one_add_one_eq_two

theorem twoPi_eq [Angle] : (Sample.twoPi : ℝ) = 2 * Real.pi := (two_mul Real.pi).symm

theorem twoPi_pos [Angle] : (0 : ℝ) < Sample.twoPi := add_pos Real.pi_pos Real.pi_pos

section Numbers
variable [Angle]

theorem not_isNan (a : ℝ) : ¬Sample.IsNan a := by
  rw [Sample.IsNan, beq_self_eq_true]
  exact Bool.false_ne_true.symm

/-- Real numbers behave like floating-point numbers of which each is a number. -/
instance : IeeeSample ℝ where
  not_nan_of_lt _ := ⟨not_isNan _, not_isNan _⟩
  lt_trans := lt_trans
  lt_or_lt h _ := (lt_or_ge _ _).imp_right fun hba => hba.trans_lt h
  le_iff := ⟨fun h => ⟨not_isNan _, not_isNan _, h.not_gt⟩, fun h => not_lt.1 h.2.2⟩
  nan_add h := absurd h (not_isNan _)
  add_nan h := absurd h (not_isNan _)
  nan_sub h := absurd h (not_isNan _)
  sub_nan h := absurd h (not_isNan _)
  abs_nan_iff := iff_of_false (not_isNan _) (not_isNan _)
  sub_neg a b := by rw [sub_eq_add_neg, neg_neg]
  add_neg a b := (sub_eq_add_neg a b).symm
  zero_add_zero := add_zero 0
  add_add_zero _ := add_zero _
  not_nan_of_isFinite _ := not_isNan _
  half_not_nan _ := not_isNan _
  pi_not_nan := not_isNan _

end Numbers

section Remainder
variable [Angle] {a b : ℝ}

theorem truncatedRem_of_nonneg (hb : 0 < b) (h : 0 ≤ a / b) :
    truncatedRem a b = b * Int.fract (a / b) := by
  rw [truncatedRem, if_pos h, Int.fract, mul_sub, mul_div_cancel₀ a hb.ne']

theorem truncatedRem_of_neg (hb : 0 < b) (h : a / b < 0) :
    truncatedRem a b = -(b * Int.fract (-(a / b))) := by
  rw [truncatedRem, if_neg h.not_ge, Int.fract, Int.floor_neg, mul_sub, mul_neg,
    mul_div_cancel₀ a hb.ne']
  push_cast
  ring

theorem floorMod_eq_ite (hb : 0 < b) :
    Sample.floorMod a b =
      if truncatedRem a b < 0 then truncatedRem a b + b else truncatedRem a b := by
  rw [Sample.floorMod]
  by_cases h : truncatedRem a b < 0
  · simp [Sample.rem, h, h.ne, hb.not_gt]
  · simp [Sample.rem, h, hb.not_gt]

/-- With a positive divisor it is what is left of the quotient after its whole part. -/
theorem floorMod_eq (hb : 0 < b) (a : ℝ) : Sample.floorMod a b = b * Int.fract (a / b) := by
  rw [floorMod_eq_ite hb]
  by_cases h : 0 ≤ a / b
  · have hr := mul_nonneg hb.le (Int.fract_nonneg (a / b))
    rw [truncatedRem_of_nonneg hb h, if_neg hr.not_gt]
  · rw [truncatedRem_of_neg hb (not_le.1 h)]
    by_cases hf : Int.fract (a / b) = 0
    · simp [Int.fract_neg_eq_zero.2 hf, hf]
    · have hr : 0 < b * (1 - Int.fract (a / b)) :=
        mul_pos hb (sub_pos.2 (Int.fract_lt_one _))
      rw [Int.fract_neg hf, if_pos (neg_neg_of_pos hr)]
      ring

theorem floorMod_eq_sub (hb : 0 < b) (a : ℝ) : Sample.floorMod a b = a - ⌊a / b⌋ * b := by
  rw [floorMod_eq hb, Int.fract, mul_sub, mul_div_cancel₀ a hb.ne', mul_comm]

theorem floorMod_nonneg (hb : 0 < b) (a : ℝ) : 0 ≤ Sample.floorMod a b := by
  rw [floorMod_eq hb]
  exact mul_nonneg hb.le (Int.fract_nonneg _)

theorem floorMod_lt (hb : 0 < b) (a : ℝ) : Sample.floorMod a b < b := by
  rw [floorMod_eq hb]
  exact mul_lt_of_lt_one_right hb (Int.fract_lt_one _)

theorem floorMod_add_mul (ha : 0 ≤ a) (hab : a < b) (m : ℤ) :
    Sample.floorMod (a + m * b) b = a := by
  have hb : 0 < b := ha.trans_lt hab
  have hfract : Int.fract (a / b) = a / b :=
    Int.fract_eq_self.2 ⟨div_nonneg ha hb.le, (div_lt_one hb).2 hab⟩
  rw [floorMod_eq hb, add_div, mul_div_cancel_right₀ _ hb.ne', Int.fract_add_intCast, hfract,
    mul_div_cancel₀ a hb.ne']

end Remainder
namespace Cplx

def toComplex (z : Cplx ℝ) : ℂ := ⟨z.re, z.im⟩

@[simp] theorem toComplex_re (z : Cplx ℝ) : z.toComplex.re = z.re := rfl

@[simp] theorem toComplex_im (z : Cplx ℝ) : z.toComplex.im = z.im := rfl

theorem toComplex_injective : Function.Injective toComplex := by
  intro z w h
  exact Cplx.ext (congrArg Complex.re h) (congrArg Complex.im h)

variable [Angle]

@[simp] theorem toComplex_zero : (0 : Cplx ℝ).toComplex = 0 := rfl

@[simp] theorem toComplex_ofReal (x : ℝ) : (ofReal x).toComplex = x := rfl

@[simp] theorem toComplex_add (z w : Cplx ℝ) : (z + w).toComplex = z.toComplex + w.toComplex := rfl

@[simp] theorem toComplex_mul (z w : Cplx ℝ) : (z * w).toComplex = z.toComplex * w.toComplex :=
  rfl

@[simp] theorem toComplex_conj (z : Cplx ℝ) :
    z.conj.toComplex = starRingEnd ℂ z.toComplex := rfl

@[simp] theorem toComplex_scale (z : Cplx ℝ) (c : ℝ) : (z.scale c).toComplex = z.toComplex * c := by
  apply Complex.ext
  · simp [scale]
  · simp [scale]

end Cplx
end AnalyticTrace
