import AnalyticTrace.Proofs.Sample.Ieee
import AnalyticTrace.Proofs.Sample.Rank
import AnalyticTrace.Proofs.Sample.Rounding
import AnalyticTrace.Sample.Float

namespace AnalyticTrace

open Float.Model (Format UnpackedFloat)
open Float.Model.UnpackedFloat

section Numbers
variable {spec : Format} {f g : UnpackedFloat}

theorem apply_neg (s : Sign) (n : Int) : (-s).apply n = -s.apply n := by
  cases s with
  | negative => exact (Int.neg_neg n).symm
  | positive => rfl

theorem sub_neg_eq_add (f g : UnpackedFloat) :
    UnpackedFloat.sub spec f g.neg = UnpackedFloat.add spec f g := by
  rcases f with s | _ | s | ⟨s, m, e, h⟩ <;> rcases g with s' | _ | s' | ⟨s', m', e', h'⟩
  case finite.finite =>
    have hsum (k k' : Int) : s.apply k - (-s').apply k' = s.apply k + s'.apply k' := by
      rw [apply_neg, Int.sub_neg]
    exact congrArg (UnpackedFloat.normalize spec · (min e e') .positive) (hsum _ _)
  all_goals try rfl
  all_goals cases s <;> cases s' <;> rfl

theorem add_neg_eq_sub (f g : UnpackedFloat) :
    UnpackedFloat.add spec f g.neg = UnpackedFloat.sub spec f g := by
  rcases f with s | _ | s | ⟨s, m, e, h⟩ <;> rcases g with s' | _ | s' | ⟨s', m', e', h'⟩
  case finite.finite =>
    have hdifference (k k' : Int) : s.apply k + (-s').apply k' = s.apply k - s'.apply k' := by
      rw [apply_neg, Int.sub_eq_add_neg]
    exact congrArg (UnpackedFloat.normalize spec · (min e e') .positive) (hdifference _ _)
  all_goals rfl

theorem add_zero_eq (h : f ≠ .zero .negative) :
    UnpackedFloat.add spec f (.zero .positive) = f := by
  rcases f with s | _ | s | ⟨s, m, e, hm⟩
  case zero =>
    cases s with
    | negative => exact absurd rfl h
    | positive => rfl
  all_goals rfl

theorem neg_canonical (h : Canonical spec f) : Canonical spec f.neg := by
  cases f with
  | finite s m e hm => exact h
  | _ => trivial

theorem abs_canonical (h : Canonical spec f) : Canonical spec f.abs := by
  cases f with
  | finite s m e hm => exact h
  | _ => trivial

theorem unpack_pack_add (hf : Canonical spec f) (hg : Canonical spec g)
    (h : f ≠ .zero .negative) :
    unpack spec (pack spec (UnpackedFloat.add spec f g)) ≠ .zero .negative := by
  have hcanonical {r : UnpackedFloat} (hr : Canonical spec r) (hne : r ≠ .zero .negative) :
      unpack spec (pack spec r) ≠ .zero .negative := by
    rwa [unpack_pack hr]
  rcases f with s | _ | s | ⟨s, m, e, hm⟩ <;> rcases g with s' | _ | s' | ⟨s', m', e', hm'⟩
  -- Only two finite summands are rounded; all other sums are numbers of the format.
  case finite.finite => exact unpack_pack_normalize (le_min hf.2.1 hg.2.1)
  case infinity.infinity =>
    cases s <;> cases s' <;> exact hcanonical trivial nofun
  case zero.zero =>
    cases s with
    | negative => exact absurd rfl h
    | positive => cases s' <;> exact hcanonical trivial nofun
  case zero.finite => exact hcanonical hg nofun
  case finite.zero => exact hcanonical hf nofun
  all_goals exact hcanonical trivial nofun

theorem div_ne_notANumber {s : Sign} {m : Nat} {e : Int} {h : 0 < m} (hf : f.isFinite = true) :
    UnpackedFloat.div spec f (.finite s m e h) ≠ .notANumber := by
  cases f with
  | notANumber => cases hf
  | infinity s => cases hf
  | zero s => exact nofun
  | finite s m e h => exact roundWithAccuracy_ne_notANumber _ _ _ _

end Numbers

/-- Samples that are numbers of a format, and whose operations round to it. -/
structure Encoding (α : Type) [Sample α] (spec : Format) where
  number : α → UnpackedFloat
  canonical : ∀ a, Canonical spec (number a)
  injective : Function.Injective number
  lt_iff : ∀ a b, a < b ↔ (number a).lt (number b) = true
  le_iff : ∀ a b, a ≤ b ↔ (number a).le (number b) = true
  beq_eq : ∀ a b : α, (a == b) = (number a).beq (number b)
  isFinite_eq : ∀ a, Sample.isFinite a = (number a).isFinite
  add : ∀ a b,
    number (a + b) = unpack spec (pack spec (UnpackedFloat.add spec (number a) (number b)))
  sub : ∀ a b,
    number (a - b) = unpack spec (pack spec (UnpackedFloat.sub spec (number a) (number b)))
  div : ∀ a b,
    number (a / b) = unpack spec (pack spec (UnpackedFloat.div spec (number a) (number b)))
  neg : ∀ a, number (-a) = unpack spec (pack spec (number a).neg)
  abs : ∀ a, number (Sample.abs a) = unpack spec (pack spec (number a).abs)
  zero : number 0 = .zero .positive
  two : ∃ s m e h, number Sample.two = .finite s m e h
  pi : number Sample.pi ≠ .notANumber

namespace Encoding

variable {α : Type} [Sample α] {spec : Format} (enc : Encoding α spec) {a b : α}

theorem isNan_iff : Sample.IsNan a ↔ enc.number a = .notANumber := by
  rw [Sample.IsNan, enc.beq_eq, Bool.eq_false_iff, ne_eq, beq_self_iff_rank, rank_isSome_iff,
    not_not]

theorem number_neg (a : α) : enc.number (-a) = (enc.number a).neg := by
  rw [enc.neg, unpack_pack (neg_canonical (enc.canonical a))]

theorem number_abs (a : α) : enc.number (Sample.abs a) = (enc.number a).abs := by
  rw [enc.abs, unpack_pack (abs_canonical (enc.canonical a))]

theorem not_nan_iff : ¬Sample.IsNan a ↔ ∃ x, rank (enc.number a) = some x := by
  rw [enc.isNan_iff, ← ne_eq, ← rank_isSome_iff, Option.isSome_iff_exists]

theorem lt_iff_exists : a < b ↔
    ∃ x, rank (enc.number a) = some x ∧ ∃ y, rank (enc.number b) = some y ∧ x < y :=
  (enc.lt_iff a b).trans lt_iff_rank

theorem le_iff_exists : a ≤ b ↔
    ∃ x, rank (enc.number a) = some x ∧ ∃ y, rank (enc.number b) = some y ∧ x ≤ y :=
  (enc.le_iff a b).trans le_iff_rank

theorem not_beq_of_lt (enc : Encoding α spec) (h : a < b) : (a == b) = false := by
  obtain ⟨x, hx, y, hy, hxy⟩ := enc.lt_iff_exists.1 h
  rw [enc.beq_eq, Bool.eq_false_iff, ne_eq, beq_iff_rank]
  rintro ⟨z, hxz, hyz⟩
  obtain rfl := Option.some.inj (hx.symm.trans hxz)
  obtain rfl := Option.some.inj (hy.symm.trans hyz)
  exact lt_irrefl _ hxy

theorem nan_of_number {f : UnpackedFloat} (h : enc.number a = unpack spec (pack spec f))
    (hf : f = .notANumber) : Sample.IsNan a := by
  rw [enc.isNan_iff, h, hf, unpack_pack (f := .notANumber) trivial]

theorem add_zero_iff : a + 0 = a ↔ enc.number a ≠ .zero .negative := by
  rw [← enc.injective.eq_iff, enc.add, enc.zero]
  constructor
  · intro h hneg
    rw [hneg] at h
    exact nomatch (unpack_pack (f := .zero .positive) trivial).symm.trans h
  · intro h
    rw [add_zero_eq h, unpack_pack (enc.canonical a)]

theorem ieee (enc : Encoding α spec) : IeeeSample α where
  not_nan_of_lt h := by
    obtain ⟨x, hx, y, hy, -⟩ := enc.lt_iff_exists.1 h
    exact ⟨enc.not_nan_iff.2 ⟨x, hx⟩, enc.not_nan_iff.2 ⟨y, hy⟩⟩
  lt_trans hab hbc := by
    obtain ⟨x, hx, y, hy, hxy⟩ := enc.lt_iff_exists.1 hab
    obtain ⟨y', hy', z, hz, hyz⟩ := enc.lt_iff_exists.1 hbc
    obtain rfl := Option.some.inj (hy.symm.trans hy')
    exact enc.lt_iff_exists.2 ⟨x, hx, z, hz, hxy.trans hyz⟩
  lt_or_lt hac hb := by
    obtain ⟨x, hx, z, hz, hxz⟩ := enc.lt_iff_exists.1 hac
    obtain ⟨y, hy⟩ := enc.not_nan_iff.1 hb
    cases lt_or_ge x y with
    | inl hxy => exact .inl (enc.lt_iff_exists.2 ⟨x, hx, y, hy, hxy⟩)
    | inr hyx => exact .inr (enc.lt_iff_exists.2 ⟨y, hy, z, hz, hyx.trans_lt hxz⟩)
  le_iff := by
    intro a b
    rw [enc.le_iff_exists, enc.not_nan_iff, enc.not_nan_iff, enc.lt_iff_exists]
    constructor
    · rintro ⟨x, hx, y, hy, hxy⟩
      refine ⟨⟨x, hx⟩, ⟨y, hy⟩, ?_⟩
      rintro ⟨y', hy', x', hx', hlt⟩
      obtain rfl := Option.some.inj (hx.symm.trans hx')
      obtain rfl := Option.some.inj (hy.symm.trans hy')
      exact hlt.not_ge hxy
    · rintro ⟨⟨x, hx⟩, ⟨y, hy⟩, h⟩
      exact ⟨x, hx, y, hy, le_of_not_gt fun hlt => h ⟨y, hy, x, hx, hlt⟩⟩
  nan_add h := by
    refine enc.nan_of_number (enc.add _ _) ?_
    rw [enc.isNan_iff.1 h]
    rfl
  add_nan {a b} h := by
    refine enc.nan_of_number (enc.add _ _) ?_
    rw [enc.isNan_iff.1 h]
    cases enc.number a with
    | _ => rfl
  nan_sub h := by
    refine enc.nan_of_number (enc.sub _ _) ?_
    rw [enc.isNan_iff.1 h]
    rfl
  sub_nan {a b} h := by
    refine enc.nan_of_number (enc.sub _ _) ?_
    rw [enc.isNan_iff.1 h]
    cases enc.number a with
    | _ => rfl
  abs_nan_iff {a} := by
    rw [enc.isNan_iff, enc.isNan_iff, enc.number_abs]
    cases enc.number a with
    | notANumber => exact Iff.rfl
    | _ => exact iff_of_false nofun nofun
  sub_neg a b := by
    apply enc.injective
    rw [enc.sub, enc.add, enc.number_neg, sub_neg_eq_add]
  add_neg a b := by
    apply enc.injective
    rw [enc.sub, enc.add, enc.number_neg, add_neg_eq_sub]
  zero_add_zero := enc.add_zero_iff.2 (enc.zero ▸ nofun)
  add_add_zero h := by
    rw [enc.add_zero_iff] at h ⊢
    rw [enc.add]
    exact unpack_pack_add (enc.canonical _) (enc.canonical _) h
  not_nan_of_isFinite h := by
    rw [enc.isFinite_eq] at h
    rw [enc.isNan_iff]
    intro hnan
    rw [hnan] at h
    cases h
  half_not_nan h := by
    obtain ⟨s, m, e, hm, htwo⟩ := enc.two
    rw [enc.isNan_iff, enc.div, htwo]
    rw [enc.isFinite_eq] at h
    exact unpack_pack_ne_notANumber (div_ne_notANumber h)
  pi_not_nan := by
    rw [enc.isNan_iff]
    exact enc.pi

end Encoding

def doubleEncoding : Encoding Float .binary64 where
  number x := x.toModel.unpack
  canonical x := unpack_canonical (by decide) _
  injective x y h := by
    have hbits := unpack_injective (by decide) x.toModel.valid y.toModel.valid h
    obtain ⟨⟨bits, _⟩⟩ := x
    obtain ⟨⟨bits', _⟩⟩ := y
    obtain rfl : bits = bits' := UInt64.toBitVec_inj.1 hbits
    rfl
  lt_iff a b := decide_eq_true_iff
  le_iff a b := decide_eq_true_iff
  beq_eq a b := rfl
  isFinite_eq a := rfl
  add a b := rfl
  sub a b := rfl
  div a b := rfl
  neg a := rfl
  abs a := rfl
  zero := rfl
  two := ⟨_, _, _, _, rfl⟩
  pi := by
    intro h
    have hfin : (Sample.pi : Float).toModel.unpack.isFinite = true := by decide +kernel
    rw [h] at hfin
    cases hfin

instance : IeeeSample Float := doubleEncoding.ieee

def singleEncoding : Encoding Float32 .binary32 where
  number x := x.toModel.unpack
  canonical x := unpack_canonical (by decide) _
  injective x y h := by
    have hbits := unpack_injective (by decide) x.toModel.valid y.toModel.valid h
    obtain ⟨⟨bits, _⟩⟩ := x
    obtain ⟨⟨bits', _⟩⟩ := y
    obtain rfl : bits = bits' := UInt32.toBitVec_inj.1 hbits
    rfl
  lt_iff a b := decide_eq_true_iff
  le_iff a b := decide_eq_true_iff
  beq_eq a b := rfl
  isFinite_eq a := rfl
  add a b := rfl
  sub a b := rfl
  div a b := rfl
  neg a := rfl
  abs a := rfl
  zero := rfl
  two := ⟨_, _, _, _, rfl⟩
  pi := by
    intro h
    have hfin : (Sample.pi : Float32).toModel.unpack.isFinite = true := by decide +kernel
    rw [h] at hfin
    cases hfin

instance : IeeeSample Float32 := singleEncoding.ieee

end AnalyticTrace
