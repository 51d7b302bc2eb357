import Mathlib.Algebra.Group.Int.Defs
import Mathlib.Algebra.Group.Nat.Defs

namespace AnalyticTrace

open Float.Model (Format UnpackedFloat)
open Float.Model.UnpackedFloat

variable {spec : Format}

theorem ofBitVec_toBitVec (s : Sign) : Sign.ofBitVec s.toBitVec = s := by
  cases s with
  | negative => rfl
  | positive => rfl

theorem toBitVec_ofBitVec (b : BitVec 1) : (Sign.ofBitVec b).toBitVec = b := by
  obtain rfl | rfl := BitVec.eq_zero_or_eq_one b
  all_goals rfl

theorem getLsbD_unpackSign (b : BitVec spec.numBits) : (unpackSign b).getLsbD 0 =
    b.getLsbD (spec.mantissaBitsWithoutImplicit + spec.exponentBits) :=
  BitVec.getLsbD_extractLsb.trans (Bool.true_and _)

theorem packComponents_unpack (b : BitVec spec.numBits) :
    packComponents spec (Sign.ofBitVec (unpackSign b)) (unpackExponent b) (unpackMantissa b) =
      b := by
  apply BitVec.eq_of_getLsbD_eq
  intro i hi
  rw [packComponents, toBitVec_ofBitVec, BitVec.getLsbD_append, BitVec.getLsbD_append]
  by_cases hmantissa : i < spec.mantissaBitsWithoutImplicit
  · have hin : i < spec.mantissaBitsWithoutImplicit - 1 - 0 + 1 := by omega
    rw [if_pos hmantissa, unpackMantissa, BitVec.getLsbD_cast, BitVec.getLsbD_extractLsb,
      decide_eq_true hin, Bool.true_and, Nat.zero_add]
  · obtain ⟨k, rfl⟩ := Nat.exists_eq_add_of_le (Nat.not_lt.1 hmantissa)
    rw [if_neg hmantissa, Nat.add_sub_cancel_left]
    by_cases hexponent : k < spec.exponentBits
    · have hin : k < spec.mantissaBitsWithoutImplicit + spec.exponentBits - 1 -
          spec.mantissaBitsWithoutImplicit + 1 := by omega
      rw [if_pos hexponent, unpackExponent, BitVec.getLsbD_cast, BitVec.getLsbD_extractLsb,
        decide_eq_true hin, Bool.true_and]
    · obtain rfl : k = spec.exponentBits := by
        rw [Format.numBits] at hi
        omega
      rw [if_neg hexponent, Nat.sub_self, getLsbD_unpackSign]

theorem unpackSign_packComponents (s : Sign) (e : BitVec spec.exponentBits)
    (m : BitVec spec.mantissaBitsWithoutImplicit) :
    unpackSign (packComponents spec s e m) = s.toBitVec := by
  apply BitVec.eq_of_getLsbD_eq
  intro i hi
  obtain rfl : i = 0 := Nat.lt_one_iff.1 hi
  rw [getLsbD_unpackSign, packComponents, BitVec.getLsbD_append, BitVec.getLsbD_append,
    if_neg (by omega), Nat.add_sub_cancel_left, if_neg (Nat.lt_irrefl _), Nat.sub_self]

def assemble (s : Sign) (e : BitVec spec.exponentBits)
    (m : BitVec spec.mantissaBitsWithoutImplicit) : UnpackedFloat :=
  unpack spec (packComponents spec s e m)

theorem unpack_eq_assemble (b : BitVec spec.numBits) : unpack spec b =
    assemble (Sign.ofBitVec (unpackSign b)) (unpackExponent b) (unpackMantissa b) := by
  rw [assemble, packComponents_unpack]

theorem mantissaBits_eq (spec : Format) :
    spec.mantissaBits = 1 + spec.mantissaBitsWithoutImplicit :=
  rfl

theorem two_pow_exponentBits (spec : Format) :
    2 ^ spec.exponentBits = 2 * (spec.exponentBias + 1) := by
  have hbits : spec.exponentBits - 1 + 1 = spec.exponentBits := Nat.sub_add_cancel spec.he
  have hpos := Nat.two_pow_pos (spec.exponentBits - 1)
  rw [Format.exponentBias, Nat.sub_add_cancel hpos, Nat.mul_comm, ← Nat.pow_succ]
  exact congrArg _ hbits.symm

theorem exponentBias_pos (hwide : 1 < spec.exponentBits) : 0 < spec.exponentBias :=
  Nat.sub_pos_of_lt (Nat.one_lt_two_pow (Nat.sub_ne_zero_of_lt hwide))

theorem minExponent_eq (spec : Format) :
    spec.minExponent = 1 - (spec.exponentBias + spec.mantissaBitsWithoutImplicit) := by
  have hpos := Nat.two_pow_pos (spec.exponentBits - 1)
  have hcast : ((2 ^ (spec.exponentBits - 1) : Nat) : Int) = 2 ^ (spec.exponentBits - 1) := by
    push_cast
    rfl
  rw [Format.minExponent, mantissaBits_eq, Format.exponentBias]
  omega

theorem finite_congr {s : Sign} {m m' : Nat} {e e' : Int} {h : 0 < m} (hm : m = m')
    (he : e = e') : UnpackedFloat.finite s m e h = .finite s m' e' (hm ▸ h) := by
  subst hm he
  rfl

theorem toNat_one_append {n : Nat} (m : BitVec n) : (1#1 ++ m).toNat = 2 ^ n + m.toNat := by
  rw [BitVec.toNat_append, ← Nat.shiftLeft_add_eq_or_of_lt m.isLt, Nat.shiftLeft_eq]
  exact congrArg (· + m.toNat) (Nat.one_mul _)

theorem toNat_neg_one {n : Nat} : (-1#n).toNat = 2 ^ n - 1 := by
  rw [BitVec.neg_one_eq_allOnes, BitVec.toNat_allOnes]

theorem ofNat_ne_neg_one {n k : Nat} (h : k + 1 < 2 ^ n) : BitVec.ofNat n k ≠ -1#_ := by
  intro heq
  have hnat := congrArg BitVec.toNat heq
  rw [BitVec.toNat_ofNat, toNat_neg_one, Nat.mod_eq_of_lt (by omega)] at hnat
  omega

theorem zero_ne_neg_one : (0#_ : BitVec spec.exponentBits) ≠ -1#_ := by
  intro h
  have hnat := congrArg BitVec.toNat h
  rw [toNat_neg_one, two_pow_exponentBits, BitVec.toNat_zero] at hnat
  omega

section Fields
variable (s : Sign) {e : BitVec spec.exponentBits} {m : BitVec spec.mantissaBitsWithoutImplicit}

@[elab_as_elim]
theorem fields_cases
    {motive : BitVec spec.exponentBits → BitVec spec.mantissaBitsWithoutImplicit → Prop}
    (infinity : motive (-1#_) 0#_) (nan : ∀ m, m ≠ 0#_ → motive (-1#_) m)
    (zero : motive 0#_ 0#_) (subnormal : ∀ m, 0 < m.toNat → motive 0#_ m)
    (normal : ∀ e m, e ≠ -1#_ → e ≠ 0#_ → motive e m)
    (e : BitVec spec.exponentBits) (m : BitVec spec.mantissaBitsWithoutImplicit) :
    motive e m := by
  by_cases he : e = -1#_
  · subst he
    by_cases hm : m = 0#_
    · subst hm
      exact infinity
    · exact nan m hm
  · by_cases he' : e = 0#_
    · subst he'
      by_cases hm : m = 0#_
      · subst hm
        exact zero
      · exact subnormal m (Nat.pos_of_ne_zero fun h => hm (BitVec.eq_of_toNat_eq h))
    · exact normal e m he he'

theorem assemble_eq : assemble s e m =
    if e = -1#_ then if m = 0#_ then .infinity s else .notANumber
    else if e = 0#_ then
      if h : m = 0#_ then .zero s
      else .finite s m.toNat (e.toNat - (spec.exponentBias + spec.mantissaBitsWithoutImplicit) + 1)
        (Nat.pos_of_ne_zero fun hz => h (BitVec.eq_of_toNat_eq hz))
    else .finite s (1#1 ++ m).toNat
      (e.toNat - (spec.exponentBias + spec.mantissaBitsWithoutImplicit))
      (Nat.lt_of_lt_of_eq (Nat.add_pos_left (Nat.two_pow_pos _) _) (toNat_one_append m).symm) := by
  have hs : Sign.ofBitVec (unpackSign (packComponents spec s e m)) = s := by
    rw [unpackSign_packComponents, ofBitVec_toBitVec]
  have he : unpackExponent (packComponents spec s e m) = e := unpackExponent_packComponents
  have hm : unpackMantissa (packComponents spec s e m) = m := unpackMantissa_packComponents
  rw [assemble]
  generalize packComponents spec s e m = b at hs he hm ⊢
  subst hs he hm
  rfl

theorem assemble_infinity :
    assemble s (-1#_) (0#_ : BitVec spec.mantissaBitsWithoutImplicit) = .infinity s := by
  rw [assemble_eq, if_pos rfl, if_pos rfl]

theorem assemble_notANumber (hm : m ≠ 0#_) : assemble s (-1#_) m = .notANumber := by
  rw [assemble_eq, if_pos rfl, if_neg hm]

theorem assemble_zero :
    assemble s 0#_ (0#_ : BitVec spec.mantissaBitsWithoutImplicit) = .zero s := by
  rw [assemble_eq, if_neg zero_ne_neg_one, if_pos rfl, dif_pos rfl]

theorem assemble_subnormal (hm : 0 < m.toNat) :
    assemble s 0#_ m = .finite s m.toNat spec.minExponent hm := by
  have hne : m ≠ 0#_ := fun h => Nat.ne_of_gt hm (congrArg BitVec.toNat h)
  rw [assemble_eq, if_neg zero_ne_neg_one, if_pos rfl, dif_neg hne]
  refine finite_congr rfl ?_
  rw [minExponent_eq, BitVec.toNat_zero]
  omega

theorem assemble_normal (he : e ≠ -1#_) (he' : e ≠ 0#_) :
    assemble s e m = .finite s (2 ^ spec.mantissaBitsWithoutImplicit + m.toNat)
      (e.toNat - (spec.exponentBias + spec.mantissaBitsWithoutImplicit))
      (Nat.add_pos_left (Nat.two_pow_pos _) _) := by
  rw [assemble_eq, if_neg he, if_neg he']
  exact finite_congr (toNat_one_append m) rfl

theorem toNat_ne_of_ne_neg_one (he : e ≠ -1#_) : e.toNat ≠ 2 ^ spec.exponentBits - 1 :=
  fun h => he (BitVec.eq_of_toNat_eq (h.trans toNat_neg_one.symm))

theorem toNat_ne_zero (he : e ≠ 0#_) : e.toNat ≠ 0 := fun h => he (BitVec.eq_of_toNat_eq h)

end Fields

def biased (spec : Format) (e : Int) : Nat :=
  (e + spec.exponentBias + spec.mantissaBitsWithoutImplicit).toNat

/-- The numbers of the format. -/
def Canonical (spec : Format) : UnpackedFloat → Prop
  | .finite _ m e _ => m < 2 ^ spec.mantissaBits ∧ spec.minExponent ≤ e ∧
      (m < 2 ^ spec.mantissaBitsWithoutImplicit → e = spec.minExponent) ∧
      biased spec e + 1 < 2 ^ spec.exponentBits
  | _ => True

theorem two_pow_mantissaBits (spec : Format) :
    2 ^ spec.mantissaBits = 2 * 2 ^ spec.mantissaBitsWithoutImplicit := by
  rw [mantissaBits_eq, Nat.pow_add, Nat.pow_one]

theorem assemble_canonical (hwide : 1 < spec.exponentBits) (s : Sign)
    (e : BitVec spec.exponentBits) (m : BitVec spec.mantissaBitsWithoutImplicit) :
    Canonical spec (assemble s e m) := by
  have hbias := exponentBias_pos hwide
  have hbits := two_pow_mantissaBits spec
  have hexp := two_pow_exponentBits spec
  cases e, m using fields_cases with
  | infinity =>
    rw [assemble_infinity]
    trivial
  | nan m hm =>
    rw [assemble_notANumber s hm]
    trivial
  | zero =>
    rw [assemble_zero]
    trivial
  | subnormal m hpos =>
    have hm := m.isLt
    rw [assemble_subnormal s hpos]
    refine ⟨by omega, Int.le_refl _, fun _ => rfl, ?_⟩
    rw [biased, minExponent_eq]
    omega
  | normal e m he he' =>
    have hm := m.isLt
    have hlt := e.isLt
    have hone := toNat_ne_of_ne_neg_one he
    have hzero := toNat_ne_zero he'
    rw [assemble_normal s he he']
    refine ⟨by omega, ?_, fun h => by omega, ?_⟩
    · rw [minExponent_eq]
      omega
    · rw [biased]
      omega

theorem unpack_canonical (hwide : 1 < spec.exponentBits) (b : BitVec spec.numBits) :
    Canonical spec (unpack spec b) := by
  rw [unpack_eq_assemble]
  exact assemble_canonical hwide _ _ _

theorem unpack_packedNaN : unpack spec (packedNaN spec) = .notANumber := by
  refine assemble_notANumber _ fun h => ?_
  have hm := spec.hm
  have hbit := congrArg (·.getLsbD (spec.mantissaBitsWithoutImplicit - 1)) h
  simp at hbit
  omega

section Finite
variable {s : Sign} {m : Nat} {e : Int}

theorem pack_finite_eq (h : 0 < m) :
    pack spec (.finite s m e h) =
      if 2 ^ spec.exponentBits ≤ biased spec e + 1 then packedInfinity spec s
      else if m.log2 + 1 = spec.mantissaBits then
        packComponents spec s (BitVec.ofNat _ (biased spec e)) (BitVec.ofNat _ m)
      else packComponents spec s 0#_ (BitVec.ofNat _ m) :=
  rfl

theorem pack_finite (h : 0 < m) (hm : m < 2 ^ spec.mantissaBits) :
    pack spec (.finite s m e h) =
      if 2 ^ spec.exponentBits ≤ biased spec e + 1 then packedInfinity spec s
      else if m < 2 ^ spec.mantissaBitsWithoutImplicit then
        packComponents spec s 0#_ (BitVec.ofNat _ m)
      else packComponents spec s (BitVec.ofNat _ (biased spec e)) (BitVec.ofNat _ m) := by
  have hlog : m.log2 + 1 = spec.mantissaBits ↔ ¬m < 2 ^ spec.mantissaBitsWithoutImplicit := by
    rw [two_pow_mantissaBits] at hm
    rw [mantissaBits_eq, Nat.add_comm 1, Nat.add_right_cancel_iff,
      Nat.log2_eq_iff (Nat.ne_of_gt h), Nat.pow_succ, Nat.mul_comm, Nat.not_lt]
    exact and_iff_left hm
  rw [pack_finite_eq]
  simp only [hlog, ite_not]

theorem assemble_ofNat_subnormal (h : 0 < m) (hlow : m < 2 ^ spec.mantissaBitsWithoutImplicit) :
    assemble s 0#_ (BitVec.ofNat spec.mantissaBitsWithoutImplicit m) =
      .finite s m spec.minExponent h := by
  have hnat : (BitVec.ofNat spec.mantissaBitsWithoutImplicit m).toNat = m :=
    Nat.mod_eq_of_lt hlow
  exact (assemble_subnormal s (hnat.symm ▸ h)).trans (finite_congr hnat rfl)

theorem assemble_ofNat_normal (h : 0 < m) (hm : m < 2 ^ spec.mantissaBits)
    (hlow : ¬m < 2 ^ spec.mantissaBitsWithoutImplicit) (he : spec.minExponent ≤ e)
    (hover : ¬2 ^ spec.exponentBits ≤ biased spec e + 1) :
    assemble s (BitVec.ofNat _ (biased spec e)) (BitVec.ofNat spec.mantissaBitsWithoutImplicit m) =
      .finite s m e h := by
  rw [minExponent_eq] at he
  have hpos : 0 < biased spec e := by
    rw [biased]
    omega
  have hne := ofNat_ne_neg_one (Nat.not_le.1 hover)
  have hk : (BitVec.ofNat spec.exponentBits (biased spec e)).toNat = biased spec e :=
    Nat.mod_eq_of_lt (by omega)
  have hne' : BitVec.ofNat spec.exponentBits (biased spec e) ≠ 0#_ := by
    intro hzero
    have hnat := congrArg BitVec.toNat hzero
    rw [hk, BitVec.toNat_zero] at hnat
    omega
  rw [two_pow_mantissaBits] at hm
  refine (assemble_normal s hne hne').trans (finite_congr ?_ ?_)
  · rw [BitVec.toNat_ofNat, Nat.mod_eq_sub_mod (Nat.not_lt.1 hlow), Nat.mod_eq_of_lt (by omega)]
    omega
  · rw [hk, biased]
    omega

theorem unpack_pack_finite (h : 0 < m) (hm : m < 2 ^ spec.mantissaBits)
    (he : spec.minExponent ≤ e) :
    unpack spec (pack spec (.finite s m e h)) =
      if 2 ^ spec.exponentBits ≤ biased spec e + 1 then .infinity s
      else if m < 2 ^ spec.mantissaBitsWithoutImplicit then .finite s m spec.minExponent h
      else .finite s m e h := by
  rw [pack_finite h hm]
  by_cases hover : 2 ^ spec.exponentBits ≤ biased spec e + 1
  · rw [if_pos hover, if_pos hover]
    exact assemble_infinity s
  · rw [if_neg hover, if_neg hover]
    by_cases hlow : m < 2 ^ spec.mantissaBitsWithoutImplicit
    · rw [if_pos hlow, if_pos hlow]
      exact assemble_ofNat_subnormal h hlow
    · rw [if_neg hlow, if_neg hlow]
      exact assemble_ofNat_normal h hm hlow he hover

end Finite

theorem unpack_pack {f : UnpackedFloat} (h : Canonical spec f) : unpack spec (pack spec f) = f := by
  cases f with
  | notANumber => exact unpack_packedNaN
  | infinity s => exact assemble_infinity s
  | zero s => exact assemble_zero s
  | finite s m e hpos =>
    obtain ⟨hm, he, hsub, hover⟩ := h
    rw [unpack_pack_finite hpos hm he, if_neg (Nat.not_le.2 hover)]
    by_cases hlow : m < 2 ^ spec.mantissaBitsWithoutImplicit
    · rw [if_pos hlow]
      exact finite_congr rfl (hsub hlow).symm
    · exact if_neg hlow

theorem pack_assemble (hwide : 1 < spec.exponentBits) (s : Sign) {e : BitVec spec.exponentBits}
    {m : BitVec spec.mantissaBitsWithoutImplicit} (h : e = -1#_ → m = 0#_) :
    pack spec (assemble s e m) = packComponents spec s e m := by
  have hexp := two_pow_exponentBits spec
  have hbits := two_pow_mantissaBits spec
  have hbias := exponentBias_pos hwide
  cases e, m using fields_cases with
  | infinity =>
    rw [assemble_infinity]
    rfl
  | nan m hm => exact absurd (h rfl) hm
  | zero =>
    rw [assemble_zero]
    rfl
  | subnormal m hpos =>
    have hm := m.isLt
    have hone : biased spec spec.minExponent = 1 := by
      rw [biased, minExponent_eq]
      omega
    rw [assemble_subnormal s hpos, pack_finite hpos (by omega), hone, if_neg (by omega),
      if_pos hm, BitVec.ofNat_toNat, BitVec.setWidth_eq]
  | normal e m he he' =>
    have hm := m.isLt
    have hlt := e.isLt
    have hone := toNat_ne_of_ne_neg_one he
    have hk : biased spec (e.toNat - (spec.exponentBias + spec.mantissaBitsWithoutImplicit)) =
        e.toNat := by
      rw [biased]
      omega
    have hmantissa : BitVec.ofNat spec.mantissaBitsWithoutImplicit
        (2 ^ spec.mantissaBitsWithoutImplicit + m.toNat) = m := by
      apply BitVec.eq_of_toNat_eq
      rw [BitVec.toNat_ofNat, Nat.add_mod_left, Nat.mod_eq_of_lt hm]
    rw [assemble_normal s he he', pack_finite _ (by omega), hk, if_neg (by omega),
      if_neg (by omega), BitVec.ofNat_toNat, BitVec.setWidth_eq, hmantissa]

theorem pack_unpack (hwide : 1 < spec.exponentBits) {b : BitVec spec.numBits}
    (h : spec.Valid b) : pack spec (unpack spec b) = b := by
  by_cases hnan : unpackExponent b = -1#_ ∧ unpackMantissa b ≠ 0#_
  · rw [h.eq_packedNaN hnan.1 hnan.2, unpack_packedNaN]
    rfl
  · have hfields (he : unpackExponent b = -1#_) : unpackMantissa b = 0#_ :=
      Decidable.byContradiction fun hm => hnan ⟨he, hm⟩
    rw [unpack_eq_assemble, pack_assemble hwide _ hfields, packComponents_unpack]

theorem unpack_injective (hwide : 1 < spec.exponentBits) {b b' : BitVec spec.numBits}
    (hb : spec.Valid b) (hb' : spec.Valid b') (h : unpack spec b = unpack spec b') : b = b' := by
  rw [← pack_unpack hwide hb, h, pack_unpack hwide hb']

theorem assemble_ne_notANumber (s : Sign) {e : BitVec spec.exponentBits} (he : e ≠ -1#_)
    (m : BitVec spec.mantissaBitsWithoutImplicit) : assemble s e m ≠ .notANumber := by
  cases e, m using fields_cases with
  | infinity => exact absurd rfl he
  | nan m hm => exact absurd rfl he
  | zero =>
    rw [assemble_zero]
    exact nofun
  | subnormal m hpos =>
    rw [assemble_subnormal s hpos]
    exact nofun
  | normal e m he he' =>
    rw [assemble_normal s he he']
    exact nofun

theorem unpack_pack_ne_notANumber {f : UnpackedFloat} (h : f ≠ .notANumber) :
    unpack spec (pack spec f) ≠ .notANumber := by
  cases f with
  | notANumber => exact absurd rfl h
  | infinity s =>
    rw [unpack_pack (f := .infinity s) trivial]
    exact nofun
  | zero s => exact assemble_ne_notANumber s zero_ne_neg_one _
  | finite s m e hm =>
    rw [pack_finite_eq]
    by_cases hover : 2 ^ spec.exponentBits ≤ biased spec e + 1
    · rw [if_pos hover]
      intro hnan
      cases (assemble_infinity s).symm.trans hnan
    · rw [if_neg hover]
      split
      · exact assemble_ne_notANumber s (ofNat_ne_neg_one (Nat.not_le.1 hover)) _
      · exact assemble_ne_notANumber s zero_ne_neg_one _

end AnalyticTrace
