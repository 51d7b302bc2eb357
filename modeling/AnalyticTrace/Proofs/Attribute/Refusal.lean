import Mathlib.Data.List.Nodup
import Mathlib.Data.List.Perm.Subperm
import Mathlib.Order.Bounds.Basic
import AnalyticTrace.Proofs.Attribute.Names
import AnalyticTrace.Proofs.Attribute.Selection
import AnalyticTrace.Proofs.Sample.Binary

namespace AnalyticTrace

open Float.Model (Format)

/-- Entry `i` stands at an earlier position as well. -/
def RepeatsAt (as : List Attribute) (i : ℕ) : Prop :=
  ∃ a, as[i]? = some a ∧ a ∈ as.take i

section Repeats
variable {as bs : List Attribute} {a : Attribute} {i j : ℕ}

theorem RepeatsAt.lt_length (h : RepeatsAt as i) : i < as.length := by
  obtain ⟨a, hi, -⟩ := h
  exact (List.getElem?_eq_some_iff.1 hi).1

theorem repeatsAt_append (hi : i < as.length) : RepeatsAt (as ++ bs) i ↔ RepeatsAt as i := by
  rw [RepeatsAt, List.getElem?_append_left hi, List.take_append_of_le_length hi.le, RepeatsAt]

theorem nodup_iff_not_repeatsAt : as.Nodup ↔ ∀ i, ¬RepeatsAt as i := by
  rw [List.nodup_iff_getElem?_ne_getElem?]
  constructor
  · rintro h i ⟨a, hi, ha⟩
    obtain ⟨j, hj, hja⟩ := List.mem_take_iff_getElem.1 ha
    obtain ⟨hji, hlen⟩ := Nat.lt_min.1 hj
    refine h j i hji (List.getElem?_eq_some_iff.1 hi).1 ?_
    rw [hi, List.getElem?_eq_getElem hlen, hja]
  · intro h i j hij hj heq
    rw [List.getElem?_eq_getElem hj] at heq
    obtain ⟨hi, hij'⟩ := List.getElem?_eq_some_iff.1 heq
    refine h j ⟨as[j], List.getElem?_eq_getElem hj, ?_⟩
    exact List.mem_take_iff_getElem.2 ⟨i, lt_min hij hi, hij'⟩

/-- The first entry that is not new to a list without repetition is its first repetition. -/
theorem isLeast_repeatsAt (hnodup : as.Nodup) (ha : a ∈ as) :
    IsLeast {i | RepeatsAt (as ++ a :: bs) i} as.length := by
  constructor
  · refine ⟨a, ?_, ?_⟩
    · rw [List.getElem?_append_right le_rfl, Nat.sub_self]
      rfl
    · rwa [List.take_left]
  · intro i hi
    by_contra hlt
    exact nodup_iff_not_repeatsAt.1 hnodup i ((repeatsAt_append (not_le.1 hlt)).1 hi)

theorem isLeast_firstRepeat_go {seen : List Attribute} (hseen : seen.Nodup)
    (h : firstRepeat.go seen.length seen as = some j) :
    IsLeast {i | RepeatsAt (seen.reverse ++ as) i} j := by
  -- What has been seen is all that was read, the last entry first, and has no repetition itself.
  induction as generalizing seen with
  | nil => cases h
  | cons a as ih =>
    rw [firstRepeat.go] at h
    by_cases ha : a ∈ seen
    · rw [if_pos ha, Option.some.injEq] at h
      rw [← h, ← List.length_reverse]
      exact isLeast_repeatsAt (List.nodup_reverse.2 hseen) (List.mem_reverse.2 ha)
    · rw [if_neg ha] at h
      have hnext := ih (List.nodup_cons.2 ⟨ha, hseen⟩) h
      rwa [List.reverse_cons, List.append_assoc] at hnext

theorem isLeast_firstRepeat (h : firstRepeat as = some i) : IsLeast {i | RepeatsAt as i} i :=
  isLeast_firstRepeat_go List.nodup_nil h

theorem exists_firstRepeat_le (h : RepeatsAt as i) : ∃ j ≤ i, firstRepeat as = some j := by
  cases hfirst : firstRepeat as with
  | none => exact absurd h (nodup_iff_not_repeatsAt.1 (firstRepeat_eq_none.1 hfirst) i)
  | some j => exact ⟨j, (isLeast_firstRepeat hfirst).2 h, rfl⟩

theorem firstRepeat_eq_some : firstRepeat as = some i ↔ IsLeast {i | RepeatsAt as i} i := by
  refine ⟨isLeast_firstRepeat, fun hleast => ?_⟩
  obtain ⟨j, -, hfirst⟩ := exists_firstRepeat_le hleast.1
  rw [hfirst, (isLeast_firstRepeat hfirst).unique hleast]

theorem length_le_of_nodup (h : as.Nodup) : as.length ≤ 7 :=
  (h.subperm fun a _ => a.mem_all).length_le

/-- There are seven attributes, so the eighth entry is a repetition if none before it is one. -/
theorem exists_firstRepeat (h : 7 < as.length) : ∃ i ≤ 7, firstRepeat as = some i := by
  have hlength : (as.take 8).length = 8 := List.length_take_of_le h
  have hrepeats : ∃ i, RepeatsAt (as.take 8) i := by
    by_contra hnone
    have hle := length_le_of_nodup (nodup_iff_not_repeatsAt.2 (not_exists.1 hnone))
    omega
  obtain ⟨i, hi⟩ := hrepeats
  have hlt := hi.lt_length
  have has : RepeatsAt as i := by
    rw [← List.take_append_drop 8 as]
    exact (repeatsAt_append hlt).2 hi
  obtain ⟨j, hj, hfirst⟩ := exists_firstRepeat_le has
  exact ⟨j, by omega, hfirst⟩

end Repeats

variable {α : Type} [Sample α]

theorem checkSpacing_eq_error {h : α} {arg : String} {e : ConfigError} :
    checkSpacing h arg = .error e ↔
      e = .invalidArgument arg "sample spacing must be finite and > 0" ∧
        checkSpacing h arg ≠ .ok () := by
  rw [checkSpacing]
  split
  · constructor
    · intro herror
      cases herror
      refine ⟨rfl, fun hok => ?_⟩
      cases hok
    · intro herror
      rw [herror.1]
  · constructor
    · intro herror
      cases herror
    · intro herror
      exact absurd rfl herror.2

/-- A finite sample is a number, and so it is above zero unless it is at most zero. -/
theorem Encoding.checkSpacing_eq_ok {spec : Format} (enc : Encoding α spec) {h : α} {arg : String} :
    checkSpacing h arg = .ok () ↔ Sample.isFinite h = true ∧ 0 < h := by
  have := enc.ieee
  have hzero : ¬Sample.IsNan (0 : α) := by
    rw [enc.isNan_iff, enc.zero]
    exact nofun
  rw [AnalyticTrace.checkSpacing_eq_ok]
  apply and_congr_right
  intro hfinite
  rw [IeeeSample.le_iff_not_lt (IeeeSample.not_nan_of_isFinite hfinite) hzero, not_not]

namespace AttributeExtractor

structure Accepted (config : AttributeExtractor α) : Prop where
  nonempty : config.attributes ≠ []
  nodup : config.attributes.Nodup
  finite : Sample.isFinite config.sampleInterval = true
  positive : 0 < config.sampleInterval

/-- What a configuration is refused for. The list of attributes is looked at before the
interval. -/
inductive Refused (config : AttributeExtractor α) : ConfigError → Prop where
  | empty (h : config.attributes = []) : Refused config (.emptyInput "attributes")
  | repeated {i : ℕ} (h : IsLeast {j | RepeatsAt config.attributes j} i) :
    Refused config (.duplicateArgument "attributes" i)
  | interval (hne : config.attributes ≠ []) (hnodup : config.attributes.Nodup)
    (h : ¬(Sample.isFinite config.sampleInterval = true ∧ 0 < config.sampleInterval)) :
    Refused config (.invalidArgument "sample_interval" "sample spacing must be finite and > 0")

theorem accepted_or_refused (config : AttributeExtractor α) :
    Accepted config ∨ ∃ e, Refused config e := by
  by_cases hne : config.attributes = []
  · exact .inr ⟨_, .empty hne⟩
  · cases hfirst : firstRepeat config.attributes with
    | some i => exact .inr ⟨_, .repeated (firstRepeat_eq_some.1 hfirst)⟩
    | none =>
      have hnodup := firstRepeat_eq_none.1 hfirst
      by_cases h : Sample.isFinite config.sampleInterval = true ∧ 0 < config.sampleInterval
      · exact .inl ⟨hne, hnodup, h.1, h.2⟩
      · exact .inr ⟨_, .interval hne hnodup h⟩

section Encoded
variable {spec : Format} (enc : Encoding α spec) {config k : AttributeExtractor α} {e : ConfigError}
include enc

theorem ofConfig_eq_ok_iff_accepted : ofConfig config = .ok k ↔ Accepted config ∧ k = config := by
  rw [ofConfig_eq_ok, enc.checkSpacing_eq_ok]
  constructor
  · rintro ⟨rfl, hne, hnodup, hfinite, hpos⟩
    exact ⟨⟨hne, hnodup, hfinite, hpos⟩, rfl⟩
  · rintro ⟨⟨hne, hnodup, hfinite, hpos⟩, rfl⟩
    exact ⟨rfl, hne, hnodup, hfinite, hpos⟩

theorem ofConfig_of_refused (h : Refused config e) : ofConfig config = .error e := by
  cases h with
  | empty h =>
    rw [ofConfig, if_pos (List.isEmpty_iff.2 h)]
    rfl
  | repeated h =>
    have hne : config.attributes ≠ [] :=
      List.ne_nil_of_length_pos (Nat.zero_lt_of_lt h.1.lt_length)
    rw [ofConfig, if_neg fun h => hne (List.isEmpty_iff.1 h), firstRepeat_eq_some.2 h]
    rfl
  | interval hne hnodup h =>
    rw [ofConfig, if_neg fun h => hne (List.isEmpty_iff.1 h), firstRepeat_eq_none.2 hnodup]
    exact bind_eq_error.2 (.inl (checkSpacing_eq_error.2 ⟨rfl, mt enc.checkSpacing_eq_ok.1 h⟩))

theorem ofConfig_eq_error_iff_refused : ofConfig config = .error e ↔ Refused config e := by
  refine ⟨fun herror => ?_, ofConfig_of_refused enc⟩
  obtain haccepted | ⟨e', he'⟩ := accepted_or_refused config
  · rw [(ofConfig_eq_ok_iff_accepted enc).2 ⟨haccepted, rfl⟩] at herror
    cases herror
  · rw [ofConfig_of_refused enc he', Except.error.injEq] at herror
    rwa [← herror]

/-- In a binary format a configuration is kept as it is or refused for its first fault; a list of
more than seven attributes is one with a repetition. -/
theorem ofConfig_ends (config : AttributeExtractor α) :
    (∀ k, ofConfig config = .ok k ↔ Accepted config ∧ k = config) ∧
      (∀ e, ofConfig config = .error e ↔ Refused config e) ∧
      (7 < config.attributes.length →
        ∃ i ≤ 7, ofConfig config = .error (.duplicateArgument "attributes" i)) := by
  refine ⟨fun k => ofConfig_eq_ok_iff_accepted enc, fun e => ofConfig_eq_error_iff_refused enc,
    fun hlength => ?_⟩
  obtain ⟨i, hi, hfirst⟩ := exists_firstRepeat hlength
  exact ⟨i, hi, ofConfig_of_refused enc (.repeated (firstRepeat_eq_some.1 hfirst))⟩

end Encoded

/-- The repetition counts before the interval, which is not a number. -/
theorem ofConfig_ends_eight :
    7 < (Attribute.phase :: Attribute.all).length ∧
      (∃ i ≤ 7, ofConfig ⟨.phase :: Attribute.all, (0 / 0 : Float), false⟩ =
        .error (.duplicateArgument "attributes" i)) ∧
      ofConfig ⟨Attribute.all, (1 / 0 : Float32), false⟩ = .error
        (.invalidArgument "sample_interval" "sample spacing must be finite and > 0") := by
  have hlength : 7 < (Attribute.phase :: Attribute.all).length := by decide
  have hinfinite : ¬Sample.isFinite (1 / 0 : Float32) = true := by decide +kernel
  obtain ⟨-, -, hlong⟩ := ofConfig_ends doubleEncoding ⟨.phase :: Attribute.all, 0 / 0, false⟩
  obtain ⟨-, hrefused, -⟩ := ofConfig_ends singleEncoding ⟨Attribute.all, 1 / 0, false⟩
  refine ⟨hlength, hlong hlength, (hrefused _).2 ?_⟩
  exact .interval (by decide) (by decide) fun h => hinfinite h.1

end AttributeExtractor
end AnalyticTrace
