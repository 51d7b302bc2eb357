import Mathlib.Data.List.Nodup
import Mathlib.Data.Set.Subsingleton
import AnalyticTrace.Attribute.Basic
import AnalyticTrace.Proofs.Text.Spelling

namespace AnalyticTrace.Attribute

open Text (Blanks EitherCase Trimmed)

variable {a : Attribute}

theorem mem_all (a : Attribute) : a ∈ all := by
  cases a with
  | _ => decide

theorem isLower_of_mem_name (a : Attribute) : ∀ c ∈ a.name.toList, c.isLower = true := by
  have hall : a.name.toList.all Char.isLower = true := by
    cases a with
    | _ => rfl
  exact List.all_eq_true.1 hall

theorem name_injective : Function.Injective name := by
  intro a b h
  have hnodup : (all.map name).Nodup := by decide
  exact List.inj_on_of_nodup_map hnodup a.mem_all b.mem_all h

section Reading
variable {t : List Char}

theorem isNamed_iff : isNamed t a = true ↔ t.map Char.toLower = a.name.toList := by
  have hname : a.name.toList.map Char.toLower = a.name.toList :=
    (Text.map_toLower_eq_iff a.isLower_of_mem_name).2 (List.forall₂_same.2 fun _ _ => .inl rfl)
  rw [isNamed, beq_iff_eq, hname]

theorem isNamed_subsingleton (t : List Char) : {a | isNamed t a = true}.Subsingleton := by
  intro a ha b hb
  have hname := (isNamed_iff.1 ha).symm.trans (isNamed_iff.1 hb)
  exact name_injective (String.toList_injective hname)

theorem parse_eq_ok {s : String} :
    parse s = .ok a ↔ isNamed (Text.trim s.toList) a = true := by
  rw [parse]
  cases hfind : all.find? (isNamed (Text.trim s.toList)) with
  | none => exact iff_of_false nofun (List.find?_eq_none.1 hfind a a.mem_all)
  | some b =>
    have hb : isNamed (Text.trim s.toList) b = true := List.find?_some hfind
    constructor
    · rintro ⟨⟩
      exact hb
    · intro ha
      rw [isNamed_subsingleton _ ha hb]

theorem parse_eq_error {s : String} {e : ConfigError} :
    parse s = .error e ↔
      e = .invalidArgument "attribute" "unknown attribute name" ∧
        ∀ a, ¬isNamed (Text.trim s.toList) a = true := by
  rw [parse]
  cases hfind : all.find? (isNamed (Text.trim s.toList)) with
  | none =>
    have hnone (a : Attribute) := List.find?_eq_none.1 hfind a a.mem_all
    constructor
    · rintro ⟨⟩
      exact ⟨rfl, hnone⟩
    · rintro ⟨rfl, -⟩
      rfl
  | some b => exact iff_of_false nofun fun h => h.2 b (List.find?_some hfind)

end Reading

/-- Blanks, the letters of the name in either case, and blanks. -/
def Spelled (a : Attribute) (s : List Char) : Prop :=
  ∃ l t r, Blanks l ∧ List.Forall₂ EitherCase t (toString a).toList ∧ Blanks r ∧ s = l ++ t ++ r

theorem spelled_iff {s : List Char} : Spelled a s ↔ isNamed (Text.trim s) a = true := by
  have hletters (t : List Char) : isNamed t a = true ↔ List.Forall₂ EitherCase t a.name.toList :=
    isNamed_iff.trans (Text.map_toLower_eq_iff a.isLower_of_mem_name)
  constructor
  · rintro ⟨l, t, r, hl, ht, hr, rfl⟩
    rw [(Text.trimmed_of_letters a.isLower_of_mem_name hl ht hr).trim_eq]
    exact (hletters t).2 ht
  · intro h
    obtain ⟨l, r, hl, hr, hs⟩ := (Text.trimmed_trim s).padded
    exact ⟨l, _, r, hl, (hletters _).1 h, hr, hs⟩

/-- A text is read as the attribute whose name is left when the blanks at both ends are cut off and
capitals made small. So every spelling of a name is read, and no other text is. -/
theorem parse_spelled (s : String) :
    (∃ t, (∀ u, Trimmed s.toList u ↔ u = t) ∧ {a | isNamed t a = true}.Subsingleton ∧
      ∀ a, parse s = .ok a ↔ t.map Char.toLower = a.name.toList) ∧
      (∀ a, parse s = .ok a ↔ Spelled a s.toList) ∧
      ∀ e, parse s = .error e ↔
        e = .invalidArgument "attribute" "unknown attribute name" ∧ ∀ a, ¬Spelled a s.toList := by
  refine ⟨⟨Text.trim s.toList, fun u => Text.trimmed_iff, isNamed_subsingleton _, fun a => ?_⟩,
    fun a => ?_, fun e => ?_⟩
  · rw [parse_eq_ok, isNamed_iff]
  · rw [parse_eq_ok, spelled_iff]
  · simp only [parse_eq_error, spelled_iff]

/-- A long s is no letter of a name, although its capital is one. -/
example : parse "pha\u017fe" = .error (.invalidArgument "attribute" "unknown attribute name") :=
  rfl

end AnalyticTrace.Attribute
