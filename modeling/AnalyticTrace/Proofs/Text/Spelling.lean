import Mathlib.Data.List.Forall2
import Mathlib.Data.List.TakeWhile
import AnalyticTrace.Text.Blank

namespace AnalyticTrace.Text

def Blanks (s : List Char) : Prop := ∀ c ∈ s, isBlank c = true

section Trimming
variable {s t l r : List Char}

theorem dropWhile_blanks (h : Blanks l) (s : List Char) :
    (l ++ s).dropWhile isBlank = s.dropWhile isBlank :=
  List.dropWhile_append_of_pos h

theorem dropWhile_of_bare (h : ∀ c ∈ t.head?, isBlank c = false) : t.dropWhile isBlank = t := by
  cases t with
  | nil => rfl
  | cons c t => exact List.dropWhile_cons_of_neg (Bool.eq_false_iff.1 (h c rfl))

theorem exists_blanks_append (s : List Char) : ∃ l, Blanks l ∧ s = l ++ s.dropWhile isBlank :=
  ⟨s.takeWhile isBlank, fun _ => List.mem_takeWhile_imp, List.takeWhile_append_dropWhile.symm⟩

theorem head?_dropWhile (s : List Char) : ∀ c ∈ (s.dropWhile isBlank).head?, isBlank c = false := by
  intro c hc
  have hhead := List.head?_dropWhile_not isBlank s
  rw [hc] at hhead
  exact hhead

/-- What is left of `s` without the blanks at both ends. -/
structure Trimmed (s t : List Char) : Prop where
  padded : ∃ l r, Blanks l ∧ Blanks r ∧ s = l ++ t ++ r
  head : ∀ c ∈ t.head?, isBlank c = false
  last : ∀ c ∈ t.getLast?, isBlank c = false

theorem trimmed_trim (s : List Char) : Trimmed s (trim s) := by
  obtain ⟨l, hl, hs⟩ := exists_blanks_append s
  obtain ⟨r, hr, hrest⟩ := exists_blanks_append (s.dropWhile isBlank).reverse
  have hsplit : s.dropWhile isBlank = trim s ++ r.reverse := by
    rw [trim, ← List.reverse_append, ← hrest, List.reverse_reverse]
  refine ⟨⟨l, r.reverse, hl, fun c hc => hr c (List.mem_reverse.1 hc), ?_⟩, ?_, ?_⟩
  · rw [List.append_assoc, ← hsplit]
    exact hs
  · intro c hc
    apply head?_dropWhile s c
    rw [hsplit, List.head?_append, hc]
    rfl
  · intro c hc
    rw [trim, List.getLast?_reverse] at hc
    exact head?_dropWhile _ c hc

theorem Trimmed.trim_eq (h : Trimmed s t) : trim s = t := by
  obtain ⟨⟨l, r, hl, hr, rfl⟩, hhead, hlast⟩ := h
  have hback : Blanks r.reverse := fun c hc => hr c (List.mem_reverse.1 hc)
  rw [List.append_assoc, trim, dropWhile_blanks hl]
  cases t with
  | nil =>
    rw [List.nil_append, List.dropWhile_eq_nil_iff.2 hr]
    rfl
  | cons c t =>
    have hfront : (c :: t ++ r).dropWhile isBlank = c :: t ++ r := dropWhile_of_bare hhead
    rw [hfront, List.reverse_append, dropWhile_blanks hback, dropWhile_of_bare,
      List.reverse_reverse]
    rwa [List.head?_reverse]

theorem trimmed_iff : Trimmed s t ↔ t = trim s := by
  constructor
  · intro h
    exact h.trim_eq.symm
  · rintro rfl
    exact trimmed_trim s

end Trimming

section Letters
variable {c d : Char}

theorem isLower_iff : c.isLower = true ↔ 97 ≤ c.toNat ∧ c.toNat ≤ 122 := by
  have hbounds : (decide (c.val ≥ 'a'.val) && decide (c.val ≤ 'z'.val)) = true ↔
      97 ≤ c.toNat ∧ c.toNat ≤ 122 := by
    rw [Bool.and_eq_true, decide_eq_true_iff, decide_eq_true_iff]
    rfl
  exact hbounds

theorem toNat_toLower (c : Char) :
    c.toLower.toNat = if 65 ≤ c.toNat ∧ c.toNat ≤ 90 then c.toNat + 32 else c.toNat := by
  by_cases h : 65 ≤ c.toNat ∧ c.toNat ≤ 90
  · have hlower : c.toLower = _ := dif_pos h
    have hsum : c.toNat + 32 < 2 ^ 32 :=
      Nat.lt_of_le_of_lt (Nat.add_le_add_right h.2 32) (by decide)
    rw [if_pos h, hlower]
    exact Nat.mod_eq_of_lt hsum
  · have hsame : c.toLower = c := dif_neg h
    rw [if_neg h, hsame]

theorem toNat_toUpper (h : c.isLower = true) : c.toUpper.toNat + 32 = c.toNat := by
  have hle := isLower_iff.1 h
  have hupper : c.toUpper = _ := dif_pos hle
  have hsum : c.toUpper.toNat = (c.toNat + ('A'.val - 'a'.val).toNat) % 2 ^ 32 := by
    rw [hupper]
    exact UInt32.toNat_add _ _
  have hdifference : ('A'.val - 'a'.val).toNat + 32 = 2 ^ 32 := by decide
  omega

/-- The small letter `d` or its capital. -/
def EitherCase (c d : Char) : Prop := c = d ∨ c = d.toUpper

theorem toLower_eq_iff (hd : d.isLower = true) : c.toLower = d ↔ EitherCase c d := by
  have hle := isLower_iff.1 hd
  have hupper := toNat_toUpper hd
  rw [EitherCase, ← Char.toNat_inj, ← Char.toNat_inj, ← Char.toNat_inj, toNat_toLower]
  split
  · omega
  · omega

theorem map_toLower_eq_iff {t w : List Char} (hw : ∀ d ∈ w, d.isLower = true) :
    t.map Char.toLower = w ↔ List.Forall₂ EitherCase t w := by
  induction w generalizing t with
  | nil => rw [List.map_eq_nil_iff, List.forall₂_nil_right_iff]
  | cons d w ih =>
    obtain ⟨hd, hw⟩ := List.forall_mem_cons.1 hw
    cases t with
    | nil => exact iff_of_false nofun nofun
    | cons c t => rw [List.map_cons, List.cons.injEq, List.forall₂_cons, toLower_eq_iff hd, ih hw]

theorem not_blank_of_letter (h : 65 ≤ c.toNat) (h' : c.toNat ≤ 122) : isBlank c = false := by
  have hapart : ∀ range ∈ blankRanges, range.2 < 65 ∨ 122 < range.1 := by decide
  rw [isBlank, List.any_eq_false]
  rintro ⟨lo, hi⟩ hrange
  have hout : hi < 65 ∨ 122 < lo := hapart _ hrange
  rw [Bool.and_eq_true, decide_eq_true_iff, decide_eq_true_iff]
  omega

theorem EitherCase.not_blank (h : EitherCase c d) (hd : d.isLower = true) : isBlank c = false := by
  have hle := isLower_iff.1 hd
  have hupper := toNat_toUpper hd
  obtain rfl | rfl := h
  · exact not_blank_of_letter (by omega) hle.2
  · exact not_blank_of_letter (by omega) (by omega)

theorem trimmed_of_letters {l t r w : List Char} (hw : ∀ d ∈ w, d.isLower = true) (hl : Blanks l)
    (ht : List.Forall₂ EitherCase t w) (hr : Blanks r) : Trimmed (l ++ t ++ r) t := by
  have hbare : ∀ c ∈ t, isBlank c = false := by
    intro c hc
    have hlower : c.toLower ∈ w := by
      rw [← (map_toLower_eq_iff hw).2 ht]
      exact List.mem_map_of_mem hc
    exact ((toLower_eq_iff (hw _ hlower)).1 rfl).not_blank (hw _ hlower)
  refine ⟨⟨l, r, hl, hr, rfl⟩, ?_, ?_⟩
  · intro c hc
    exact hbare c (List.mem_of_mem_head? hc)
  · intro c hc
    exact hbare c (List.mem_of_mem_getLast? hc)

end Letters
end AnalyticTrace.Text
