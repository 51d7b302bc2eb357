import AnalyticTrace.Proofs.Attribute.Lengths
import AnalyticTrace.Proofs.Steps

namespace AnalyticTrace

variable {α : Type} [Sample α]

theorem checkSpacing_eq_ok {h : α} {arg : String} :
    checkSpacing h arg = .ok () ↔ Sample.isFinite h = true ∧ ¬h ≤ 0 := by
  rw [checkSpacing]
  cases hf : Sample.isFinite h with
  | false => exact iff_of_false nofun fun hh => Bool.false_ne_true hh.1
  | true =>
    by_cases hle : h ≤ 0
    · simp [hle]
    · simp [hle]

theorem Differentiator.ofConfig_of_spacing {dt : α} {arg : String}
    (h : checkSpacing dt arg = .ok ()) : ofConfig ⟨dt⟩ = .ok ⟨dt⟩ := by
  have hspacing : checkSpacing dt "spacing" = .ok () :=
    checkSpacing_eq_ok.2 (checkSpacing_eq_ok.1 h)
  exact bind_eq_ok.2 ⟨(), hspacing, rfl⟩

theorem Differentiator.run_of_read (d : Differentiator α) {input : Buffer α} {x : Array α}
    (h : input.read = .ok x) : d.run input = .ok (gradient d.spacing x) := by
  rw [run, h]
  rfl

theorem timeDerivative_eq {dt : α} {arg : String} (h : checkSpacing dt arg = .ok ())
    (x : Array α) : timeDerivative x dt = .ok (gradient dt x) := by
  rw [timeDerivative, Differentiator.ofConfig_of_spacing h]
  rfl

/-- The derivative at sample `i` of `n`. -/
def slopeAt (h : α) (n : Nat) (x : Nat → α) (i : Nat) : α :=
  if n = 1 then 0
  else if i = 0 then (x 1 - x 0) / h
  else if i + 1 = n then (x i - x (i - 1)) / h
  else (x (i + 1) - x (i - 1)) / (h + h)

section Places
variable (h : α) (x : Nat → α) {n i : Nat}

theorem slopeAt_single : slopeAt h 1 x i = 0 := if_pos rfl

theorem slopeAt_left (hn : 1 < n) : slopeAt h n x 0 = (x 1 - x 0) / h := by
  rw [slopeAt, if_neg (Nat.ne_of_gt hn), if_pos rfl]

theorem slopeAt_right (hi : 0 < i) (hn : i + 1 = n) :
    slopeAt h n x i = (x i - x (i - 1)) / h := by
  rw [slopeAt, if_neg (by omega), if_neg (Nat.ne_of_gt hi), if_pos hn]

theorem slopeAt_inside (hi : 0 < i) (hn : i + 1 < n) :
    slopeAt h n x i = (x (i + 1) - x (i - 1)) / (h + h) := by
  rw [slopeAt, if_neg (by omega), if_neg (Nat.ne_of_gt hi), if_neg (Nat.ne_of_lt hn)]

end Places

theorem getElem_centralDifferences (h a b : α) (cs : List α) {i : Nat}
    (hi : i < (centralDifferences h a b cs).length) :
    (centralDifferences h a b cs)[i] =
      if i = cs.length then ((b :: cs).getD i 0 - (a :: b :: cs).getD i 0) / h
      else ((b :: cs).getD (i + 1) 0 - (a :: b :: cs).getD i 0) / (h + h) := by
  induction cs generalizing a b i with
  | nil =>
    obtain rfl : i = 0 := Nat.lt_one_iff.1 hi
    rfl
  | cons c cs ih =>
    cases i with
    | zero => rfl
    | succ i =>
      have hnext := ih b c (Nat.lt_of_succ_lt_succ hi)
      simpa [centralDifferences] using hnext

theorem getElem_gradient (h : α) (x : Array α) {i : Nat} (hi : i < (gradient h x).size) :
    (gradient h x)[i] = slopeAt h x.size (x.getD · 0) i := by
  obtain ⟨x⟩ := x
  match x with
  | [] => cases hi
  | [a] =>
    obtain rfl : i = 0 := Nat.lt_one_iff.1 hi
    rfl
  | a :: b :: cs =>
    cases i with
    | zero => simp [gradient, gradientList, slopeAt]
    | succ i =>
      have hrest := getElem_centralDifferences h a b cs (Nat.lt_of_succ_lt_succ hi)
      simp [gradient, gradientList, slopeAt, hrest]

/-- The last slot holds its slope, and so do all up to slot `t`. -/
def SlopesUpTo (h : α) {n : Nat} (x : Vector α n) (t : Nat) (out : Vector α n) : Prop :=
  ∀ j (hj : j < n), j ≤ t ∨ j + 1 = n → out[j] = slopeAt h n (x.toArray.getD · 0) j

section Writing
variable {h : α} {n : Nat} {x out : Vector α (n + 2)}

theorem slopesUpTo_ends (h : α) (x out : Vector α (n + 2)) :
    SlopesUpTo h x 0 (writeEnds h x out) := by
  intro j hj hends
  obtain rfl | rfl : j = 0 ∨ j = n + 1 := by omega
  · simp [writeEnds, slopeAt]
  · simp [writeEnds, slopeAt]

theorem SlopesUpTo.next {i : Fin n} (hout : SlopesUpTo h x i out) :
    SlopesUpTo h x (i + 1) (writeCentral h x out i) := by
  intro j hj hwritten
  rw [writeCentral, Vector.getElem_set]
  split
  · subst j
    simp [slopeAt, Nat.ne_of_lt i.isLt, Nat.lt_add_right 2 i.isLt]
  · exact hout j hj (by omega)

end Writing

theorem getElem_writeGradient (h : α) {n : Nat} (x out : Vector α n) {j : Nat} (hj : j < n) :
    (writeGradient h x out)[j] = slopeAt h n (x.toArray.getD · 0) j := by
  match n, x, out with
  | 1, x, out =>
    obtain rfl : j = 0 := Nat.lt_one_iff.1 hj
    simp [writeGradient, slopeAt]
  | n + 2, x, out =>
    have hrounds : SlopesUpTo h x n (writeGradient h x out) :=
      foldl_induction (SlopesUpTo h x) (slopesUpTo_ends h x out) fun _ _ hout => hout.next
    exact hrounds j hj (by omega)

/-- What was there before does not matter: every slot is written. -/
theorem writeGradient_eq (h : α) (x : Array α) (out : Vector α x.size) :
    (writeGradient h x.toVector out).toArray = gradient h x := by
  apply Array.ext
  · rw [Vector.size_toArray, size_gradient]
  · intro j hj hj'
    rw [getElem_gradient, Vector.getElem_toArray, getElem_writeGradient]

end AnalyticTrace
