import AnalyticTrace.Proofs.Steps
import AnalyticTrace.Proofs.Unwrap.Rule

namespace AnalyticTrace

variable {α : Type} [Sample α]

namespace Unwrapper

/-- What sample `i` is moved by. -/
def correctionAt (u : Unwrapper α) (p : Array α) (i : Nat) : α :=
  ((jumps p.toList).take i).foldl u.correct 0

theorem correctionAt_succ (u : Unwrapper α) {p : Array α} {i : Nat} (hi : i + 1 < p.size) :
    u.correctionAt p (i + 1) = u.correct (u.correctionAt p i) (p[i + 1] - p[i]) := by
  have hlength : i < (jumps p.toList).length := by
    rw [jumps, List.length_zipWith, List.length_tail, Array.length_toList]
    omega
  have hjump : (jumps p.toList)[i] = p[i + 1] - p[i] := by
    simp [jumps]
  rw [correctionAt, List.take_add_one, List.getElem?_eq_getElem hlength, Option.toList_some,
    List.foldl_append, hjump]
  rfl

/-- Sample `i` of the unwrapped sequence. -/
def unwrappedAt (u : Unwrapper α) (p : Array α) (i : Nat) : α :=
  if i = 0 then p.getD i 0 else p.getD i 0 + u.correctionAt p i

theorem getElem_runTrace_eq (u : Unwrapper α) (p : Array α) {i : Nat}
    (hi : i < (u.runTrace p).size) : (u.runTrace p)[i] = u.unwrappedAt p i := by
  have hp : i < p.size := size_runTrace u p ▸ hi
  rw [getElem_runTrace u p hp, unwrappedAt, ← Array.getElem_eq_getD (h := hp)]
  rfl

/-- The correction after jump `t` is known and all slots up to there are written. -/
def UnwrappedUpTo (u : Unwrapper α) {n : Nat} (p : Vector α n) (t : Nat) (s : α × Vector α n) :
    Prop :=
  s.1 = u.correctionAt p.toArray t ∧ ∀ j (hj : j < n), j ≤ t → s.2[j] = u.unwrappedAt p.toArray j

section Writing
variable {u : Unwrapper α} {n : Nat} {p : Vector α (n + 1)} {s : α × Vector α (n + 1)}

theorem unwrappedUpTo_first (u : Unwrapper α) (p out : Vector α (n + 1)) :
    u.UnwrappedUpTo p 0 (writeFirst p out) := by
  refine ⟨rfl, fun j hj hle => ?_⟩
  obtain rfl : j = 0 := Nat.le_zero.1 hle
  simp [writeFirst, unwrappedAt]

theorem UnwrappedUpTo.next {i : Fin n} (h : u.UnwrappedUpTo p i s) :
    u.UnwrappedUpTo p (i + 1) (u.writeNext p s i) := by
  have hi : i.val + 1 < p.toArray.size := by simp
  have hcorrection : u.correct s.1 (p[i.val + 1] - p[i.val]) =
      u.correctionAt p.toArray (i + 1) := by
    rw [correctionAt_succ u hi, h.1]
    rfl
  refine ⟨hcorrection, fun j hj hle => ?_⟩
  rw [writeNext, Vector.getElem_set]
  split
  · subst j
    simp [unwrappedAt, hcorrection]
  · exact h.2 j hj (by omega)

end Writing

theorem getElem_write (u : Unwrapper α) {n : Nat} (p out : Vector α n) {j : Nat} (hj : j < n) :
    (u.write p out)[j] = u.unwrappedAt p.toArray j := by
  match n, p, out with
  | n + 1, p, out =>
    have hrounds := foldl_induction (u.UnwrappedUpTo p) (u.unwrappedUpTo_first p out)
      fun _ _ h => h.next
    exact hrounds.2 j hj (Nat.le_of_lt_succ hj)

/-- What was there before does not matter: every slot is written. -/
theorem write_eq (u : Unwrapper α) (p : Array α) (out : Vector α p.size) :
    (u.write p.toVector out).toArray = u.runTrace p := by
  apply Array.ext
  · rw [Vector.size_toArray, size_runTrace]
  · intro j hj hj'
    rw [getElem_runTrace_eq, Vector.getElem_toArray, getElem_write]

end Unwrapper
end AnalyticTrace
