import Mathlib.Data.List.Forall2

namespace AnalyticTrace

section State
variable {ε ε' σ β γ : Type} {x : EStateM ε σ β} {f : β → EStateM ε σ γ} {s s' : σ}

theorem bind_of_ok {b : β} (h : x s = .ok b s') : (x >>= f) s = f b s' := by
  change EStateM.bind x f s = _
  simp only [EStateM.bind, h]

theorem bind_of_error {e : ε} (h : x s = .error e s') : (x >>= f) s = .error e s' := by
  change EStateM.bind x f s = _
  simp only [EStateM.bind, h]

theorem adaptExcept_of_ok {b : β} (g : ε → ε') (h : x s = .ok b s') :
    x.adaptExcept g s = .ok b s' := by
  simp only [EStateM.adaptExcept, h]

theorem adaptExcept_of_error {e : ε} (g : ε → ε') (h : x s = .error e s') :
    x.adaptExcept g s = .error (g e) s' := by
  simp only [EStateM.adaptExcept, h]

theorem run_bind_eq_ok {c : γ} :
    (x >>= f) s = .ok c s' ↔ ∃ b t, x s = .ok b t ∧ f b t = .ok c s' := by
  change EStateM.bind x f s = _ ↔ _
  rw [EStateM.bind]
  cases x s with
  | error e t => exact iff_of_false nofun nofun
  | ok b t => exact ⟨fun h => ⟨b, t, rfl, h⟩, fun ⟨_, _, hx, h⟩ => by cases hx; exact h⟩

theorem run_bind_eq_error {e : ε} :
    (x >>= f) s = .error e s' ↔
      x s = .error e s' ∨ ∃ b t, x s = .ok b t ∧ f b t = .error e s' := by
  change EStateM.bind x f s = _ ↔ _
  rw [EStateM.bind]
  cases x s with
  | error e t => simp
  | ok b t => simp

theorem modify_run (g : σ → σ) : (modify g : EStateM ε σ Unit) s = .ok () (g s) := rfl

end State

section Except
variable {ε β γ : Type}

theorem bind_eq_ok {x : Except ε β} {f : β → Except ε γ} {c : γ} :
    x >>= f = .ok c ↔ ∃ b, x = .ok b ∧ f b = .ok c := by
  constructor
  · intro h
    cases x with
    | error e => cases h
    | ok b => exact ⟨b, rfl, h⟩
  · rintro ⟨b, rfl, h⟩
    exact h

theorem bind_eq_error {x : Except ε β} {f : β → Except ε γ} {e : ε} :
    x >>= f = .error e ↔ x = .error e ∨ ∃ b, x = .ok b ∧ f b = .error e := by
  constructor
  · intro h
    cases x with
    | error e =>
      cases h
      exact .inl rfl
    | ok b => exact .inr ⟨b, rfl, h⟩
  · rintro (rfl | ⟨b, rfl, h⟩)
    · rfl
    · exact h

theorem exists_eq_ok_iff {x : Except ε β} : (∃ b, x = .ok b) ↔ ∀ e, x ≠ .error e := by
  cases x with
  | error e => exact iff_of_false nofun fun h => h e rfl
  | ok b => exact iff_of_true ⟨b, rfl⟩ nofun

theorem pure_eq_ok {b c : β} : (pure b : Except ε β) = .ok c ↔ b = c := Except.ok.injEq b c ▸ .rfl

theorem mapError_eq_ok {x : Except ε β} {g : ε → γ} {b : β} :
    x.mapError g = .ok b ↔ x = .ok b := by
  cases x with
  | error e => exact iff_of_false nofun nofun
  | ok c => simp only [Except.mapError, Except.ok.injEq]

theorem mapError_eq_error {x : Except ε β} {g : ε → γ} {e : γ} :
    x.mapError g = .error e ↔ ∃ cause, x = .error cause ∧ g cause = e := by
  cases x with
  | error cause => simp [Except.mapError]
  | ok b => exact iff_of_false nofun nofun

theorem mapM_eq_ok {f : β → Except ε γ} {xs : List β} {ys : List γ} :
    xs.mapM f = .ok ys ↔ List.Forall₂ (fun x y => f x = .ok y) xs ys := by
  induction xs generalizing ys with
  | nil =>
    rw [List.mapM_nil, List.forall₂_nil_left_iff]
    exact ⟨fun h => by cases h; rfl, fun h => by cases h; rfl⟩
  | cons x xs ih =>
    rw [List.mapM_cons, bind_eq_ok, List.forall₂_cons_left_iff]
    constructor
    · rintro ⟨y, hy, h⟩
      obtain ⟨zs, hzs, hcons⟩ := bind_eq_ok.1 h
      cases hcons
      exact ⟨y, zs, hy, ih.1 hzs, rfl⟩
    · rintro ⟨y, zs, hy, hzs, rfl⟩
      exact ⟨y, hy, bind_eq_ok.2 ⟨zs, ih.2 hzs, rfl⟩⟩

theorem mapM_eq_map {f : β → Except ε γ} {g : β → γ} {xs : List β}
    (h : ∀ x ∈ xs, f x = .ok (g x)) : xs.mapM f = .ok (xs.map g) := by
  rw [mapM_eq_ok, List.forall₂_map_right_iff, List.forall₂_same]
  exact h

/-- A loop over indices ends with the error of the first one that has an error. -/
theorem mapM_range'_eq_error {f : Nat → Except ε β} {start n : Nat} {e : ε} :
    (List.range' start n).mapM f = .error e ↔ ∃ i, start ≤ i ∧ i < start + n ∧ f i = .error e ∧
      ∀ j, start ≤ j → j < i → ∀ e', f j ≠ .error e' := by
  induction n generalizing start with
  | zero => exact iff_of_false nofun fun ⟨i, hle, hlt, _⟩ => absurd hlt (Nat.not_lt.2 hle)
  | succ n ih =>
    rw [List.range'_succ, List.mapM_cons, bind_eq_error]
    constructor
    · rintro (hstart | ⟨b, hb, h⟩)
      · exact ⟨start, Nat.le_refl _, by omega, hstart, fun j hle hlt => by omega⟩
      · obtain hrest | ⟨_, _, h⟩ := bind_eq_error.1 h
        · obtain ⟨i, hle, hlt, hi, hbefore⟩ := ih.1 hrest
          refine ⟨i, by omega, by omega, hi, fun j hj hji => ?_⟩
          obtain rfl | hj := Nat.eq_or_lt_of_le hj
          · exact exists_eq_ok_iff.1 ⟨b, hb⟩
          · exact hbefore j hj hji
        · cases h
    · rintro ⟨i, hle, hlt, hi, hbefore⟩
      obtain rfl | hne := Nat.eq_or_lt_of_le hle
      · exact .inl hi
      · obtain ⟨b, hb⟩ := exists_eq_ok_iff.2 (hbefore start (Nat.le_refl _) hne)
        refine .inr ⟨b, hb, bind_eq_error.2 (.inl (ih.2 ⟨i, hne, by omega, hi, fun j hj => ?_⟩))⟩
        exact hbefore j (Nat.le_of_succ_le hj)

end Except

/-- What holds at the start of a loop and passes from each round to the next holds at its end. -/
theorem foldl_induction {σ : Type} {n : Nat} {step : σ → Fin n → σ} {start : σ}
    (holds : Nat → σ → Prop) (hstart : holds 0 start)
    (hstep : ∀ (i : Fin n) (s : σ), holds i s → holds (i + 1) (step s i)) :
    holds n (Fin.foldl n step start) := by
  induction n with
  | zero => exact hstart
  | succ n ih =>
    rw [Fin.foldl_succ_last]
    exact hstep (Fin.last n) _ (ih fun i s h => hstep i.castSucc s h)

end AnalyticTrace
