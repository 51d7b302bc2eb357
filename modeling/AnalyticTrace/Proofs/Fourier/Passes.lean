import AnalyticTrace.Proofs.Fourier.Inversion

namespace AnalyticTrace

inductive Direction where
  | forward
  | inverse
  deriving DecidableEq

def Direction.sign : Direction → ℤ
  | forward => 1
  | inverse => -1

/-- A call of a plan: the direction, and the scratch space as the call finds it. -/
structure Pass (α : Type) where
  direction : Direction
  scratch : Array (Cplx α)

/-- What calls have made of a sequence, and the directions of those that succeeded, the latest
first. -/
structure Progress (α : Type) where
  data : Array (Cplx α)
  done : List Direction

namespace Progress

variable {α : Type}

def forwards (s : Progress α) : ℕ := s.done.count .forward

def inverses (s : Progress α) : ℕ := s.done.count .inverse

/-- How many more calls went forward than back. -/
def balance (s : Progress α) : ℤ := s.forwards - s.inverses

theorem balance_cons (data data' : Array (Cplx α)) (d : Direction) (done : List Direction) :
    balance ⟨data', d :: done⟩ = d.sign + balance ⟨data, done⟩ := by
  simp only [balance, forwards, inverses]
  cases d with
  | forward =>
    rw [List.count_cons_self, List.count_cons_of_ne (by decide), Direction.sign]
    omega
  | inverse =>
    rw [List.count_cons_self, List.count_cons_of_ne (by decide), Direction.sign]
    omega

end Progress

section Calls
variable {α : Type} [Sample α] [Transform α]

def Direction.transform {n : ℕ} : Direction → Vector (Cplx α) n → Vector (Cplx α) n
  | .forward, v => Transform.forward v
  | .inverse, v => (Transform.backward v).map (·.scale (1 / Sample.ofNat n))

namespace Plan

def run (plan : Plan) : Direction → EStateM TransformError (Workspace α) Unit
  | .forward => plan.forward
  | .inverse => plan.inverse

/-- What a call is refused for. The sequence is looked at first. -/
inductive Refuses (plan : Plan) (w : Workspace α) : TransformError → Prop
  | data : w.data.size ≠ plan.length →
      Refuses plan w (.lengthMismatch "buf" plan.length w.data.size)
  | scratch : w.data.size = plan.length →
      w.scratch.size < (plan.makeScratch : Array (Cplx α)).size →
      Refuses plan w (.lengthMismatch "scratch" (plan.makeScratch : Array (Cplx α)).size
        w.scratch.size)

/-- One call more. One that fails leaves behind whatever it leaves behind. -/
def pass (plan : Plan) (s : Progress α) (p : Pass α) : Progress α :=
  match plan.run p.direction ⟨s.data, p.scratch⟩ with
  | .ok _ w => ⟨w.data, p.direction :: s.done⟩
  | .error _ w => ⟨w.data, s.done⟩

def passes (plan : Plan) (data : Array (Cplx α)) (ps : List (Pass α)) : Progress α :=
  ps.foldl plan.pass ⟨data, []⟩

theorem size_makeScratch (plan : Plan) :
    (plan.makeScratch : Array (Cplx α)).size = plan.scratchLength α :=
  Array.size_replicate ..

theorem apply_eq_error {plan : Plan} {f : Vector (Cplx α) plan.length → Vector (Cplx α) plan.length}
    {w w' : Workspace α} {e : TransformError} :
    plan.apply f w = .error e w' ↔ w' = w ∧ plan.Refuses w e := by
  constructor
  · intro h
    rw [apply] at h
    split at h
    · rename_i hdata
      split at h
      · rename_i hscratch
        cases h
        rw [← size_makeScratch] at hscratch ⊢
        exact ⟨rfl, .scratch hdata hscratch⟩
      · cases h
    · rename_i hdata
      cases h
      exact ⟨rfl, .data hdata⟩
  · rintro ⟨rfl, hdata | ⟨hdata, hscratch⟩⟩
    · exact dif_neg hdata
    · rw [size_makeScratch] at hscratch ⊢
      rw [apply, dif_pos hdata, if_pos hscratch]

theorem run_eq_error {plan : Plan} {d : Direction} {w w' : Workspace α} {e : TransformError} :
    plan.run d w = .error e w' ↔ w' = w ∧ plan.Refuses w e := by
  cases d with
  | forward => exact apply_eq_error
  | inverse =>
    rw [run, inverse, run_bind_eq_error, apply_eq_error, or_iff_left]
    rintro ⟨_, _, -, h⟩
    cases h

theorem run_holds {plan : Plan} {w : Workspace α} {v : Vector (Cplx α) plan.length}
    (h : w.Holds plan v) (d : Direction) :
    ∃ w', plan.run d w = .ok () w' ∧ w'.Holds plan (d.transform v) := by
  cases d with
  | forward => exact forward_holds h
  | inverse => exact inverse_holds h

theorem pass_of_refused {plan : Plan} {s : Progress α} {p : Pass α} {e : TransformError}
    (h : plan.Refuses ⟨s.data, p.scratch⟩ e) : plan.pass s p = s := by
  simp only [pass, run_eq_error.2 ⟨rfl, h⟩]

/-- All that a call can do. -/
theorem pass_cases (plan : Plan) (s : Progress α) (p : Pass α) :
    (∃ h : s.data.size = plan.length, plan.scratchLength α ≤ p.scratch.size ∧
      plan.pass s p = ⟨(p.direction.transform ⟨s.data, h⟩).toArray, p.direction :: s.done⟩) ∨
    ((s.data.size ≠ plan.length ∨ p.scratch.size < plan.scratchLength α) ∧
      plan.pass s p = s) := by
  by_cases hdata : s.data.size = plan.length
  · by_cases hscratch : p.scratch.size < plan.scratchLength α
    · rw [← size_makeScratch] at hscratch ⊢
      exact .inr ⟨.inr hscratch, pass_of_refused (.scratch hdata hscratch)⟩
    · have hholds : Workspace.Holds ⟨s.data, p.scratch⟩ plan ⟨s.data, hdata⟩ :=
        ⟨rfl, Nat.le_of_not_lt hscratch⟩
      obtain ⟨w, hrun, hw⟩ := run_holds hholds p.direction
      refine .inl ⟨hdata, Nat.le_of_not_lt hscratch, ?_⟩
      simp only [pass, hrun, hw.data]
  · exact .inr ⟨.inl hdata, pass_of_refused (.data hdata)⟩

theorem passes_concat (plan : Plan) (data : Array (Cplx α)) (ps : List (Pass α)) (p : Pass α) :
    plan.passes data (ps ++ [p]) = plan.pass (plan.passes data ps) p :=
  List.foldl_append ..

theorem size_passes (plan : Plan) (data : Array (Cplx α)) (ps : List (Pass α)) :
    (plan.passes data ps).data.size = data.size := by
  induction ps using List.reverseRecOn with
  | nil => rfl
  | append_singleton ps p ih =>
    rw [passes_concat]
    obtain ⟨hsize, -, hpass⟩ | ⟨-, hpass⟩ := plan.pass_cases (plan.passes data ps) p
    · rw [hpass, Vector.size_toArray, ← hsize, ih]
    · rw [hpass, ih]

theorem passes_of_size_ne {plan : Plan} {data : Array (Cplx α)} (h : data.size ≠ plan.length)
    (ps : List (Pass α)) : plan.passes data ps = ⟨data, []⟩ := by
  induction ps using List.reverseRecOn with
  | nil => rfl
  | append_singleton ps p ih =>
    rw [passes_concat, ih]
    obtain ⟨hsize, -⟩ | ⟨-, hpass⟩ := plan.pass_cases ⟨data, []⟩ p
    · exact (h hsize).elim
    · exact hpass

/-- On a sequence of the plan's length the calls that succeed are those with room to work in. -/
theorem done_passes {plan : Plan} {data : Array (Cplx α)} (h : data.size = plan.length)
    (ps : List (Pass α)) : (plan.passes data ps).done =
      ((ps.filter fun p => plan.scratchLength α ≤ p.scratch.size).map Pass.direction).reverse := by
  induction ps using List.reverseRecOn with
  | nil => rfl
  | append_singleton ps p ih =>
    rw [passes_concat, List.filter_append, List.map_append, List.reverse_append, ← ih,
      List.filter_singleton]
    obtain ⟨_, hfits, hpass⟩ | ⟨hshort, hpass⟩ := plan.pass_cases (plan.passes data ps) p
    · simp [hpass, hfits]
    · have hsize := (plan.size_passes data ps).trans h
      have hfits := Nat.not_le.2 (hshort.resolve_left (not_not.2 hsize))
      simp [hpass, hfits]

end Plan
end Calls

theorem iterate_bind_eq {ε β : Type} {n : ℕ} {f : Array β → Except ε (Array β)}
    {g : Equiv.Perm (Vector β n)} (h : ∀ v, f v.toArray = .ok (g v).toArray) (k : ℕ)
    (v : Vector β n) : (· >>= f)^[k] (.ok v.toArray) = .ok ((g ^ k) v).toArray := by
  induction k generalizing v with
  | zero => rfl
  | succ k ih =>
    have hstep : (.ok v.toArray >>= f) = .ok (g v).toArray := h v
    rw [Function.iterate_succ_apply, hstep, ih, pow_succ, Equiv.Perm.mul_apply]

instance (plan : Plan) : NeZero plan.length := ⟨Nat.ne_of_gt plan.length_pos⟩

section Exact
variable [Angle] [Transform ℝ] [ExactTransform]

/-- Both directions of a length take back what the other one did. -/
noncomputable def transformPerm (n : ℕ) [NeZero n] : Equiv.Perm (Vector (Cplx ℝ) n) where
  toFun v := Direction.transform .forward v
  invFun v := Direction.transform .inverse v
  left_inv v := inverse_forward v
  right_inv v := forward_inverse v

theorem transformPerm_zpow_sign {n : ℕ} [NeZero n] (d : Direction) (v : Vector (Cplx ℝ) n) :
    (transformPerm n ^ d.sign) v = d.transform v := by
  cases d with
  | forward =>
    rw [Direction.sign, zpow_one]
    rfl
  | inverse =>
    rw [Direction.sign, zpow_neg_one]
    rfl

theorem iterate_fft {n : ℕ} [NeZero n] (k : ℕ) (v : Vector (Cplx ℝ) n) :
    (· >>= fft)^[k] (.ok v.toArray) = .ok ((transformPerm n ^ k) v).toArray :=
  iterate_bind_eq (fun v => fft_eq v (NeZero.pos n)) k v

theorem iterate_ifft {n : ℕ} [NeZero n] (k : ℕ) (v : Vector (Cplx ℝ) n) :
    (· >>= ifft)^[k] (.ok v.toArray) = .ok (((transformPerm n)⁻¹ ^ k) v).toArray :=
  iterate_bind_eq (fun v => ifft_eq v (NeZero.pos n)) k v

/-- The sequence is the one from the start, transformed as many times as more calls went forward
than back, or back as many times as more went back. -/
structure Progress.Balanced (start : Array (Cplx ℝ)) (s : Progress ℝ) : Prop where
  forward : s.inverses ≤ s.forwards →
    (· >>= fft)^[s.forwards - s.inverses] (.ok start) = .ok s.data
  backward : s.forwards ≤ s.inverses →
    (· >>= ifft)^[s.inverses - s.forwards] (.ok start) = .ok s.data

theorem Progress.Balanced.of_data {n : ℕ} [NeZero n] {v : Vector (Cplx ℝ) n} {s : Progress ℝ}
    (h : s.data = ((transformPerm n ^ s.balance) v).toArray) : Balanced v.toArray s where
  forward hle := by
    rw [iterate_fft, h, balance, ← Nat.cast_sub hle, zpow_natCast]
  backward hle := by
    rw [iterate_ifft, h, balance, ← neg_sub, ← Nat.cast_sub hle, zpow_neg, zpow_natCast, inv_pow]

namespace Plan

/-- The power of the transform that the sequence stands at follows the balance. -/
theorem pass_data {plan : Plan} {v : Vector (Cplx ℝ) plan.length} {s : Progress ℝ}
    (hs : s.data = ((transformPerm plan.length ^ s.balance) v).toArray) (p : Pass ℝ) :
    (plan.pass s p).data =
      ((transformPerm plan.length ^ (plan.pass s p).balance) v).toArray := by
  obtain ⟨hsize, -, hpass⟩ | ⟨-, hpass⟩ := plan.pass_cases s p
  -- The direction of the call becomes one step of the exponent, its sign the sign of the step.
  · have hdata : (⟨s.data, hsize⟩ : Vector (Cplx ℝ) plan.length) =
        (transformPerm plan.length ^ s.balance) v := Vector.toArray_inj.1 hs
    rw [hpass, Progress.balance_cons s.data, zpow_add, Equiv.Perm.mul_apply,
      transformPerm_zpow_sign, hdata]
  · rw [hpass, hs]

theorem passes_data {plan : Plan} (v : Vector (Cplx ℝ) plan.length) (ps : List (Pass ℝ)) :
    (plan.passes v.toArray ps).data =
      ((transformPerm plan.length ^ (plan.passes v.toArray ps).balance) v).toArray := by
  induction ps using List.reverseRecOn with
  | nil => rfl
  | append_singleton ps p ih =>
    rw [passes_concat]
    exact pass_data ih p

end Plan
end Exact

/-- A call fails only where a length is wrong, and then changes nothing; what calls make of a
sequence depends on how many of them succeeded in either direction, and not on their order. -/
theorem Plan.passes_balanced :
    (∀ {α : Type} [Sample α] [Transform α] (plan : Plan) (d : Direction) (w w' : Workspace α)
      (e : TransformError), plan.run d w = .error e w' ↔ w' = w ∧ plan.Refuses w e) ∧
    ∀ [Angle] [Transform ℝ] [ExactTransform] (plan : Plan) (data : Array (Cplx ℝ)),
      (∀ ps, (plan.passes data ps).Balanced data) ∧
      ∀ ps ps', (plan.passes data ps).balance = (plan.passes data ps').balance →
        (plan.passes data ps).data = (plan.passes data ps').data := by
  refine ⟨fun _ _ _ _ _ => run_eq_error, fun plan data => ?_⟩
  by_cases hsize : data.size = plan.length
  · have hdata := passes_data (⟨data, hsize⟩ : Vector (Cplx ℝ) plan.length)
    refine ⟨fun ps => .of_data (hdata ps), fun ps ps' hbalance => ?_⟩
    exact (hdata ps).trans (hbalance ▸ (hdata ps').symm)
  · have hrefused := passes_of_size_ne (α := ℝ) hsize
    refine ⟨fun ps => ?_, fun ps ps' _ => ?_⟩
    · rw [hrefused]
      exact ⟨fun _ => rfl, fun _ => rfl⟩
    · rw [hrefused, hrefused]

theorem Plan.passes_balanced_pair :
    Plan.run ⟨2, by decide⟩ .inverse (⟨#[0, 0], #[0]⟩ : Workspace ℝ) =
      .error (.lengthMismatch "scratch" 2 1) ⟨#[0, 0], #[0]⟩ ∧
    (Plan.passes ⟨2, by decide⟩ #[(⟨1, 0⟩ : Cplx ℝ), ⟨0, 1⟩]
      [⟨.inverse, #[⟨9, -9⟩, 0]⟩, ⟨.inverse, #[]⟩, ⟨.forward, #[0, 0, ⟨1, 1⟩]⟩]).data =
        #[⟨1, 0⟩, ⟨0, 1⟩] := by
  obtain ⟨hrefused, hbalanced⟩ := Plan.passes_balanced
  constructor
  · exact (hrefused _ _ _ _ _).2 ⟨rfl, .scratch rfl (by simp [size_makeScratch,
      Plan.scratchLength, Transform.scratchLength])⟩
  · refine (hbalanced _ _).2 _ [] ?_
    rw [Progress.balance, Progress.forwards, Progress.inverses, done_passes (by rfl)]
    simp [Plan.scratchLength, Transform.scratchLength, Progress.balance, Progress.forwards,
      Progress.inverses, passes]

end AnalyticTrace
