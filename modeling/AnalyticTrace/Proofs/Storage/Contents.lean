import AnalyticTrace.Proofs.Attribute.Selection
import AnalyticTrace.Proofs.Storage.RunInto

namespace AnalyticTrace

variable {α β : Type}

namespace Buffer

theorem read_eq_ok {b : Buffer β} {items : Array β} :
    b.read = .ok items ↔ b.contiguous = true ∧ b.toArray = items := by
  unfold read
  split
  · rename_i hcontiguous
    simp [hcontiguous]
  · rename_i hcontiguous
    refine iff_of_false ?_ fun h => hcontiguous h.1
    cases b <;> exact nofun

theorem binds_iff {b : Buffer β} : b.Binds ↔ b.contiguous = true := by
  simp [Binds, read_eq_ok]

theorem Binds.read_eq {b : Buffer β} (h : b.Binds) : b.read = .ok b.toArray :=
  read_eq_ok.2 ⟨binds_iff.1 h, rfl⟩

theorem Binds.window_eq {b : Buffer β} (h : b.Binds) : b.window = .ok b.toArray :=
  window_eq_ok.2 ⟨binds_iff.1 h, rfl⟩

theorem Binds.store {b : Buffer β} (h : b.Binds) (items : Array β) : (b.store items).Binds := by
  rw [binds_iff] at h ⊢
  cases b <;> exact h

/-- Both bind, and they hold the same items in the same order. -/
structure Alike (a b : Buffer β) : Prop where
  left : a.Binds
  right : b.Binds
  items : a.toArray = b.toArray

section Alike
variable {a b : Buffer β}

theorem Alike.read_eq (h : a.Alike b) : a.read = b.read := by
  rw [h.left.read_eq, h.right.read_eq, h.items]

theorem Alike.window_eq (h : a.Alike b) : b.window = .ok a.toArray := by
  rw [h.right.window_eq, h.items]

theorem Alike.store (h : a.Alike b) {items : Array β} (hsize : items.size = a.toArray.size) :
    (a.store items).Alike (b.store items) := by
  have hleft : a.Takes items := ⟨_, h.left.window_eq, hsize.symm⟩
  have hright : b.Takes items := ⟨_, h.window_eq, hsize.symm⟩
  exact ⟨h.left.store items, h.right.store items,
    (toArray_store hleft).trans (toArray_store hright).symm⟩

end Alike
end Buffer

/-- A run that is told its input by the items alone; storage that does not bind is refused. -/
structure SeesItems {ρ : Type} (run : Buffer α → Except RunError ρ) : Prop where
  alike : ∀ a b, a.Alike b → run a = run b
  array : ∀ s, ¬(Buffer.array s).Binds →
    run (.array s) = .error (.config (.nonContiguous "array"))
  view : ∀ s, ¬(Buffer.view s).Binds →
    run (.view s) = .error (.config (.nonContiguous "array_view"))

/-- The same outcome, and storage that is alike. -/
inductive EndsAlike {σ : Type} (alike : σ → σ → Prop) :
    EStateM.Result RunError σ Unit → EStateM.Result RunError σ Unit → Prop where
  | ok {s s' : σ} (h : alike s s') : EndsAlike alike (.ok () s) (.ok () s')
  | error {s s' : σ} (e : RunError) (h : alike s s') : EndsAlike alike (.error e s) (.error e s')

/-- A run into storage that sees both its input and its output by the items alone. -/
structure SeesItemsInto {σ : Type} (alike : σ → σ → Prop)
    (act : Buffer α → EStateM RunError σ Unit) : Prop where
  alike : ∀ a b, a.Alike b → ∀ s s', alike s s' → EndsAlike alike (act a s) (act b s')
  array : ∀ x s, ¬(Buffer.array x).Binds →
    act (.array x) s = .error (.config (.nonContiguous "array")) s
  view : ∀ x s, ¬(Buffer.view x).Binds →
    act (.view x) s = .error (.config (.nonContiguous "array_view")) s

theorem read_array {s : Strided β} (h : ¬(Buffer.array s).Binds) :
    (Buffer.array s).read = .error (.nonContiguous "array") :=
  if_neg fun hcontiguous => h (Buffer.binds_iff.2 hcontiguous)

theorem read_view {s : Strided β} (h : ¬(Buffer.view s).Binds) :
    (Buffer.view s).read = .error (.nonContiguous "array_view") :=
  if_neg fun hcontiguous => h (Buffer.binds_iff.2 hcontiguous)

theorem SeesItems.of_read {ρ : Type} (f : Array α → Except RunError ρ) :
    SeesItems fun input => do f (← input.read.mapError RunError.config) where
  alike a b h := by rw [h.read_eq]
  array s h := by
    rw [read_array h]
    rfl
  view s h := by
    rw [read_view h]
    rfl

section Into
variable {σ : Type} {alike : σ → σ → Prop} {s s' : σ}

theorem EndsAlike.liftRun_bind {r : Except RunError β} {act act' : β → EStateM RunError σ Unit}
    (hs : alike s s') (hact : ∀ x, r = .ok x → EndsAlike alike (act x s) (act' x s')) :
    EndsAlike alike ((liftRun r >>= act) s) ((liftRun r >>= act') s') := by
  cases r with
  | error e => exact .error e hs
  | ok x => exact hact x rfl

theorem SeesItemsInto.of_read {act : Array α → EStateM RunError σ Unit}
    (hact : ∀ x s s', alike s s' → EndsAlike alike (act x s) (act x s')) :
    SeesItemsInto alike fun input => do act (← liftRun (input.read.mapError RunError.config)) where
  alike a b h s s' hs := by
    rw [h.read_eq]
    exact .liftRun_bind hs fun x _ => hact x s s' hs
  array x s h := by
    rw [read_array h]
    rfl
  view x s h := by
    rw [read_view h]
    rfl

end Into

theorem Buffer.Alike.edit_overwrite {a b : Buffer β} (h : a.Alike b) (arg : String) (n : Nat)
    (write : Vector β n → Vector β n) :
    EndsAlike Alike (edit (overwrite arg n write) a) (edit (overwrite arg n write) b) := by
  rw [edit, edit, h.left.window_eq, h.window_eq]
  by_cases hsize : a.toArray.size = n
  · simp only [overwrite, dif_pos hsize]
    exact .ok (h.store ((Vector.size_toArray _).trans hsize.symm))
  · simp only [overwrite, dif_neg hsize]
    exact .error _ (h.store rfl)

/-- Each of the three pieces of storage is alike. -/
structure Polar.Alike (a b : Polar (Buffer α)) : Prop where
  phase : a.phase.Alike b.phase
  envelope : a.envelope.Alike b.envelope
  hilbert : a.hilbert.Alike b.hilbert

variable [Sample α]

theorem Unwrapper.sees_items (u : Unwrapper α) :
    SeesItems u.run ∧ SeesItemsInto Buffer.Alike u.runInto :=
  ⟨.of_read _, .of_read fun _ _ _ hs => hs.edit_overwrite ..⟩

theorem Differentiator.sees_items (d : Differentiator α) :
    SeesItems d.run ∧ SeesItemsInto Buffer.Alike d.runInto :=
  ⟨.of_read _, .of_read fun _ _ _ hs => hs.edit_overwrite ..⟩

variable [Transform α]

theorem HilbertTransformer.sees_items (t : HilbertTransformer) :
    SeesItems (t.run (α := α)) ∧ SeesItemsInto Buffer.Alike (t.runInto (α := α)) := by
  refine ⟨.of_read _, .of_read fun x s s' hs => .liftRun_bind hs fun plan _ => ?_⟩
  rw [writeAnalytic_eq]
  exact hs.edit_overwrite ..

theorem PolarExtractor.sees_items (k : PolarExtractor) :
    SeesItems (k.run (α := α)) ∧ SeesItemsInto Polar.Alike (k.runInto (α := α)) := by
  refine ⟨.of_read _, .of_read fun x s s' hs => ?_⟩
  rw [get_bind_run, get_bind_run, hs.phase.left.window_eq, hs.phase.window_eq,
    hs.envelope.left.window_eq, hs.envelope.window_eq, hs.hilbert.left.window_eq,
    hs.hilbert.window_eq]
  -- Both runs have the same items to write over from here on; only where these lie differs.
  refine .liftRun_bind hs ?_
  rintro phase ⟨⟩
  refine .liftRun_bind hs ?_
  rintro envelope ⟨⟩
  refine .liftRun_bind hs ?_
  rintro hilbert ⟨⟩
  refine .liftRun_bind hs fun _ _ => .liftRun_bind hs fun y _ => .ok ?_
  exact ⟨hs.phase.store (Array.size_mapIdx ..), hs.envelope.store (Array.size_mapIdx ..),
    hs.hilbert.store (Array.size_mapIdx ..)⟩

theorem AttributeExtractor.sees_items (k : AttributeExtractor α) : SeesItems k.run :=
  .of_read _

end AnalyticTrace
