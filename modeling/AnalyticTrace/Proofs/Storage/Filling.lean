import AnalyticTrace.Proofs.Steps
import AnalyticTrace.Storage.Buffer

namespace AnalyticTrace

variable {β : Type}

namespace Strided

theorem address_of_contiguous {s : Strided β} (h : s.contiguous = true) {i : Nat}
    (hi : i < s.length) : s.address i = s.offset + i := by
  have hcast := address_cast hi
  rw [contiguous, Bool.or_eq_true, decide_eq_true_iff, decide_eq_true_iff] at h
  obtain hshort | hstride := h
  · obtain rfl : i = 0 := by omega
    simp only [Int.natCast_zero, Int.zero_mul] at hcast
    omega
  · rw [hstride] at hcast
    omega

theorem size_toArray (s : Strided β) : s.toArray.size = s.length := Array.size_ofFn

theorem getElem_toArray {s : Strided β} (h : s.contiguous = true) {i : Nat}
    (hi : i < s.toArray.size) (hb : s.offset + i < s.base.size) : s.toArray[i] = s.base[s.offset + i] := by
  have hi' : i < s.length := s.size_toArray ▸ hi
  simp only [toArray, Array.getElem_ofFn, get, address_of_contiguous h hi']

theorem toArray_store {s : Strided β} (h : s.contiguous = true) {xs : Array β}
    (hsize : xs.size = s.length) : (s.store xs).toArray = xs := by
  apply Array.ext
  · rw [size_toArray, hsize]
    rfl
  · intro i hi hi'
    have hb := address_lt (s := s) (hsize ▸ hi')
    rw [address_of_contiguous h (hsize ▸ hi')] at hb
    have hb' : s.offset + i < (s.store xs).base.size := by rwa [store, Array.size_ofFn]
    rw [getElem_toArray (s := s.store xs) h hi hb']
    have hwindow : s.offset ≤ s.offset + i ∧ s.offset + i < s.offset + s.length := by omega
    simp [store, hwindow, hi']

theorem store_toArray {s : Strided β} (h : s.contiguous = true) : s.store s.toArray = s := by
  have hbase : (s.store s.toArray).base = s.base := by
    apply Array.ext
    · rw [store, Array.size_ofFn]
    · intro p hp hp'
      simp only [store, Array.getElem_ofFn, Fin.getElem_fin]
      split
      · rename_i hwindow
        have hi : p - s.offset < s.toArray.size := by rw [size_toArray]; omega
        have hadd : s.offset + (p - s.offset) = p := by omega
        simp only [Array.getD_eq_getD_getElem?, Array.getElem?_eq_getElem hi, Option.getD_some]
        rw [getElem_toArray h hi (by omega)]
        simp only [hadd]
      · rfl
  obtain ⟨base, offset, length, stride, inBounds⟩ := s
  simp only [store] at hbase
  simp only [store, hbase]

end Strided

section Steps
variable {σ : Type} {r : Except RunError β} {s s' : σ}

theorem liftRun_eq_ok {b : β} : liftRun r s = .ok b s' ↔ r = .ok b ∧ s' = s := by
  cases r with
  | error e => exact iff_of_false nofun nofun
  | ok c => simp [liftRun, eq_comm]

theorem liftRun_eq_error {e : RunError} : liftRun r s = .error e s' ↔ r = .error e ∧ s' = s := by
  cases r with
  | error e => simp [liftRun, eq_comm]
  | ok c => exact iff_of_false nofun nofun

end Steps

namespace Buffer

theorem window_eq_ok {b : Buffer β} {items : Array β} :
    b.window = .ok items ↔ b.contiguous = true ∧ b.toArray = items := by
  unfold window
  split
  · rename_i hcontiguous
    simp [hcontiguous]
  · rename_i hcontiguous
    refine iff_of_false ?_ fun h => hcontiguous h.1
    cases b <;> exact nofun

/-- Storage for a result: it binds, and it has an item for each of the result. -/
def Takes (b : Buffer β) (items : Array β) : Prop :=
  ∃ old, b.window = .ok old ∧ old.size = items.size

theorem toArray_store {b : Buffer β} {items : Array β} (h : b.Takes items) :
    (b.store items).toArray = items := by
  obtain ⟨old, hwindow, hsize⟩ := h
  obtain ⟨hcontiguous, rfl⟩ := window_eq_ok.1 hwindow
  cases b with
  | list _ => rfl
  | array s => exact Strided.toArray_store hcontiguous (hsize.symm.trans s.size_toArray)
  | view s => exact Strided.toArray_store hcontiguous (hsize.symm.trans s.size_toArray)

theorem store_window {b : Buffer β} {items : Array β} (h : b.window = .ok items) :
    b.store items = b := by
  obtain ⟨hcontiguous, rfl⟩ := window_eq_ok.1 h
  cases b with
  | list _ => rfl
  | array s => exact congrArg array (Strided.store_toArray hcontiguous)
  | view s => exact congrArg view (Strided.store_toArray hcontiguous)

section Overwriting
variable {arg : String} {n : Nat} {write : Vector β n → Vector β n} {b b' : Buffer β}

theorem edit_overwrite_eq_ok {y : Array β} (hsize : y.size = n)
    (hwrite : ∀ items, (write items).toArray = y) :
    edit (overwrite arg n write) b = .ok () b' ↔ b.Takes y ∧ b' = b.store y := by
  rw [edit, Takes]
  cases hwindow : b.window with
  | error e => simp
  | ok items =>
    simp only [overwrite]
    by_cases hitems : items.size = n
    · simp [hitems, hsize, hwrite, eq_comm]
    · simp [hitems, hsize]

theorem edit_overwrite_unchanged {e : RunError}
    (h : edit (overwrite arg n write) b = .error e b') : b' = b := by
  rw [edit] at h
  cases hwindow : b.window with
  | error e =>
    rw [hwindow] at h
    cases h
    rfl
  | ok items =>
    rw [hwindow] at h
    by_cases hsize : items.size = n
    · simp [overwrite, hsize] at h
    · simp only [overwrite, dif_neg hsize] at h
      cases h
      exact store_window hwindow

end Overwriting
end Buffer

/-- A run into storage, measured by the run that returns its result: it succeeds if and only if the
input binds, that run succeeds and the storage takes its result, which then is all that the storage
holds; where it fails the storage is what it was. -/
structure Fills {σ ρ : Type} (takes : σ → ρ → Prop) (contents : σ → ρ) (binds : Prop)
    (result : Except RunError ρ) (act : EStateM RunError σ Unit) : Prop where
  succeeds_iff : ∀ out, (∃ out', act out = .ok () out') ↔
    binds ∧ ∃ y, result = .ok y ∧ takes out y
  filled : ∀ out out', act out = .ok () out' → result = .ok (contents out')
  unchanged : ∀ out e out', act out = .error e out' → out' = out

theorem Fills.of_store {σ ρ : Type} {takes : σ → ρ → Prop} {contents : σ → ρ} {binds : Prop}
    {result : Except RunError ρ} {act : EStateM RunError σ Unit} (store : σ → ρ → σ)
    (hbinds : ∀ y, result = .ok y → binds)
    (hstore : ∀ out y, takes out y → contents (store out y) = y)
    (hok : ∀ out out', act out = .ok () out' ↔
      ∃ y, result = .ok y ∧ takes out y ∧ out' = store out y)
    (hunchanged : ∀ out e out', act out = .error e out' → out' = out) :
    Fills takes contents binds result act where
  succeeds_iff out := by
    constructor
    · rintro ⟨out', h⟩
      obtain ⟨y, hy, htakes, -⟩ := (hok out out').1 h
      exact ⟨hbinds y hy, y, hy, htakes⟩
    · rintro ⟨-, y, hy, htakes⟩
      exact ⟨_, (hok out _).2 ⟨y, hy, htakes, rfl⟩⟩
  filled out out' h := by
    obtain ⟨y, hy, htakes, rfl⟩ := (hok out out').1 h
    rw [hstore out y htakes, hy]
  unchanged := hunchanged

def Buffer.Binds (input : Buffer β) : Prop := ∃ x, input.read = .ok x

section Reading
variable {σ : Type} {r : Except RunError β} {act : β → EStateM RunError σ Unit} {s s' t : σ}

theorem liftRun_bind_eq_ok :
    (liftRun r >>= act) s = .ok () s' ↔ ∃ x, r = .ok x ∧ act x s = .ok () s' := by
  simp only [run_bind_eq_ok, liftRun_eq_ok]
  constructor
  · rintro ⟨x, _, ⟨hr, rfl⟩, hact⟩
    exact ⟨x, hr, hact⟩
  · rintro ⟨x, hr, hact⟩
    exact ⟨x, s, ⟨hr, rfl⟩, hact⟩

theorem liftRun_bind_unchanged {e : RunError} (hact : ∀ x, act x s = .error e s' → s' = s)
    (h : (liftRun r >>= act) s = .error e s') : s' = s := by
  obtain hr | ⟨x, _, hx, hrest⟩ := run_bind_eq_error.1 h
  · exact (liftRun_eq_error.1 hr).2
  · obtain ⟨-, rfl⟩ := liftRun_eq_ok.1 hx
    exact hact x hrest

theorem get_bind_run {act : σ → EStateM RunError σ Unit} : (get >>= act) s = act s s := rfl

theorem set_eq_ok : (set s' : EStateM RunError σ PUnit) s = .ok () t ↔ t = s' :=
  ⟨fun h => by cases h; rfl, fun h => by rw [h]; rfl⟩

end Reading

/-- A sequence written sample by sample over storage of its length. -/
theorem fills_samplewise {f : Array β → Array β}
    {write : (x : Array β) → Vector β x.size → Vector β x.size} (hsize : ∀ x, (f x).size = x.size)
    (hwrite : ∀ x items, (write x items).toArray = f x) (input : Buffer β) :
    Fills Buffer.Takes Buffer.toArray input.Binds
      (do return f (← input.read.mapError RunError.config))
      (do
        let x ← liftRun (input.read.mapError RunError.config)
        Buffer.edit (overwrite "out" x.size (write x))) := by
  have hresult (y : Array β) : (do return f (← input.read.mapError RunError.config)) =
      (.ok y : Except RunError (Array β)) ↔ ∃ x, input.read = .ok x ∧ f x = y := by
    simp only [bind_eq_ok, mapError_eq_ok, pure_eq_ok]
  apply Fills.of_store Buffer.store
  · intro y hy
    obtain ⟨x, hread, -⟩ := (hresult y).1 hy
    exact ⟨x, hread⟩
  · exact fun _ _ => Buffer.toArray_store
  · intro out out'
    simp only [liftRun_bind_eq_ok, mapError_eq_ok,
      Buffer.edit_overwrite_eq_ok (hsize _) (hwrite _), hresult]
    constructor
    · rintro ⟨x, hread, htakes, hout⟩
      exact ⟨f x, ⟨x, hread, rfl⟩, htakes, hout⟩
    · rintro ⟨_, ⟨x, hread, rfl⟩, htakes, hout⟩
      exact ⟨x, hread, htakes, hout⟩
  · intro out e out'
    exact liftRun_bind_unchanged fun x => Buffer.edit_overwrite_unchanged

end AnalyticTrace
