import AnalyticTrace.Proofs.Unwrap.Nearest

namespace AnalyticTrace.Unwrapper

section Exact
variable [Angle] {u : Unwrapper ℝ}

/-- Whole periods on top of a jump of less than half of one are recognised. -/
theorem wrapJump_add_periods {δ : ℝ} (hδ : |δ| < u.period / 2) (m : ℤ) :
    u.wrapJump (δ + m * u.period) = δ := by
  rw [wrapJump_eq_iff (pos_of_abs_lt_half hδ)]
  exact nearest_of_abs_lt hδ ⟨-m, by push_cast; ring⟩

/-- A sequence `θ` that moves by less than half a period at a time, of which `p` has every sample up
to whole periods, `m i` of them at sample `i`. -/
structure Wraps (u : Unwrapper ℝ) (θ : ℕ → ℝ) (m : ℕ → ℤ) (p : Array ℝ) : Prop where
  samples : ∀ i (hi : i < p.size), p[i] = θ i + m i * u.period
  steps : ∀ i, i + 1 < p.size → |θ (i + 1) - θ i| < u.period / 2

theorem periods_eq_zero {period δ : ℝ} {m : ℤ} (hδ : |δ| < period / 2)
    (hjump : |δ + m * period| < period / 2) : m = 0 := by
  have hpos := pos_of_abs_lt_half hδ
  have hsame : δ + m * period = δ :=
    (nearest_of_abs_lt hjump ⟨m, rfl⟩).unique hpos (nearest_of_abs_lt hδ ⟨0, by simp⟩)
  have hnone : m * period = 0 := add_eq_left.1 hsame
  exact_mod_cast (mul_eq_zero.1 hnone).resolve_right hpos.ne'

section Steps
variable (hd : u.discont = u.period / 2)
include hd

theorem correct_add_periods {δ : ℝ} (hδ : |δ| < u.period / 2) (m : ℤ) (c : ℝ) :
    u.correct c (δ + m * u.period) = c - m * u.period := by
  rw [correct, wrapJump_add_periods hδ]
  split
  · ring
  · rename_i hsmall
    have hjump : |δ + m * u.period| < u.period / 2 := hd ▸ not_le.1 hsmall
    rw [periods_eq_zero hδ hjump, Int.cast_zero, zero_mul, sub_zero]

/-- What every correction adds up to: the periods that the first sample has more than this one. -/
theorem Wraps.correctionAt_eq {θ : ℕ → ℝ} {m : ℕ → ℤ} {p : Array ℝ} (h : u.Wraps θ m p) {i : ℕ}
    (hi : i < p.size) : u.correctionAt p i = (m 0 - m i) * u.period := by
  induction i with
  | zero =>
    rw [sub_self, zero_mul]
    rfl
  | succ i ih =>
    have hprevious := Nat.lt_of_succ_lt hi
    have hjump : p[i + 1] - p[i] =
        θ (i + 1) - θ i + ((m (i + 1) - m i : ℤ) : ℝ) * u.period := by
      rw [h.samples _ hi, h.samples _ hprevious]
      push_cast
      ring
    rw [correctionAt_succ u hi, hjump, correct_add_periods hd (h.steps i hi), ih hprevious]
    push_cast
    ring

/-- The sequence comes back, moved as a whole by the periods of the first sample. -/
theorem Wraps.unwrappedAt_eq {θ : ℕ → ℝ} {m : ℕ → ℤ} {p : Array ℝ} (h : u.Wraps θ m p) {i : ℕ}
    (hi : i < p.size) : u.unwrappedAt p i = θ i + m 0 * u.period := by
  have hsample : p.getD i 0 = θ i + m i * u.period := by
    rw [← Array.getElem_eq_getD (h := hi)]
    exact h.samples i hi
  rw [unwrappedAt, h.correctionAt_eq hd hi, hsample]
  split
  · subst i
    rfl
  · ring

end Steps

/-- Whatever periods were taken off a sequence that moves by less than half a period at a time, it
comes back, moved as a whole by those of its first sample. -/
theorem run_wrapped {config : Config ℝ} (hconfig : ofConfig config = .ok u)
    (hdiscont : ∀ d ∈ config.discont, d ≤ config.period / 2) {n : ℕ} {θ : ℕ → ℝ}
    (hsteps : ∀ i, i + 1 < n → |θ (i + 1) - θ i| < config.period / 2) (m : ℕ → ℤ)
    {input : Buffer ℝ}
    (hread : input.read = .ok (Array.ofFn fun i : Fin n => θ i + m i * config.period)) :
    u.run input = .ok (Array.ofFn fun i : Fin n => θ i + m 0 * config.period) := by
  obtain ⟨-, rfl⟩ := ofConfig_eq_ok.1 hconfig
  rw [config.threshold_of_le hdiscont]
  have hwraps : Wraps ⟨config.period / 2, config.period⟩ θ m
      (Array.ofFn fun i : Fin n => θ i + m i * config.period) := by
    refine ⟨fun i hi => Array.getElem_ofFn .., fun i hi => hsteps i ?_⟩
    rwa [Array.size_ofFn] at hi
  rw [run_of_read _ hread, Except.ok.injEq]
  apply Array.ext
  · rw [size_runTrace, Array.size_ofFn, Array.size_ofFn]
  · intro i hi hi'
    have hp := size_runTrace (α := ℝ) _ _ ▸ hi
    rw [getElem_runTrace_eq, hwraps.unwrappedAt_eq rfl hp, Array.getElem_ofFn]

end Exact

/-- Five periods at the start, then one less at every sample; each jump is longer than half of
one. -/
theorem run_wrapped_ramp :
    ofConfig ⟨some (-1), (4 : ℝ)⟩ = .ok ⟨2, 4⟩ ∧ (-1 : ℝ) ≤ 4 / 2 ∧
      (∀ i : ℕ, i + 1 < 3 → |((i + 1 : ℕ) : ℝ) - i| < 4 / 2) ∧
        run ⟨2, 4⟩ (.list #[(20 : ℝ), 17, 14]) = .ok #[20, 21, 22] := by
  have hle : (-1 : ℝ) ≤ 4 / 2 := by norm_num
  have hdiscont : ∀ d ∈ some (-1 : ℝ), d ≤ 4 / 2 := fun d hd => Option.some.inj hd ▸ hle
  have hthreshold : (⟨some (-1), 4⟩ : Config ℝ).threshold = 2 :=
    (Config.threshold_of_le hdiscont).trans (by norm_num)
  have hconfig : ofConfig ⟨some (-1), (4 : ℝ)⟩ = .ok ⟨2, 4⟩ :=
    ofConfig_eq_ok.2 ⟨by norm_num, by rw [hthreshold]⟩
  have hsteps : ∀ i : ℕ, i + 1 < 3 → |((i + 1 : ℕ) : ℝ) - i| < 4 / 2 := by
    intro i _
    rw [Nat.cast_succ, add_sub_cancel_left, abs_one]
    norm_num
  have hsamples : #[(20 : ℝ), 17, 14] =
      Array.ofFn fun i : Fin 3 => ((i : ℕ) : ℝ) + ((5 - (i : ℕ) : ℤ) : ℝ) * 4 :=
    Array.ext' (by norm_num [List.ofFn_succ])
  have hread : (Buffer.list #[(20 : ℝ), 17, 14]).read =
      .ok (Array.ofFn fun i : Fin 3 => ((i : ℕ) : ℝ) + ((5 - (i : ℕ) : ℤ) : ℝ) * 4) :=
    congrArg Except.ok hsamples
  have hunwrapped : Array.ofFn (fun i : Fin 3 => ((i : ℕ) : ℝ) + ((5 - (0 : ℕ) : ℤ) : ℝ) * 4) =
      #[20, 21, 22] :=
    Array.ext' (by norm_num [List.ofFn_succ])
  have hrun := run_wrapped hconfig hdiscont hsteps (fun i => 5 - i) hread
  exact ⟨hconfig, hle, hsteps, hrun.trans (congrArg Except.ok hunwrapped)⟩

end AnalyticTrace.Unwrapper
