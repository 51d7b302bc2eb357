import AnalyticTrace.Contract.Baseline
import AnalyticTrace.Proofs.Storage.RunInto

namespace AnalyticTrace

variable {α : Type} [Sample α] {dt : α}

/-- `y` is the derivative of `x` for samples `dt` apart, slot by slot. -/
structure IsDerivative (dt : α) (x y : Array α) : Prop where
  size : y.size = x.size
  single : x.size = 1 → y[0]? = some 0
  left : 1 < x.size → y[0]? = some ((x.getD 1 0 - x.getD 0 0) / dt)
  right : 1 < x.size →
    y[x.size - 1]? = some ((x.getD (x.size - 1) 0 - x.getD (x.size - 2) 0) / dt)
  inside : ∀ i, 0 < i → i + 1 < x.size →
    y[i]? = some ((x.getD (i + 1) 0 - x.getD (i - 1) 0) / (Sample.two * dt))

theorem getElem?_gradient (h : α) (x : Array α) {i : Nat} (hi : i < x.size) :
    (gradient h x)[i]? = some (slopeAt h x.size (x.getD · 0) i) := by
  have hi' : i < (gradient h x).size := size_gradient h x ▸ hi
  rw [Array.getElem?_eq_getElem hi', getElem_gradient]

theorem isDerivative_gradient (htwo : dt + dt = Sample.two * dt) (x : Array α) :
    IsDerivative dt x (gradient dt x) where
  size := size_gradient dt x
  single hx := by
    rw [getElem?_gradient dt x (by omega), hx, slopeAt_single]
  left hx := by
    rw [getElem?_gradient dt x (by omega), slopeAt_left _ _ hx]
  right hx := by
    have hlast : x.size - 1 + 1 = x.size := Nat.sub_add_cancel (Nat.le_of_lt hx)
    rw [getElem?_gradient dt x (by omega), slopeAt_right _ _ (Nat.sub_pos_of_lt hx) hlast]
    rfl
  inside i h0 hi := by
    rw [getElem?_gradient dt x (Nat.lt_of_succ_lt hi), slopeAt_inside _ _ h0 hi, htwo]

/-- Samples and rules determine a derivative. -/
theorem IsDerivative.unique {x y z : Array α} (hy : IsDerivative dt x y)
    (hz : IsDerivative dt x z) : y = z := by
  apply Array.ext_getElem?
  intro i
  by_cases hi : i < x.size
  · have hplace : x.size = 1 ∧ i = 0 ∨ 1 < x.size ∧ i = 0 ∨ 1 < x.size ∧ i = x.size - 1 ∨
        0 < i ∧ i + 1 < x.size := by omega
    rcases hplace with ⟨hone, rfl⟩ | ⟨hmany, rfl⟩ | ⟨hmany, rfl⟩ | ⟨h0, hinside⟩
    · rw [hy.single hone, hz.single hone]
    · rw [hy.left hmany, hz.left hmany]
    · rw [hy.right hmany, hz.right hmany]
    · rw [hy.inside i h0 hinside, hz.inside i h0 hinside]
  · have hle : x.size ≤ i := Nat.le_of_not_lt hi
    rw [Array.getElem?_eq_none (hy.size.trans_le hle),
      Array.getElem?_eq_none (hz.size.trans_le hle)]

namespace Baseline

theorem isDerivative_gradient (dt : α) (x : Array α) : IsDerivative dt x (gradient x dt) where
  size := Array.size_ofFn
  single hx := by
    simp [gradient, hx]
  left hx := by
    have h0 : 0 < x.size := Nat.zero_lt_of_lt hx
    simp [gradient, hx, h0, Nat.not_lt.2 hx]
  right hx := by
    have hend : x.size - 1 < x.size := by omega
    have hlast : x.size - 1 ≠ 0 := by omega
    have hbefore : x.size - 2 < x.size := by omega
    simp [gradient, Nat.not_lt.2 hx, hend, hlast, hbefore]
  inside i h0 hi := by
    have hx : 1 < x.size := by omega
    have hlast : i ≠ x.size - 1 := by omega
    have hbefore : i - 1 < x.size := by omega
    simp [gradient, hi, Nat.lt_of_succ_lt hi, Nat.not_lt.2 hx, h0.ne', hlast, hbefore]

theorem gradient_eq (htwo : dt + dt = Sample.two * dt) (x : Array α) :
    gradient x dt = AnalyticTrace.gradient dt x :=
  (isDerivative_gradient dt x).unique (AnalyticTrace.isDerivative_gradient htwo x)

end Baseline

namespace Differentiator

/-- Every way to the derivative leads to the same samples, where doubling the spacing is the same as
adding it to itself; what the caller's storage held does not matter. -/
theorem runs_eq_baseline {arg : String} (hdt : checkSpacing dt arg = .ok ())
    (htwo : dt + dt = Sample.two * dt) (x : Array α) :
    IsDerivative dt x (Baseline.gradient x dt) ∧
      timeDerivative x dt = .ok (Baseline.gradient x dt) ∧
      ∃ d : Differentiator α, ofConfig ⟨dt⟩ = .ok d ∧
        ∀ input : Buffer α, input.read = .ok x →
          d.run input = .ok (Baseline.gradient x dt) ∧
            ∀ out : Buffer α, out.Takes (Baseline.gradient x dt) →
              ∃ out', d.runInto input out = .ok () out' ∧
                out'.toArray = Baseline.gradient x dt := by
  rw [Baseline.gradient_eq htwo]
  refine ⟨isDerivative_gradient htwo x, timeDerivative_eq hdt x, _, ofConfig_of_spacing hdt, ?_⟩
  intro input hread
  have hrun : run ⟨dt⟩ input = .ok (gradient dt x) := run_of_read ⟨dt⟩ hread
  refine ⟨hrun, ?_⟩
  intro out htakes
  have hfills := runInto_fills ⟨dt⟩ input
  obtain ⟨out', hout⟩ := (hfills.succeeds_iff out).2 ⟨⟨x, hread⟩, _, hrun, htakes⟩
  have hcontents := hfills.filled out out' hout
  rw [hrun, Except.ok.injEq] at hcontents
  exact ⟨out', hout, hcontents.symm⟩

theorem runs_eq_baseline_three :
    checkSpacing (0.5 : Float) "spacing" = .ok () ∧
      (0.5 : Float) + 0.5 = Sample.two * 0.5 ∧
      timeDerivative #[(1 : Float), 4, 9] 0.5 = .ok (Baseline.gradient #[1, 4, 9] 0.5) ∧
      ∃ out', runInto ⟨0.5⟩ (.list #[(1 : Float), 4, 9]) (.list #[7, 7, 7]) = .ok () out' ∧
        out'.toArray = Baseline.gradient #[1, 4, 9] 0.5 := by
  have hdt : checkSpacing (0.5 : Float) "spacing" = .ok () := by decide +kernel
  have htwo : (0.5 : Float) + 0.5 = Sample.two * 0.5 := by decide +kernel
  obtain ⟨hderivative, htime, d, hd, hruns⟩ := runs_eq_baseline hdt htwo #[1, 4, 9]
  rw [ofConfig_of_spacing hdt, Except.ok.injEq] at hd
  subst d
  obtain ⟨-, hinto⟩ := hruns (.list #[1, 4, 9]) rfl
  have htakes : (Buffer.list #[(7 : Float), 7, 7]).Takes (Baseline.gradient #[1, 4, 9] 0.5) :=
    ⟨_, rfl, by simp [hderivative.size, Buffer.toArray]⟩
  exact ⟨hdt, htwo, htime, hinto _ htakes⟩

end Differentiator
end AnalyticTrace
