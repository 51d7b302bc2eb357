import AnalyticTrace.Proofs.Analytic.Equivariance
import AnalyticTrace.Proofs.Attribute.Scaling

namespace AnalyticTrace

section Slopes
variable [Angle] {h : ℝ}

/-- The differences at both ends change places; all of them change their sign. -/
theorem slopeAt_reverse {n : ℕ} {x y : ℕ → ℝ} (hxy : ∀ i j, i + j + 1 = n → y i = x j) {i j : ℕ}
    (hij : i + j + 1 = n) : slopeAt h n y i = -slopeAt h n x j := by
  have hopposite (a b d : ℝ) : (a - b) / d = -((b - a) / d) := by
    rw [← neg_div, neg_sub]
  have hplace : n = 1 ∨ 1 < n ∧ i = 0 ∨ 1 < n ∧ j = 0 ∨ 0 < i ∧ 0 < j := by omega
  rcases hplace with rfl | ⟨hn, rfl⟩ | ⟨hn, rfl⟩ | ⟨hi, hj⟩
  · rw [slopeAt_single, slopeAt_single, neg_zero]
  · rw [slopeAt_left _ _ hn, slopeAt_right _ _ (by omega) (by omega), hxy 0 j hij,
      hxy 1 (j - 1) (by omega), hopposite]
  · rw [slopeAt_right _ _ (by omega) (by omega), slopeAt_left _ _ hn, hxy i 0 hij,
      hxy (i - 1) 1 (by omega), hopposite]
  · rw [slopeAt_inside _ _ hi (by omega), slopeAt_inside _ _ hj (by omega),
      hxy (i + 1) (j - 1) (by omega), hxy (i - 1) (j + 1) (by omega), hopposite]

theorem gradient_reverse (h : ℝ) (x : Array ℝ) :
    gradient h x.reverse = (gradient h x).reverse.map (-·) := by
  apply Array.ext
  · rw [size_gradient, Array.size_reverse, Array.size_map, Array.size_reverse, size_gradient]
  · intro i hi hi'
    have hx : i < x.size := by rwa [size_gradient, Array.size_reverse] at hi
    have hplaces (i j : ℕ) (hij : i + j + 1 = x.size) : x.reverse.getD i 0 = x.getD j 0 := by
      rw [Array.getD_eq_getD_getElem?, Array.getD_eq_getD_getElem?, Array.getElem?_reverse' hij]
    rw [getElem_gradient, Array.getElem_map, Array.getElem_reverse, getElem_gradient,
      Array.size_reverse]
    apply slopeAt_reverse hplaces
    rw [size_gradient]
    omega

end Slopes

/-- What becomes of the attributes of a trace that is read backward. -/
structure ReversedAttributes (f g : Attribute → Array ℝ) : Prop where
  value : g .value = (f .value).reverse
  envelope : g .envelope = (f .envelope).reverse
  bandwidth : g .bandwidth = (f .bandwidth).reverse
  hilbert : g .hilbert = (f .hilbert).reverse.map (-·)

theorem norm_conj [Angle] (z : Cplx ℝ) : z.conj.norm = z.norm := by
  have hsquare : (-z.im) ^ 2 = z.im ^ 2 := neg_sq z.im
  exact congrArg (fun s => √(z.re ^ 2 + s)) hsquare

namespace AttributeExtractor

theorem bandwidth_reverse [Angle] (dt : ℝ) (envelope : Array ℝ) :
    bandwidth dt envelope.reverse = (bandwidth dt envelope).reverse := by
  rw [bandwidth, gradient_reverse, bandwidth, Array.reverse_zipWith (size_gradient dt envelope),
    Array.zipWith_map_left]
  congr 1
  funext d e
  simp only [Sample.abs, abs_neg]

theorem reversedAttributes_attributeOf [Angle] (dt : ℝ) (x : Array ℝ) (analytic : Array (Cplx ℝ)) :
    ReversedAttributes (attributeOf dt x analytic)
      (attributeOf dt x.reverse (analytic.reverse.map Cplx.conj)) := by
  have henvelope : (Polar.ofAnalytic (analytic.reverse.map Cplx.conj)).envelope =
      (Polar.ofAnalytic analytic).envelope.reverse := by
    simp only [Polar.ofAnalytic, Array.map_map, Array.map_reverse, Function.comp_def, norm_conj]
  exact {
    value := rfl
    envelope := henvelope
    bandwidth := by
      rw [attributeOf, henvelope]
      exact bandwidth_reverse dt _
    hilbert := by
      simp only [attributeOf, Polar.ofAnalytic, Array.map_map, Array.map_reverse,
        Function.comp_def, Cplx.conj] }

/-- Read backward, a trace has its envelope and bandwidth backward and its quadrature backward and
upside down. -/
theorem run_reversed [Angle] [Transform ℝ] [ExactTransform] {x : Array ℝ} (hx : 0 < x.size)
    (dt : ℝ) :
    ∃ f g : Attribute → Array ℝ, (∀ a, (f a).size = x.size) ∧ ReversedAttributes f g ∧
      ∀ attributes parallel k, ofConfig ⟨attributes, dt, parallel⟩ = .ok k →
        ∀ input reversed : Buffer ℝ, input.read = .ok x → reversed.read = .ok x.reverse →
          k.run input = .ok (attributes.map f) ∧ k.run reversed = .ok (attributes.map g) := by
  have : NeZero x.size := ⟨hx.ne'⟩
  refine ⟨_, _, size_attributeOf dt (Vector.size_toArray (analyticVector x.size x)),
    reversedAttributes_attributeOf dt x (analyticVector x.size x).toArray, ?_⟩
  intro attributes parallel k hk input reversed hread hread'
  obtain ⟨rfl, -, -, -⟩ := ofConfig_eq_ok.1 hk
  have hsize : x.reverse.size = x.size := Array.size_reverse
  have hreverse : analyticVector x.size x.reverse =
      (analyticVector x.size x).reverse.map Cplx.conj := analyticVector_reverse x.toVector
  constructor
  · rw [run_of_read _ hread, runTrace_eq _ hx]
  · rw [run_of_read _ hread', runTrace_eq _ (hx.trans_eq hsize.symm), hsize, hreverse,
      Vector.toArray_map, Vector.toArray_reverse]

theorem run_reversed_three :
    ofConfig ⟨[.bandwidth, .hilbert, .envelope], (1 / 2 : ℝ), false⟩ =
        .ok ⟨[.bandwidth, .hilbert, .envelope], 1 / 2, false⟩ ∧
      ∃ bandwidth hilbert envelope : Array ℝ, hilbert.size = 3 ∧
        run ⟨[.bandwidth, .hilbert, .envelope], 1 / 2, false⟩ (.list #[(1 : ℝ), -2, 3]) =
          .ok [bandwidth, hilbert, envelope] ∧
        run ⟨[.bandwidth, .hilbert, .envelope], 1 / 2, false⟩ (.list #[(3 : ℝ), -2, 1]) =
          .ok [bandwidth.reverse, hilbert.reverse.map (-·), envelope.reverse] := by
  have hconfig : ofConfig ⟨[.bandwidth, .hilbert, .envelope], (1 / 2 : ℝ), false⟩ =
      .ok ⟨[.bandwidth, .hilbert, .envelope], 1 / 2, false⟩ :=
    ofConfig_real_eq_ok.2 ⟨rfl, List.cons_ne_nil _ _, by decide, half_pos one_pos⟩
  have hread : (Buffer.list #[(3 : ℝ), -2, 1]).read = .ok #[(1 : ℝ), -2, 3].reverse := by
    simp [Buffer.read, Buffer.contiguous, Buffer.toArray]
  obtain ⟨f, g, hsize, hreversed, hrun⟩ :=
    run_reversed (x := #[(1 : ℝ), -2, 3]) (by decide) (1 / 2)
  obtain ⟨hforward, hbackward⟩ :=
    hrun _ _ _ hconfig (.list #[1, -2, 3]) (.list #[3, -2, 1]) rfl hread
  refine ⟨hconfig, f .bandwidth, f .hilbert, f .envelope, hsize .hilbert, hforward, ?_⟩
  rw [hbackward, List.map_cons, List.map_cons, List.map_cons, List.map_nil, hreversed.bandwidth,
    hreversed.hilbert, hreversed.envelope]

end AttributeExtractor
end AnalyticTrace
