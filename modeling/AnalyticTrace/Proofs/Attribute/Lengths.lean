import AnalyticTrace.Attribute.Extractor

namespace AnalyticTrace

variable {α : Type}

theorem AttributeExtractor.eq_value_of_needsAnalytic {k : AttributeExtractor α}
    (h : k.needsAnalytic = false) {a : Attribute} (ha : a ∈ k.attributes) : a = .value := by
  have hneeds := List.any_eq_false.1 h a ha
  simpa [Attribute.needsAnalytic] using hneeds

variable [Sample α]

theorem length_centralDifferences (h a b : α) (cs : List α) :
    (centralDifferences h a b cs).length = cs.length + 1 := by
  induction cs generalizing a b with
  | nil => rfl
  | cons c cs ih => rw [centralDifferences, List.length_cons, ih, List.length_cons]

theorem length_gradientList (h : α) (xs : List α) :
    (gradientList h xs).length = xs.length := by
  match xs with
  | [] => rfl
  | [_] => rfl
  | a :: b :: cs =>
    rw [gradientList, List.length_cons, length_centralDifferences, List.length_cons,
      List.length_cons]

theorem size_gradient (h : α) (x : Array α) : (gradient h x).size = x.size := by
  rw [gradient, List.size_toArray, length_gradientList, Array.length_toList]

namespace Unwrapper

theorem length_follow (u : Unwrapper α) (previous correction : α) (xs : List α) :
    (u.follow previous correction xs).length = xs.length := by
  induction xs generalizing previous correction with
  | nil => rfl
  | cons x xs ih => rw [follow, List.length_cons, ih, List.length_cons]

theorem size_runTrace (u : Unwrapper α) (p : Array α) : (u.runTrace p).size = p.size := by
  rw [runTrace, List.size_toArray, ← Array.length_toList]
  cases p.toList with
  | nil => rfl
  | cons x xs => rw [runList, List.length_cons, length_follow, List.length_cons]

end Unwrapper

namespace AttributeExtractor

theorem size_frequency (dt : α) (phase : Array α) : (frequency dt phase).size = phase.size := by
  rw [frequency, Array.size_map, size_gradient]
  exact Unwrapper.size_runTrace _ _

theorem size_bandwidth (dt : α) (envelope : Array α) :
    (bandwidth dt envelope).size = envelope.size := by
  rw [bandwidth, Array.size_zipWith, size_gradient, Nat.min_self]

theorem size_sweetness {envelope frequency : Array α} (h : frequency.size = envelope.size) :
    (sweetness envelope frequency).size = envelope.size := by
  rw [sweetness, Array.size_zipWith, h, Nat.min_self]

end AttributeExtractor
end AnalyticTrace
