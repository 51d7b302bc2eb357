import AnalyticTrace.Fourier.Spectrum

namespace AnalyticTrace

variable {β : Type} [Zero β]

theorem getD_map_zero {γ : Type} [Zero γ] {f : β → γ} (hf : f 0 = 0) (x : Array β) (i : Nat) :
    (x.map f).getD i 0 = f (x.getD i 0) := by
  rw [Array.getD_eq_getD_getElem?, Array.getD_eq_getD_getElem?, Array.getElem?_map]
  cases x[i]? with
  | none => exact hf.symm
  | some _ => rfl

theorem resize_eq_ofFn (n : Nat) (x : Array β) :
    resize n x = Array.ofFn fun i : Fin n => x.getD i 0 := by
  apply Array.ext_getElem?
  intro i
  simp only [resize, Array.take_eq_extract, Array.getElem?_append, Array.size_extract,
    Array.getElem?_extract, Array.getElem?_replicate, Array.getElem?_ofFn,
    Array.getD_eq_getD_getElem?]
  by_cases hn : i < n
  · by_cases hx : i < x.size
    · rw [if_pos (by omega), if_pos (by omega), dif_pos hn]
      simp [Array.getElem?_eq_getElem hx]
    · rw [if_neg (by omega), if_pos (by omega), dif_pos hn]
      simp [Array.getElem?_eq_none (Nat.le_of_not_lt hx)]
  · rw [if_neg (by omega), if_neg (by omega), dif_neg hn]

end AnalyticTrace
