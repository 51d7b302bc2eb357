import AnalyticTrace.Proofs.Storage.Filling

namespace AnalyticTrace

variable {β : Type}

namespace Strided

theorem contiguous_iff {s : Strided β} : s.contiguous = true ↔ s.length ≤ 1 ∨ s.stride = 1 := by
  rw [contiguous, Bool.or_eq_true, decide_eq_true_iff, decide_eq_true_iff]

theorem toArray_eq_extract {s : Strided β} (h : s.contiguous = true) :
    s.toArray = s.base.extract s.offset (s.offset + s.length) := by
  apply Array.ext
  · rw [size_toArray, Array.size_extract]
    obtain hempty | hpos := Nat.eq_zero_or_pos s.length
    · omega
    · have hlast : s.length - 1 < s.length := by omega
      have hlt := address_lt hlast
      rw [address_of_contiguous h hlast] at hlt
      omega
  · intro i hi hi'
    rw [Array.getElem_extract, getElem_toArray h hi]

theorem get_eq_of_address {s t : Strided β} (hbase : s.base = t.base) {i : Fin s.length}
    {j : Fin t.length} (h : (s.address i : Int) = t.address j) : s.get i = t.get j := by
  have haddress : s.address i = t.address j := Int.ofNat_inj.1 h
  simp only [get, hbase, haddress]

theorem getElem?_toArray (s : Strided β) {i : Nat} (hi : i < s.length) :
    s.toArray[i]? = some (s.get ⟨i, hi⟩) := by
  rw [toArray, Array.getElem?_ofFn, dif_pos hi]

theorem getElem?_toArray_of_le {s : Strided β} {i : Nat} (hi : s.length ≤ i) :
    s.toArray[i]? = none :=
  Array.getElem?_eq_none (s.size_toArray ▸ hi)

theorem get_slice {s : Strided β} {start : Nat} {step : Int} {count i j : Nat}
    {h : ∀ i < count, 0 ≤ start + i * step ∧ start + i * step < s.length} (hi : i < count)
    (hj : j < s.length) (heq : (j : Int) = start + i * step) :
    (s.slice start step count h).get ⟨i, hi⟩ = s.get ⟨j, hj⟩ := by
  have hs : start < s.length := by have := (h 0 (Nat.zero_lt_of_lt hi)).2; omega
  have hslice : ((s.slice start step count h).address i : Int) =
      s.address start + i * (s.stride * step) :=
    address_cast (s := s.slice start step count h) hi
  have haddress : ((s.slice start step count h).address i : Int) = s.address j := by
    rw [hslice, address_cast hs, address_cast hj, Int.add_assoc, mul_step, heq]
  exact get_eq_of_address (s := s.slice start step count h) (t := s) (i := ⟨i, hi⟩)
    (j := ⟨j, hj⟩) rfl haddress

theorem toArray_reverse (s : Strided β) : s.reverse.toArray = s.toArray.reverse := by
  apply Array.ext_getElem?
  intro i
  by_cases hi : i < s.length
  · have hj : s.length - 1 - i < s.length := by omega
    have hget : s.reverse.get ⟨i, hi⟩ = s.get ⟨s.length - 1 - i, hj⟩ :=
      get_slice hi hj (by omega)
    rw [getElem?_toArray s.reverse hi, Array.getElem?_reverse (s.size_toArray.symm ▸ hi),
      s.size_toArray, getElem?_toArray s hj, hget]
  · have hsize : s.toArray.reverse.size ≤ i := by
      rw [Array.size_reverse, size_toArray]
      omega
    rw [getElem?_toArray_of_le (s := s.reverse) (Nat.not_lt.1 hi), Array.getElem?_eq_none hsize]

/-- Every `k`-th entry is an entry that lies `k` times as far. -/
theorem getElem?_every (s : Strided β) {k : Nat} (hk : 0 < k) (i : Nat) :
    (s.every k hk).toArray[i]? = s.toArray[i * k]? := by
  by_cases hi : i < (s.length + k - 1) / k
  · have hj := mul_lt_of_lt_ceilDiv hk hi
    have hget : (s.every k hk).get ⟨i, hi⟩ = s.get ⟨i * k, hj⟩ :=
      get_slice hi hj (by simp)
    rw [getElem?_toArray (s.every k hk) hi, getElem?_toArray s hj, hget]
  · have hj : s.length ≤ i * k := by
      have hdiv := (Nat.div_lt_iff_lt_mul hk).1 (Nat.lt_succ_of_le (Nat.not_lt.1 hi))
      rw [Nat.succ_mul] at hdiv
      omega
    rw [getElem?_toArray_of_le (s := s.every k hk) (Nat.not_lt.1 hi), getElem?_toArray_of_le hj]

end Strided

namespace StridedGrid

/-- The entry in row `i` and column `j`. -/
def entry (g : StridedGrid β) (i : Fin g.rows) (j : Fin g.cols) : β := (g.row i i.isLt).get j

/-- The rows in logical order. -/
def traces (g : StridedGrid β) : List (Array β) :=
  List.ofFn fun i : Fin g.rows => (g.row i i.isLt).toArray

theorem address_row {g : StridedGrid β} {i j : Nat} (hi : i < g.rows) (hj : j < g.cols) :
    ((g.row i hi).address j : Int) = g.offset + i * g.rowStride + j * g.colStride := by
  have hrow : ((g.row i hi).address j : Int) = g.rowOffset i + j * g.colStride :=
    Strided.address_cast (s := g.row i hi) hj
  rw [hrow, rowOffset_cast hi (Nat.zero_lt_of_lt hj)]

theorem entry_eq_of_address (g g' : StridedGrid β) (hbase : g.base = g'.base) {i : Fin g.rows}
    {j : Fin g.cols} {i' : Fin g'.rows} {j' : Fin g'.cols}
    (h : (g.offset + i * g.rowStride + j * g.colStride : Int) =
      g'.offset + i' * g'.rowStride + j' * g'.colStride) : g.entry i j = g'.entry i' j' := by
  rw [← address_row i.isLt j.isLt, ← address_row i'.isLt j'.isLt] at h
  exact Strided.get_eq_of_address (s := g.row i i.isLt) (t := g'.row i' i'.isLt) hbase h

theorem entry_transpose (g : StridedGrid β) (i : Fin g.rows) (j : Fin g.cols) :
    g.transpose.entry j i = g.entry i j := by
  refine entry_eq_of_address g.transpose g rfl ?_
  simp only [transpose]
  omega

theorem entry_sliceRows {g : StridedGrid β} {start : Nat} {step : Int} {count : Nat}
    {h : ∀ i < count, 0 ≤ start + i * step ∧ start + i * step < g.rows} {i : Fin count}
    {i' : Fin g.rows} (hi : (i'.val : Int) = start + i * step) (j : Fin g.cols) :
    (g.sliceRows start step count h).entry i j = g.entry i' j := by
  have hs : start < g.rows := by have := (h 0 (Nat.zero_lt_of_lt i.isLt)).2; omega
  refine entry_eq_of_address (g.sliceRows start step count h) g rfl ?_
  simp only [sliceRows]
  rw [rowOffset_cast hs (Nat.zero_lt_of_lt j.isLt), Int.add_assoc g.offset, Strided.mul_step, hi]

theorem entry_sliceCols {g : StridedGrid β} {start : Nat} {step : Int} {count : Nat}
    {h : ∀ j < count, 0 ≤ start + j * step ∧ start + j * step < g.cols} {j : Fin count}
    {j' : Fin g.cols} (hj : (j'.val : Int) = start + j * step) (i : Fin g.rows) :
    (g.sliceCols start step count h).entry i j = g.entry i j' := by
  have hslice : (g.transpose.sliceRows start step count h).entry j i = g.transpose.entry j' i :=
    entry_sliceRows (g := g.transpose) hj i
  exact (entry_transpose (g.transpose.sliceRows start step count h) j i).trans
    (hslice.trans (g.entry_transpose i j'))

theorem getElem?_entry (g : StridedGrid β) (i : Fin g.rows) (j : Fin g.cols) {p : Nat}
    (hp : (p : Int) = g.offset + i * g.rowStride + j * g.colStride) :
    g.base[p]? = some (g.entry i j) := by
  rw [← address_row i.isLt j.isLt, Int.ofNat_inj] at hp
  have hlt := Strided.address_lt (s := g.row i i.isLt) j.isLt
  subst hp
  exact Array.getElem?_eq_getElem hlt

theorem entry_rowMajor {rows cols : Nat} {data : Array β} (h : data.size = rows * cols)
    (i : Fin rows) (j : Fin cols) :
    data[i.val * cols + j]? = some ((rowMajor rows cols data h).entry i j) := by
  refine getElem?_entry (rowMajor rows cols data h) i j ?_
  simp [rowMajor]

theorem entry_columnMajor {rows cols : Nat} {data : Array β} (h : data.size = cols * rows)
    (i : Fin rows) (j : Fin cols) :
    data[j.val * rows + i]? = some ((columnMajor rows cols data h).entry i j) := by
  have htranspose := (rowMajor cols rows data h).entry_transpose j i
  exact (entry_rowMajor h j i).trans (congrArg some htranspose.symm)

end StridedGrid
end AnalyticTrace
