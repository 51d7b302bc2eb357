namespace AnalyticTrace

/-- Evenly spaced entries of a base buffer; the spacing may be negative. -/
structure Strided (β : Type) where
  base : Array β
  offset : Nat
  length : Nat
  stride : Int
  inBounds : ∀ i < length, 0 ≤ offset + i * stride ∧ offset + i * stride < base.size

namespace Strided

variable {β : Type}

def address (s : Strided β) (i : Nat) : Nat := (s.offset + i * s.stride).toNat

theorem address_cast {s : Strided β} {i : Nat} (hi : i < s.length) :
    (s.address i : Int) = s.offset + i * s.stride :=
  Int.toNat_of_nonneg (s.inBounds i hi).1

theorem address_lt {s : Strided β} {i : Nat} (hi : i < s.length) : s.address i < s.base.size := by
  have hb := (s.inBounds i hi).2
  rw [← address_cast hi] at hb
  exact Int.ofNat_lt.mp hb

def get (s : Strided β) (i : Fin s.length) : β :=
  have := address_lt i.isLt
  s.base[s.address i]

/-- The entries in logical order. -/
def toArray (s : Strided β) : Array β := Array.ofFn s.get

/-- One entry has no spacing, so up to one entry any stride will do. -/
def contiguous (s : Strided β) : Bool := s.length ≤ 1 || s.stride = 1

def ofArray (xs : Array β) : Strided β where
  base := xs
  offset := 0
  length := xs.size
  stride := 1
  inBounds i hi := by omega

theorem mul_step (start i step stride : Int) :
    start * stride + i * (stride * step) = (start + i * step) * stride := by
  rw [Int.add_mul, Int.mul_comm stride step, Int.mul_assoc]

/-- The `count` entries at `start`, `start + step`, and so on. -/
def slice (s : Strided β) (start : Nat) (step : Int) (count : Nat)
    (h : ∀ i < count, 0 ≤ start + i * step ∧ start + i * step < s.length) : Strided β where
  base := s.base
  offset := s.address start
  length := count
  stride := s.stride * step
  inBounds i hi := by
    have hs : start < s.length := by have := (h 0 (by omega)).2; omega
    obtain ⟨h0, h1⟩ := h i hi
    have hj := s.inBounds (start + i * step).toNat (by omega)
    rw [Int.toNat_of_nonneg h0] at hj
    rw [address_cast hs, Int.add_assoc, mul_step]
    exact hj

def reverse (s : Strided β) : Strided β :=
  s.slice (s.length - 1) (-1) s.length fun i hi => by omega

theorem mul_lt_of_lt_ceilDiv {i k n : Nat} (hk : 0 < k) (hi : i < (n + k - 1) / k) : i * k < n := by
  have h := (Nat.le_div_iff_mul_le hk).mp hi
  rw [Nat.succ_mul] at h
  omega

/-- Every `k`-th entry, from the first. -/
def every (s : Strided β) (k : Nat) (hk : 0 < k) : Strided β :=
  s.slice 0 k ((s.length + k - 1) / k) fun i hi => by
    have h := mul_lt_of_lt_ceilDiv hk hi
    have hc : ((i * k : Nat) : Int) = i * k := Int.natCast_mul i k
    omega

/-- Puts `xs` where the entries lie if these are contiguous. -/
def store (s : Strided β) (xs : Array β) : Strided β where
  base := Array.ofFn fun p : Fin s.base.size =>
    if s.offset ≤ p ∧ p < s.offset + s.length then xs.getD (p - s.offset) s.base[p] else s.base[p]
  offset := s.offset
  length := s.length
  stride := s.stride
  inBounds i hi := by
    rw [Array.size_ofFn]
    exact s.inBounds i hi

end Strided

/-- Rows and columns of a base buffer, both evenly spaced. -/
structure StridedGrid (β : Type) where
  base : Array β
  offset : Nat
  rows : Nat
  cols : Nat
  rowStride : Int
  colStride : Int
  inBounds : ∀ i < rows, ∀ j < cols,
    0 ≤ offset + i * rowStride + j * colStride ∧
      offset + i * rowStride + j * colStride < base.size

namespace StridedGrid

variable {β : Type}

/-- The address of the first entry of row `i`. -/
def rowOffset (g : StridedGrid β) (i : Nat) : Nat := (g.offset + i * g.rowStride).toNat

theorem rowOffset_cast {g : StridedGrid β} {i : Nat} (hi : i < g.rows) (hc : 0 < g.cols) :
    (g.rowOffset i : Int) = g.offset + i * g.rowStride :=
  Int.toNat_of_nonneg (by have := (g.inBounds i hi 0 hc).1; omega)

def row (g : StridedGrid β) (i : Nat) (hi : i < g.rows) : Strided β where
  base := g.base
  offset := g.rowOffset i
  length := g.cols
  stride := g.colStride
  inBounds j hj := by
    rw [rowOffset_cast hi (by omega)]
    exact g.inBounds i hi j hj

def transpose (g : StridedGrid β) : StridedGrid β where
  base := g.base
  offset := g.offset
  rows := g.cols
  cols := g.rows
  rowStride := g.colStride
  colStride := g.rowStride
  inBounds i hi j hj := by
    have h := g.inBounds j hj i hi
    omega

/-- One row after the other. -/
def rowMajor (rows cols : Nat) (data : Array β) (h : data.size = rows * cols) :
    StridedGrid β where
  base := data
  offset := 0
  rows := rows
  cols := cols
  rowStride := cols
  colStride := 1
  inBounds i hi j hj := by
    have hb : i * cols + j < rows * cols :=
      calc i * cols + j < (i + 1) * cols := by rw [Nat.succ_mul]; omega
        _ ≤ rows * cols := Nat.mul_le_mul_right cols hi
    have hc : ((i * cols : Nat) : Int) = i * cols := Int.natCast_mul i cols
    omega

/-- One column after the other. -/
def columnMajor (rows cols : Nat) (data : Array β) (h : data.size = cols * rows) :
    StridedGrid β :=
  (rowMajor cols rows data h).transpose

/-- The `count` rows at `start`, `start + step`, and so on. -/
def sliceRows (g : StridedGrid β) (start : Nat) (step : Int) (count : Nat)
    (h : ∀ i < count, 0 ≤ start + i * step ∧ start + i * step < g.rows) : StridedGrid β where
  base := g.base
  offset := g.rowOffset start
  rows := count
  cols := g.cols
  rowStride := g.rowStride * step
  colStride := g.colStride
  inBounds i hi j hj := by
    have hs : start < g.rows := by have := (h 0 (by omega)).2; omega
    obtain ⟨h0, h1⟩ := h i hi
    have hj := g.inBounds (start + i * step).toNat (by omega) j hj
    rw [Int.toNat_of_nonneg h0] at hj
    rw [rowOffset_cast hs (by omega), Int.add_assoc g.offset, Strided.mul_step]
    exact hj

def sliceCols (g : StridedGrid β) (start : Nat) (step : Int) (count : Nat)
    (h : ∀ i < count, 0 ≤ start + i * step ∧ start + i * step < g.cols) : StridedGrid β :=
  (g.transpose.sliceRows start step count h).transpose

def reverseRows (g : StridedGrid β) : StridedGrid β :=
  g.sliceRows (g.rows - 1) (-1) g.rows fun i hi => by omega

def reverseCols (g : StridedGrid β) : StridedGrid β := g.transpose.reverseRows.transpose

def everyRow (g : StridedGrid β) (k : Nat) (hk : 0 < k) : StridedGrid β :=
  g.sliceRows 0 k ((g.rows + k - 1) / k) fun i hi => by
    have h := Strided.mul_lt_of_lt_ceilDiv hk hi
    have hc : ((i * k : Nat) : Int) = i * k := Int.natCast_mul i k
    omega

def everyCol (g : StridedGrid β) (k : Nat) (hk : 0 < k) : StridedGrid β :=
  (g.transpose.everyRow k hk).transpose

/-- The columns from `k` on. -/
def dropCols (g : StridedGrid β) (k : Nat) : StridedGrid β :=
  g.sliceCols k 1 (g.cols - k) fun i hi => by omega

end StridedGrid
end AnalyticTrace
