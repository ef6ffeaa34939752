import PaimonVindex.Lib.Rows

/-! A table stored in blocks of rows, each block column by column: the stride of
a column is the number of rows of its block, which is smaller in the last one. -/

namespace Blocks

open Words List

variable {α β : Type}

/-- Inside a concatenation of pieces of one width, where only the last ones may differ. -/
theorem getElem?_flatMap_range {f : Nat → List α} {n b w k : Nat} (hb : b < n)
    (hw : ∀ i < b, (f i).length = w) (hk : k < (f b).length) :
    ((List.range n).flatMap f)[b * w + k]? = (f b)[k]? := by
  obtain ⟨m, rfl⟩ : ∃ m, n = b + (m + 1) := ⟨n - b - 1, by omega⟩
  have hfront : ((List.range b).flatMap f).length = b * w := by
    rw [flatMap_length_of_width fun i hi => hw i (mem_range.mp hi), length_range]
  have hsplit : (List.range (b + (m + 1))).flatMap f = (List.range b).flatMap f ++
      (f b ++ ((List.range m).map fun i => b + (i + 1)).flatMap f) := by
    rw [range_add, flatMap_append, range_succ_eq_map, map_cons,
      flatMap_cons, Nat.add_zero, map_map]
    rfl
  rw [hsplit, List.getElem?_append_right (by omega), hfront, Nat.add_sub_cancel_left,
    List.getElem?_append_left hk]

/-- Two nested loops are one over the pairs. -/
theorem flatMap_range_mul (f : Nat → List α) (a b : Nat) :
    ((List.range a).flatMap fun i => (List.range b).flatMap fun j => f (i * b + j)) =
      (List.range (a * b)).flatMap f := by
  induction a with
  | zero => simp
  | succ a ih =>
    rw [range_succ, flatMap_append, ih, flatMap_singleton, Nat.succ_mul,
      range_add, flatMap_append, flatMap_map]

def columns (rows : List α) (width : Nat) (cell : α → Nat → β) : List β :=
  (List.range width).flatMap fun column => rows.map fun row => cell row column

theorem columns_length (rows : List α) (width : Nat) (cell : α → Nat → β) :
    (columns rows width cell).length = width * rows.length := by
  rw [columns, flatMap_length_of_width fun _ _ => length_map _, length_range]

theorem columns_getElem? {rows : List α} {width column lane : Nat} (cell : α → Nat → β)
    (hcolumn : column < width) (hlane : lane < rows.length) :
    (columns rows width cell)[column * rows.length + lane]? =
      some (cell (rows.get ⟨lane, hlane⟩) column) := by
  refine (getElem?_flatMap_range hcolumn (fun i _ => length_map _)
    (by rw [length_map]; exact hlane)).trans ?_
  rw [List.getElem?_map, List.getElem?_eq_getElem hlane, Option.map_some, get_eq_getElem]

def blockRows (size : Nat) (rows : List α) (block : Nat) : List α :=
  (rows.drop (block * size)).take size

def blocked (size : Nat) (rows : List α) (width : Nat) (cell : α → Nat → β) : List β :=
  (List.range ((rows.length + size - 1) / size)).flatMap fun block =>
    columns (blockRows size rows block) width cell

theorem blockRows_length (size : Nat) (rows : List α) (block : Nat) :
    (blockRows size rows block).length = min size (rows.length - block * size) := by
  rw [blockRows, length_take, length_drop]

section Cells

variable {size width : Nat} {rows : List α} (hsize : 0 < size)

include hsize

theorem block_lt_count {row : Nat} (hrow : row < rows.length) :
    row / size < (rows.length + size - 1) / size := by
  have hlast : row / size ≤ (rows.length - 1) / size := Nat.div_le_div_right (by omega)
  have hcount : (rows.length + size - 1) / size = (rows.length - 1) / size + 1 := by
    have hsplit : rows.length + size - 1 = rows.length - 1 + size := by omega
    rw [hsplit, Nat.add_div_right _ hsize]
  omega

theorem lane_lt {row : Nat} (hrow : row < rows.length) :
    row % size < (blockRows size rows (row / size)).length := by
  have hmod := Nat.mod_lt row hsize
  have hrow' := Nat.div_add_mod' row size
  rw [blockRows_length]
  omega

/-- The cell of a row and a column is found by the block of the row, then by the
column in steps of the rows of that block, then by the row in the block. -/
theorem blocked_getElem? (cell : α → Nat → β) {row column : Nat} (hrow : row < rows.length)
    (hcolumn : column < width) :
    (blocked size rows width cell)[row / size * (size * width) +
        (column * min size (rows.length - row / size * size) + row % size)]? =
      some (cell (rows.get ⟨row, hrow⟩) column) := by
  let block := blockRows size rows (row / size)
  have hlen : block.length = min size (rows.length - row / size * size) := blockRows_length ..
  have hlane : row % size < block.length := lane_lt hsize hrow
  have hinside : column * block.length + row % size < (columns block width cell).length := by
    rw [columns_length]
    calc column * block.length + row % size
        < column * block.length + block.length := by omega
      _ = (column + 1) * block.length := by ring
      _ ≤ width * block.length := Nat.mul_le_mul_right _ hcolumn
  have hfull : ∀ i < row / size, (columns (blockRows size rows i) width cell).length =
      size * width := by
    intro i hi
    -- A block before the one of `row` is followed by rows.
    have hle : (i + 1) * size ≤ row / size * size := Nat.mul_le_mul_right _ hi
    have hrow' := Nat.div_add_mod' row size
    rw [Nat.succ_mul] at hle
    rw [columns_length, blockRows_length, Nat.min_eq_left (by omega), Nat.mul_comm]
  rw [← hlen]
  refine (getElem?_flatMap_range (block_lt_count hsize hrow) hfull hinside).trans ?_
  rw [columns_getElem? cell hcolumn hlane]
  congr 2
  have hget : block[row % size]? = rows[row]? := by
    rw [show block = (rows.drop (row / size * size)).take size from rfl,
      List.getElem?_take_of_lt (Nat.mod_lt _ hsize), List.getElem?_drop, Nat.div_add_mod']
  rw [List.getElem?_eq_getElem hlane, List.getElem?_eq_getElem hrow, Option.some.injEq] at hget
  exact hget

theorem blocked_length (cell : α → Nat → β) :
    (blocked size rows width cell).length = rows.length * width := by
  have hsum : ∀ n, n * size < rows.length + size → ((List.range n).map fun block =>
      width * min size (rows.length - block * size)).sum = width * min (n * size) rows.length := by
    intro n
    induction n with
    | zero => simp
    | succ n ih =>
      intro hn
      rw [Nat.succ_mul] at hn ⊢
      rw [range_succ, map_append, sum_append, ih (by omega), map_singleton,
        sum_singleton, ← Nat.mul_add]
      congr 1
      omega
  have hlast := Nat.div_mul_le_self (rows.length + size - 1) size
  have hcover : rows.length ≤ (rows.length + size - 1) / size * size := by
    have hmod := Nat.mod_lt (rows.length + size - 1) hsize
    have hsplit := Nat.div_add_mod' (rows.length + size - 1) size
    omega
  rw [blocked, length_flatMap]
  simp only [columns_length, blockRows_length]
  rw [hsum _ (by omega), Nat.min_eq_right hcover, Nat.mul_comm]

end Cells

theorem chunks_eq_blockRows {size : Nat} (hsize : 0 < size) (l : List α) :
    Rows.chunks size l =
      (List.range ((l.length + size - 1) / size)).map (blockRows size l) := by
  have hfrom : ∀ (rounds : Nat) (l : List α), l.length ≤ rounds →
      Rows.chunksFrom size rounds l =
        (List.range ((l.length + size - 1) / size)).map (blockRows size l) := by
    intro rounds
    induction rounds with
    | zero =>
      intro l hl
      have hnil := length_eq_zero_iff.mp (Nat.le_zero.mp hl)
      have hnone : (size - 1) / size = 0 := Nat.div_eq_of_lt (by omega)
      rw [hnil, length_nil, Nat.zero_add, hnone]
      rfl
    | succ rounds ih =>
      intro l hl
      by_cases hempty : l = []
      · have hnone : (size - 1) / size = 0 := Nat.div_eq_of_lt (by omega)
        rw [hempty, length_nil, Nat.zero_add, hnone]
        rfl
      · have hpos := length_pos_of_ne_nil hempty
        have hcount : (l.length + size - 1) / size = (l.length - 1) / size + 1 := by
          have hsplit : l.length + size - 1 = l.length - 1 + size := by omega
          rw [hsplit, Nat.add_div_right _ hsize]
        have hrest : ((l.drop size).length + size - 1) / size = (l.length - 1) / size := by
          rw [length_drop]
          by_cases hle : size ≤ l.length
          · congr 1
            omega
          · rw [Nat.div_eq_of_lt (by omega), Nat.div_eq_of_lt (by omega)]
        rw [Rows.chunksFrom, if_neg (by simpa using hempty), ih _ (by rw [length_drop]; omega),
          hrest, hcount, range_succ_eq_map, map_cons, map_map]
        congr 1
        · rw [blockRows, Nat.zero_mul, drop_zero]
        · refine map_congr_left fun block _ => ?_
          rw [Function.comp_apply, blockRows, blockRows, drop_drop, Nat.succ_mul, Nat.add_comm]
  exact hfrom l.length l le_rfl

theorem flatMap_chunks {size : Nat} (hsize : 0 < size) (rows : List α) (width : Nat)
    (cell : α → Nat → β) :
    ((Rows.chunks size rows).flatMap fun block => columns block width cell) =
      blocked size rows width cell := by
  rw [chunks_eq_blockRows hsize, flatMap_map, blocked]

end Blocks
