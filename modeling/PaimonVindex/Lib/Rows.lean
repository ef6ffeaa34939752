import PaimonVindex.Lib.Checked
import PaimonVindex.Lib.Words

/-! Rows of one width in a flat list, and a list cut into pieces of one size. -/

namespace Rows

open Checked Words List

variable {α β : Type}

theorem getRange_flatMap {f : α → List β} {l : List α} {k : Nat}
    (h : ∀ x ∈ l, (f x).length = k) {i : Nat} (hi : i < l.length) :
    getRange (l.flatMap f) (i * k) (i * k + k) = some (f l[i]) := by
  have hlength := flatMap_length_of_width h
  have hle : i * k + k ≤ l.length * k := by
    rw [← Nat.succ_mul]
    exact Nat.mul_le_mul_right k hi
  have hrow : (f l[i]).length = k := h _ (getElem_mem hi)
  rw [getRange_of_le (Nat.le_add_right _ _) (hlength ▸ hle), drop_flatMap_of_width h,
    drop_eq_getElem_cons hi, flatMap_cons, Nat.add_sub_cancel_left, ← hrow,
    take_left]

theorem flatMap_rows (l : List β) (n k : Nat) :
    ((List.range n).flatMap fun i => (l.drop (i * k)).take k) = l.take (n * k) := by
  induction n with
  | zero => simp
  | succ n ih =>
    rw [range_succ, flatMap_append, ih, flatMap_singleton, Nat.succ_mul,
      take_add]

def overwrite (l : List β) (start : Nat) (part : List β) : Option (List β) :=
  if start + part.length ≤ l.length then
    some (l.take start ++ part ++ l.drop (start + part.length))
  else none

theorem overwrite_flatten {rows : List (List β)} {k i : Nat} (h : ∀ row ∈ rows, row.length = k)
    (hi : i < rows.length) {part : List β} (hpart : part.length = k) :
    overwrite rows.flatten (i * k) part = some (rows.set i part).flatten := by
  have hwidth : ∀ row ∈ rows, (id row).length = k := h
  have hle : i * k + k ≤ rows.length * k := by
    rw [← Nat.succ_mul]
    exact Nat.mul_le_mul_right k hi
  rw [← flatMap_id, ← flatMap_id, overwrite, hpart, if_pos (flatMap_length_of_width hwidth ▸ hle),
    take_flatMap_of_width hwidth, ← Nat.succ_mul, drop_flatMap_of_width hwidth,
    set_eq_take_append_cons_drop, if_pos hi, flatMap_append, flatMap_cons, append_assoc]
  rfl

theorem overwrite_rows {f : Nat → List β} {n k i : Nat} (h : ∀ j < n, (f j).length = k)
    (hi : i < n) {part : List β} (hpart : part.length = k) :
    overwrite ((List.range n).flatMap f) (i * k) part =
      some ((List.range n).flatMap (Function.update f i part)) := by
  rw [flatMap_def, flatMap_def, overwrite_flatten (by simpa using h) (by simpa using hi) hpart]
  refine congrArg (fun rows => some (List.flatten rows)) (ext_getElem (by simp) fun j hj _ => ?_)
  by_cases hji : i = j
  · simp [hji]
  · simp [hji, Function.update_of_ne (Ne.symm hji)]

def chunksFrom (size : Nat) : (rounds : Nat) → List α → List (List α)
  | 0, _ => []
  | rounds + 1, l =>
    if l.isEmpty then [] else l.take size :: chunksFrom size rounds (l.drop size)

/-- Pieces of `size` elements, the last one as long as it is. -/
def chunks (size : Nat) (l : List α) : List (List α) := chunksFrom size l.length l

theorem chunksFrom_flatten {size : Nat} (hsize : 0 < size) {rounds : Nat} {l : List α}
    (hrounds : l.length ≤ rounds) : (chunksFrom size rounds l).flatten = l := by
  induction rounds generalizing l with
  | zero =>
    rw [length_eq_zero_iff.mp (Nat.le_zero.mp hrounds)]
    rfl
  | succ rounds ih =>
    rw [chunksFrom]
    by_cases hempty : l = []
    · simp [hempty]
    · have hrest := ih (l := l.drop size) (by rw [length_drop]; omega)
      rw [if_neg (by simpa using hempty), flatten_cons, hrest, take_append_drop]

theorem chunks_flatten {size : Nat} (hsize : 0 < size) (l : List α) :
    (chunks size l).flatten = l := chunksFrom_flatten hsize le_rfl

end Rows
