import Mathlib.Data.List.Basic
import Mathlib.Data.List.Flatten
import Mathlib.Tactic.Ring

/-! Little-endian words of a fixed width, and the exact chunks of a byte
string. A table of fixed-width records is read back chunk by chunk. -/

namespace Words

open List

/-- The `w` low bytes of `n`, lowest first. -/
def leBytes : Nat → Nat → List UInt8
  | 0, _ => []
  | w + 1, n => UInt8.ofNat n :: leBytes w (n / 256)

def leNat : List UInt8 → Nat
  | [] => 0
  | b :: bs => b.toNat + 256 * leNat bs

@[simp] theorem leBytes_length (w n : Nat) : (leBytes w n).length = w := by
  induction w generalizing n with
  | zero => rfl
  | succ w ih => simp [leBytes, ih]

theorem leNat_leBytes (w n : Nat) : leNat (leBytes w n) = n % 256 ^ w := by
  induction w generalizing n with
  | zero => simp [leBytes, leNat, Nat.mod_one]
  | succ w ih =>
    have hb : (UInt8.ofNat n).toNat = n % 256 := by simp
    simp only [leBytes, leNat, ih, hb]
    rw [pow_succ', Nat.mod_mul]

theorem leNat_leBytes_of_lt {w n : Nat} (h : n < 256 ^ w) : leNat (leBytes w n) = n := by
  rw [leNat_leBytes, Nat.mod_eq_of_lt h]

theorem leNat_lt (bs : List UInt8) : leNat bs < 256 ^ bs.length := by
  induction bs with
  | nil => simp [leNat]
  | cons b bs ih =>
    have hb : b.toNat < 256 := b.toNat_lt
    simp only [leNat, length_cons, pow_succ']
    omega

theorem leBytes_leNat (bs : List UInt8) : leBytes bs.length (leNat bs) = bs := by
  induction bs with
  | nil => rfl
  | cons b bs ih =>
    have hb : b.toNat < 256 := b.toNat_lt
    have hlow : UInt8.ofNat (b.toNat + 256 * leNat bs) = b := by
      apply UInt8.toNat_inj.mp
      simp only [UInt8.toNat_ofNat']
      omega
    have hhigh : (b.toNat + 256 * leNat bs) / 256 = leNat bs := by omega
    simp only [length_cons, leNat, leBytes, hlow, hhigh, ih]

variable {α β : Type*}

/-- The first `l.length / k` consecutive chunks of exactly `k` elements. -/
def chunksExact (k : Nat) (l : List α) : List (List α) :=
  (List.range (l.length / k)).map fun i => (l.drop (i * k)).take k

@[simp] theorem chunksExact_length (k : Nat) (l : List α) :
    (chunksExact k l).length = l.length / k := by
  simp [chunksExact]

variable {k : Nat} {l : List α} {f : α → List β}

theorem chunksExact_of_lt (h : l.length < k) : chunksExact k l = [] := by
  rw [chunksExact, Nat.div_eq_of_lt h, range_zero, map_nil]

theorem chunksExact_of_length (hk : 0 < k) (h : l.length = k) : chunksExact k l = [l] := by
  rw [chunksExact, h, Nat.div_self hk, range_one, map_singleton, Nat.zero_mul,
    drop_zero, ← h, take_length]

theorem flatMap_length_of_width (h : ∀ x ∈ l, (f x).length = k) :
    (l.flatMap f).length = l.length * k := by
  induction l with
  | nil => simp
  | cons x xs ih =>
    have hx := h x (by simp)
    have hxs := ih fun y hy => h y (by simp [hy])
    rw [flatMap_cons, length_append, hx, hxs, length_cons]
    ring

theorem take_flatMap_of_width (h : ∀ x ∈ l, (f x).length = k) (n : Nat) :
    (l.flatMap f).take (n * k) = (l.take n).flatMap f := by
  induction l generalizing n with
  | nil => simp
  | cons x xs ih =>
    cases n with
    | zero => simp
    | succ n =>
      have hx := h x (by simp)
      have hxs := ih (fun y hy => h y (by simp [hy])) n
      rw [flatMap_cons, take_succ_cons, flatMap_cons, Nat.succ_mul,
        Nat.add_comm, ← hx, take_length_add_append, hx, hxs]

theorem drop_flatMap_of_width (h : ∀ x ∈ l, (f x).length = k) (n : Nat) :
    (l.flatMap f).drop (n * k) = (l.drop n).flatMap f := by
  induction l generalizing n with
  | nil => simp
  | cons x xs ih =>
    cases n with
    | zero => simp
    | succ n =>
      have hx := h x (by simp)
      have hxs := ih (fun y hy => h y (by simp [hy])) n
      rw [flatMap_cons, drop_succ_cons, Nat.succ_mul, Nat.add_comm,
        ← drop_drop, ← hx, drop_left, hx, hxs]

/-- Reading fixed-width records back chunk by chunk. -/
theorem chunksExact_flatMap (hk : 0 < k) (h : ∀ x ∈ l, (f x).length = k) :
    chunksExact k (l.flatMap f) = l.map f := by
  apply ext_getElem
  · simp [flatMap_length_of_width h, Nat.mul_div_cancel _ hk]
  · intro i _ hi
    have hi' : i < l.length := by simpa using hi
    have hx : (f l[i]).length = k := h _ (getElem_mem hi')
    simp only [chunksExact, getElem_map, getElem_range]
    rw [drop_flatMap_of_width h, drop_eq_getElem_cons hi', flatMap_cons, ← hx,
      take_left]

theorem chunksExact_part (hk : 0 < k) (l : List α) {start count : Nat}
    (h : (start + count) * k ≤ l.length) :
    ((chunksExact k l).drop start).take count =
      chunksExact k ((l.drop (start * k)).take (count * k)) := by
  have hcount : start + count ≤ l.length / k := (Nat.le_div_iff_mul_le hk).mpr h
  have hlen : ((l.drop (start * k)).take (count * k)).length = count * k := by
    rw [Nat.add_mul] at h
    rw [length_take, length_drop]
    omega
  apply ext_getElem
  · rw [length_take, length_drop, chunksExact_length, chunksExact_length, hlen,
      Nat.mul_div_cancel _ hk]
    omega
  · intro i _ hi
    rw [chunksExact_length, hlen, Nat.mul_div_cancel _ hk] at hi
    have hinside : i * k + k ≤ count * k := by
      rw [← Nat.succ_mul]
      exact Nat.mul_le_mul_right k hi
    simp only [chunksExact, getElem_take, getElem_drop, getElem_map,
      getElem_range]
    rw [drop_take, take_take, drop_drop, Nat.min_eq_left (by omega), Nat.add_mul]

/-- The fields stand in `record` one behind the other, the first at `offset`. -/
def FieldsAt (record : List α) : (offset : Nat) → List (List α) → Prop
  | _, [] => True
  | offset, field :: fields =>
    (record.drop offset).take field.length = field ∧ FieldsAt record (offset + field.length) fields

theorem fieldsAt_of_drop {record : List α} {offset : Nat} {fields : List (List α)}
    (h : record.drop offset = fields.flatten) : FieldsAt record offset fields := by
  induction fields generalizing offset with
  | nil => trivial
  | cons field fields ih =>
    rw [flatten_cons] at h
    refine ⟨by rw [h, take_left], ih ?_⟩
    rw [← drop_drop, h, drop_left]

theorem fieldsAt_flatten (fields : List (List α)) : FieldsAt fields.flatten 0 fields :=
  fieldsAt_of_drop rfl

def cut : List Nat → List α → List (List α)
  | [], _ => []
  | w :: ws, l => l.take w :: cut ws (l.drop w)

theorem cut_flatten (fields : List (List α)) :
    cut (fields.map List.length) fields.flatten = fields := by
  induction fields with
  | nil => rfl
  | cons field rest ih =>
    rw [map_cons, flatten_cons, cut, take_left, drop_left, ih]

theorem flatten_cut (ws : List Nat) (l : List α) : (cut ws l).flatten = l.take ws.sum := by
  induction ws generalizing l with
  | nil => simp [cut]
  | cons w ws ih => rw [cut, flatten_cons, ih, sum_cons, take_add]

end Words
