import Mathlib.Algebra.BigOperators.Group.Finset.Basic
import Mathlib.Data.Nat.Bitwise
import PaimonVindex.Lib.Paging

/-! Numbers of a fixed bit width in a list of bytes, low bit first. A byte list is
seen as one sequence of bits: a field that is written by OR changes only its
own bits, and a field that is read is what its bits say. -/

namespace BitPack

open List

section

variable (bytes : List UInt8)

/-- Bit `k` of a byte list; the bits behind its end are zero. -/
def bit (k : Nat) : Bool := (bytes.getD (k / 8) 0).toNat.testBit (k % 8)

def byteCount (offset width : Nat) : Nat := (offset % 8 + width + 7) / 8

def orField (offset width value : Nat) : List UInt8 :=
  bytes.mapIdx fun i byte =>
    if offset / 8 ≤ i ∧ i < offset / 8 + byteCount offset width then
      byte ||| UInt8.ofNat ((value <<< (offset % 8)) >>> ((i - offset / 8) * 8))
    else byte

/-- The bytes as a number, low byte first. -/
def orBytes : Nat :=
  bytes.zipIdx.foldl (fun value item => value ||| (item.1.toNat <<< (item.2 * 8))) 0

def field (offset width : Nat) : Nat :=
  (orBytes ((bytes.drop (offset / 8)).take (byteCount offset width)) >>> (offset % 8)) &&&
    ((1 <<< width) - 1)

@[simp] theorem orField_length (offset width value : Nat) :
    (orField bytes offset width value).length = bytes.length := by
  simp [orField]

end

theorem testBit_byte_of_le (byte : UInt8) {j : Nat} (h : 8 ≤ j) : byte.toNat.testBit j = false :=
  Nat.testBit_lt_two_pow (lt_of_lt_of_le byte.toNat_lt (Nat.pow_le_pow_right (by decide) h))

@[simp] theorem bit_nil (k : Nat) : bit [] k = false := by simp [bit]

theorem bit_cons (byte : UInt8) (bytes : List UInt8) (k : Nat) :
    bit (byte :: bytes) k = if k < 8 then byte.toNat.testBit k else bit bytes (k - 8) := by
  by_cases hk : k < 8
  · rw [if_pos hk, bit, Nat.div_eq_of_lt hk, Nat.mod_eq_of_lt hk, getD_cons_zero]
  · obtain ⟨j, rfl⟩ := Nat.exists_eq_add_of_le (Nat.le_of_not_lt hk)
    have hdiv : (8 + j) / 8 = j / 8 + 1 := by omega
    rw [if_neg hk, bit, hdiv, getD_cons_succ, Nat.add_mod_left, Nat.add_sub_cancel_left, bit]

variable {bytes : List UInt8}

theorem bit_of_length_le {k : Nat} (h : bytes.length * 8 ≤ k) :
    bit bytes k = false := by
  have hlen : bytes.length ≤ k / 8 := by omega
  rw [bit, getD_eq_default _ _ hlen]
  exact Nat.zero_testBit _

section

variable (bytes : List UInt8)

theorem bit_drop (n k : Nat) : bit (bytes.drop n) k = bit bytes (n * 8 + k) := by
  have hdiv : (n * 8 + k) / 8 = n + k / 8 := by omega
  have hmod : (n * 8 + k) % 8 = k % 8 := by omega
  rw [bit, bit, hdiv, hmod, getD_eq_getElem?_getD, getD_eq_getElem?_getD,
    List.getElem?_drop]

theorem bit_take {n k : Nat} (h : k < n * 8) : bit (bytes.take n) k = bit bytes k := by
  have hdiv : k / 8 < n := by omega
  rw [bit, bit, getD_eq_getElem?_getD, getD_eq_getElem?_getD,
    List.getElem?_take_of_lt hdiv]

theorem testBit_foldl_orBytes (start value j : Nat) :
    ((bytes.zipIdx start).foldl (fun value item => value ||| (item.1.toNat <<< (item.2 * 8)))
      value).testBit j =
      (value.testBit j || (decide (start * 8 ≤ j) && bit bytes (j - start * 8))) := by
  induction bytes generalizing start value with
  | nil => simp
  | cons byte bytes ih =>
    rw [zipIdx_cons, foldl_cons, ih, Nat.testBit_or, Nat.testBit_shiftLeft, bit_cons,
      Bool.or_assoc]
    congr 1
    by_cases hlow : start * 8 ≤ j
    · by_cases hbyte : j - start * 8 < 8
      · have hnext : ¬ (start + 1) * 8 ≤ j := by omega
        simp [hlow, hbyte, hnext]
      · have hnext : (start + 1) * 8 ≤ j := by omega
        have hzero := testBit_byte_of_le byte (Nat.le_of_not_lt hbyte)
        have hsub : j - (start + 1) * 8 = j - start * 8 - 8 := by omega
        simp [hlow, hbyte, hnext, hzero, hsub]
    · have hnext : ¬ (start + 1) * 8 ≤ j := by omega
      simp [hlow, hnext]

theorem testBit_orBytes (j : Nat) : (orBytes bytes).testBit j = bit bytes j := by
  rw [orBytes, testBit_foldl_orBytes]
  simp

theorem testBit_field (offset width j : Nat) :
    (field bytes offset width).testBit j = (decide (j < width) && bit bytes (offset + j)) := by
  rw [field, Nat.testBit_and, Nat.testBit_shiftRight, testBit_orBytes, Nat.one_shiftLeft,
    Nat.testBit_two_pow_sub_one, Bool.and_comm]
  by_cases hj : j < width
  · have hin : offset % 8 + j < byteCount offset width * 8 := by
      rw [byteCount]
      omega
    have hpos : offset / 8 * 8 + (offset % 8 + j) = offset + j := by omega
    rw [bit_take _ hin, bit_drop, hpos]
  · simp [hj]

end

/-- A field with the bits of a number is that number. -/
theorem field_eq {offset width value : Nat} (hvalue : value < 2 ^ width)
    (h : ∀ j < width, bit bytes (offset + j) = value.testBit j) :
    field bytes offset width = value := by
  apply Nat.eq_of_testBit_eq
  intro j
  rw [testBit_field]
  by_cases hj : j < width
  · rw [h j hj, decide_eq_true hj, Bool.true_and]
  · have hpow : value < 2 ^ j := lt_of_lt_of_le hvalue (Nat.pow_le_pow_right (by decide) (by omega))
    rw [Nat.testBit_lt_two_pow hpow, decide_eq_false hj, Bool.false_and]

theorem bit_orField {offset width value k : Nat} (hvalue : value < 2 ^ width)
    (hk : k < bytes.length * 8) : bit (orField bytes offset width value) k =
      (bit bytes k || (decide (offset ≤ k) && value.testBit (k - offset))) := by
  have hi : k / 8 < bytes.length := by omega
  have hget : (orField bytes offset width value).getD (k / 8) 0 =
      if offset / 8 ≤ k / 8 ∧ k / 8 < offset / 8 + byteCount offset width then
        bytes[k / 8] ||| UInt8.ofNat ((value <<< (offset % 8)) >>> ((k / 8 - offset / 8) * 8))
      else bytes[k / 8] := by
    rw [getD_eq_getElem _ _ (by simpa using hi)]
    simp [orField]
  rw [bit, hget, bit, getD_eq_getElem _ _ hi]
  by_cases hin : offset / 8 ≤ k / 8 ∧ k / 8 < offset / 8 + byteCount offset width
  · have hshift : (k / 8 - offset / 8) * 8 + k % 8 = k - offset / 8 * 8 := by omega
    have hlow : (offset % 8 ≤ k - offset / 8 * 8) = (offset ≤ k) := by
      apply propext
      omega
    have hsub : k - offset / 8 * 8 - offset % 8 = k - offset := by omega
    rw [if_pos hin, UInt8.toNat_or, Nat.testBit_or, UInt8.toNat_ofNat', Nat.testBit_mod_two_pow,
      Nat.testBit_shiftRight, hshift, Nat.testBit_shiftLeft,
      decide_eq_true (Nat.mod_lt k (by decide)), Bool.true_and, hsub]
    simp only [ge_iff_le, hlow]
  · rw [if_neg hin]
    -- Outside of the touched bytes the value has no bits.
    have hnone : (decide (offset ≤ k) && value.testBit (k - offset)) = false := by
      by_cases hle : offset ≤ k
      · have hfar : width ≤ k - offset := by
          have := not_and_or.mp hin
          rw [byteCount] at this
          omega
        have hpow : value < 2 ^ (k - offset) :=
          lt_of_lt_of_le hvalue (Nat.pow_le_pow_right (by decide) hfar)
        rw [Nat.testBit_lt_two_pow hpow, Bool.and_false]
      · rw [decide_eq_false hle, Bool.false_and]
    rw [hnone, Bool.or_false]

/-- The bits of `count` fields in a row and no others. -/
def Packed (bytes : List UInt8) (width count : Nat) (value : Nat → Nat) : Prop :=
  ∀ k, bit bytes k = (decide (k < count * width) && (value (k / width)).testBit (k % width))

theorem packed_zero (n width : Nat) (value : Nat → Nat) :
    Packed (List.replicate n 0) width 0 value := by
  intro k
  have hzero : (List.replicate n (0 : UInt8)).getD (k / 8) 0 = 0 := by
    rw [getD_eq_getElem?_getD, List.getElem?_replicate]
    split <;> rfl
  rw [bit, hzero, Nat.zero_mul]
  simp

/-- The next field goes into bits that were zero. -/
theorem Packed.orField {width count : Nat} {value : Nat → Nat}
    (h : Packed bytes width count value) (hvalue : value count < 2 ^ width)
    (hroom : (count + 1) * width ≤ bytes.length * 8) :
    Packed (orField bytes (count * width) width (value count)) width (count + 1) value := by
  intro k
  rw [Nat.succ_mul] at hroom ⊢
  by_cases hk : k < bytes.length * 8
  · rw [bit_orField hvalue hk, h k]
    by_cases hbefore : k < count * width
    · have hnot : ¬ count * width ≤ k := by omega
      have hin : k < count * width + width := by omega
      simp [hbefore, hnot, hin]
    · have hfrom : count * width ≤ k := Nat.le_of_not_lt hbefore
      by_cases hin : k < count * width + width
      · obtain ⟨j, rfl⟩ := Nat.exists_eq_add_of_le hfrom
        have hj : j < width := by omega
        simp [Paging.div_mod_of_lt hj, hj]
      · have hpow : value count < 2 ^ (k - count * width) :=
          lt_of_lt_of_le hvalue (Nat.pow_le_pow_right (by decide) (by omega))
        simp [hbefore, hin, Nat.testBit_lt_two_pow hpow]
  · have hin : ¬ k < count * width + width := by omega
    rw [bit_of_length_le (by simpa using Nat.le_of_not_lt hk), decide_eq_false hin, Bool.false_and]

theorem Packed.field {width count : Nat} {value : Nat → Nat} (h : Packed bytes width count value)
    {i : Nat} (hi : i < count) (hvalue : value i < 2 ^ width) :
    field bytes (i * width) width = value i := by
  refine field_eq hvalue fun j hj => ?_
  have hle := Nat.mul_le_mul_right width hi
  rw [Nat.succ_mul] at hle
  have hin : i * width + j < count * width := by omega
  obtain ⟨hdiv, hmod⟩ := Paging.div_mod_of_lt (p := i) hj
  rw [h, decide_eq_true hin, Bool.true_and, hdiv, hmod]

end BitPack
