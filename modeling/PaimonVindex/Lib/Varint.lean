import PaimonVindex.Lib.Checked
import Mathlib.Data.Nat.Bitwise
import Mathlib.Tactic.Ring
import Mathlib.Tactic.Linarith

/-! Base-128 integers, low digit first, every byte but the last with its top
bit set. The reader is parametric in the rules a format adds to the digits. -/

namespace Varint

open List

/-- The digits of `n`, at most `k + 1` of them. -/
def encode : Nat → Nat → List UInt8
  | 0, n => [UInt8.ofNat n]
  | k + 1, n =>
    if n < 128 then [UInt8.ofNat n]
    else UInt8.ofNat (n % 128 + 128) :: encode k (n / 128)

/-- What a format rejects: an early end, too many digits, and a digit at a
given shift. -/
structure Rules (ε : Type) where
  truncated : ε
  tooLong : ε
  check : Nat → UInt8 → Except ε Unit

def read {ε : Type} (rules : Rules ε) (bytes : List UInt8) :
    (rounds shift value position : Nat) → Except ε (Nat × Nat)
  | 0, _, _, _ => .error rules.tooLong
  | rounds + 1, shift, value, position =>
    match bytes[position]? with
    | none => .error rules.truncated
    | some byte => do
      rules.check shift byte
      let value := value ||| ((byte.toNat &&& 0x7f) <<< shift)
      if byte.toNat &&& 0x80 = 0 then return (value, position + 1)
      else read rules bytes rounds (shift + 7) value (position + 1)

variable {ε : Type} {bytes : List UInt8} {position : Nat} {rules : Rules ε} {rounds : Nat}

variable {shift value : Nat}

theorem read_error {P : ε → Prop} (htruncated : P rules.truncated) (htooLong : P rules.tooLong)
    (hcheck : ∀ shift byte e, rules.check shift byte = .error e → P e) {e : ε}
    (h : read rules bytes rounds shift value position = .error e) : P e := by
  induction rounds generalizing shift value position with
  | zero =>
    cases h
    exact htooLong
  | succ rounds ih =>
    rw [read] at h
    split at h
    · cases h
      exact htruncated
    · rename_i byte hbyte
      cases hrule : rules.check shift byte with
      | error e' =>
        rw [hrule] at h
        cases h
        exact hcheck shift byte e hrule
      | ok _ =>
        rw [hrule] at h
        change (if byte.toNat &&& 0x80 = 0 then _ else _) = _ at h
        split at h
        · cases h
        · exact ih h

/-- Formats that let the same digits through read the same numbers. -/
theorem read_eq_ok_congr {rules' : Rules ε}
    (h : ∀ shift byte, rules.check shift byte = .ok () ↔ rules'.check shift byte = .ok ())
    {r : Nat × Nat} :
    read rules bytes rounds shift value position = .ok r ↔
      read rules' bytes rounds shift value position = .ok r := by
  induction rounds generalizing shift value position with
  | zero => simp [read]
  | succ rounds ih =>
    rw [read, read]
    cases bytes[position]? with
    | none => simp
    | some byte =>
      rw [Checked.bind_eq_ok, Checked.bind_eq_ok]
      refine exists_congr fun _ => and_congr (h shift byte) ?_
      split
      · rfl
      · exact ih

theorem encode_ne_nil (k n : Nat) : encode k n ≠ [] := by
  cases k with
  | zero => simp [encode]
  | succ k => simp only [encode]; split <;> simp

theorem encode_length_le (k n : Nat) : (encode k n).length ≤ k + 1 := by
  induction k generalizing n with
  | zero => simp [encode]
  | succ k ih =>
    have hrest := ih (n / 128)
    rw [encode]
    split
    · simp
    · rw [length_cons]
      omega

theorem log2_eq_log2_div {n : Nat} (h : 128 ≤ n) : n.log2 = (n / 128).log2 + 7 := by
  have hn : n ≠ 0 := by omega
  have hdiv : n / 128 ≠ 0 := by omega
  have key : ∀ m, n.log2 < m + 7 ↔ (n / 128).log2 < m := by
    intro m
    rw [Nat.log2_lt hn, Nat.log2_lt hdiv, Nat.div_lt_iff_lt_mul (by decide), pow_add]
    norm_num
  have hlow : 7 ≤ n.log2 := (Nat.le_log2 hn).mpr (by simpa using h)
  have h1 := (key (n.log2 - 7 + 1)).mp (by omega)
  have h2 := (key ((n / 128).log2 + 1)).mpr (by omega)
  omega

variable {k : Nat}

/-- The number of digits is the number of significant bits over seven. -/
theorem encode_length {n : Nat} (h : n < 128 ^ (k + 1)) :
    (encode k n).length = (n.log2 + 1 + 6) / 7 := by
  have small : ∀ {m : Nat}, m < 128 → (m.log2 + 1 + 6) / 7 = 1 := by
    intro m hm
    have hm' : m.log2 < 7 := by
      by_cases h0 : m = 0
      · simp [h0]
      · exact (Nat.log2_lt h0).mpr (by simpa using hm)
    omega
  induction k generalizing n with
  | zero => simp [encode, small (by simpa using h : n < 128)]
  | succ k ih =>
    simp only [encode]
    split
    · rename_i hn
      simp [small hn]
    · rename_i hn
      have hdiv : n / 128 < 128 ^ (k + 1) := by
        rw [Nat.div_lt_iff_lt_mul (by decide)]
        simpa [pow_succ] using h
      have hlog := log2_eq_log2_div (Nat.le_of_not_lt hn)
      rw [length_cons, ih hdiv]
      omega

variable {v : Nat}

theorem or_shiftLeft {d s : Nat} (hv : v < 2 ^ s) : v ||| (d <<< s) = v + d * 2 ^ s := by
  rw [Nat.lor_comm, ← Nat.shiftLeft_add_eq_or_of_lt hv, Nat.shiftLeft_eq, Nat.add_comm]

theorem byte_digit (byte : UInt8) :
    byte.toNat &&& 0x7f = byte.toNat % 128 ∧ (byte.toNat &&& 0x80 = 0 ↔ byte.toNat < 128) := by
  have hlt : byte.toNat < 256 := byte.toNat_lt
  refine ⟨Nat.and_two_pow_sub_one_eq_mod byte.toNat 7, ?_⟩
  rw [show 0x80 = 2 ^ 7 by rfl, Nat.and_two_pow, Nat.testBit_eq_decide_div_mod_eq]
  by_cases hsmall : byte.toNat < 128
  · have hdiv : byte.toNat / 128 = 0 := by omega
    simp [hdiv, hsmall]
  · have hdiv : byte.toNat / 128 = 1 := by omega
    simp [hdiv, hsmall]

theorem read_succ {byte : UInt8} (hbyte : bytes[position]? = some byte) (hv : v < 2 ^ shift) :
    read rules bytes (rounds + 1) shift v position = (rules.check shift byte >>= fun _ =>
      if byte.toNat < 128 then .ok (v + byte.toNat * 2 ^ shift, position + 1)
      else read rules bytes rounds (shift + 7)
        (v + byte.toNat % 128 * 2 ^ shift) (position + 1)) := by
  obtain ⟨hlow, htop⟩ := byte_digit byte
  simp only [read, hbyte, hlow, htop, or_shiftLeft hv]
  refine bind_congr fun _ => ?_
  split
  · rename_i hsmall
    rw [Nat.mod_eq_of_lt hsmall]
    rfl
  · rfl

/-- The rules let through every digit of the numbers up to `N`, written with at
most `k + 1` digits. -/
structure Rules.Admits {ε : Type} (rules : Rules ε) (k N : Nat) : Prop where
  bound : N < 128 ^ (k + 1)
  inner : ∀ i < k, ∀ d < 128, rules.check (7 * i) (UInt8.ofNat (d + 128)) = .ok ()
  final : ∀ i ≤ k, ∀ d < 128, (i ≠ 0 → d ≠ 0) → d * 128 ^ i ≤ N →
    rules.check (7 * i) (UInt8.ofNat d) = .ok ()

theorem read_final {d : Nat} (hbyte : bytes[position]? = some (UInt8.ofNat d))
    (hcheck : rules.check shift (UInt8.ofNat d) = .ok ()) (hd : d < 128) (hv : v < 2 ^ shift) :
    read rules bytes (rounds + 1) shift v position = .ok (v + d * 2 ^ shift, position + 1) := by
  have hnat : (UInt8.ofNat d).toNat = d := UInt8.toNat_ofNat'.trans (Nat.mod_eq_of_lt (by omega))
  rw [read_succ hbyte hv, hcheck, hnat, if_pos hd]
  rfl

theorem read_inner {d : Nat} (hbyte : bytes[position]? = some (UInt8.ofNat (d + 128)))
    (hcheck : rules.check shift (UInt8.ofNat (d + 128)) = .ok ()) (hd : d < 128)
    (hv : v < 2 ^ shift) :
    read rules bytes (rounds + 1) shift v position =
      read rules bytes rounds (shift + 7) (v + d * 2 ^ shift) (position + 1) := by
  have hnat : (UInt8.ofNat (d + 128)).toNat = d + 128 :=
    UInt8.toNat_ofNat'.trans (Nat.mod_eq_of_lt (by omega))
  rw [read_succ hbyte hv, hcheck, hnat, if_neg (by omega), Nat.add_mod_right, Nat.mod_eq_of_lt hd]
  rfl

/-- Reading the digits from index `i` on; `j` digits may still follow. -/
theorem read_encode_from {N : Nat} (h : rules.Admits k N) (j i m v : Nat) (pre rest : List UInt8)
    (hij : i + j = k) (hm : m * 128 ^ i ≤ N) (hne : i ≠ 0 → m ≠ 0) (hv : v < 2 ^ (7 * i))
    (hr : j < rounds) :
    read rules (pre ++ encode j m ++ rest) rounds (7 * i) v pre.length =
      .ok (v + m * 2 ^ (7 * i), pre.length + (encode j m).length) := by
  induction j generalizing i m v pre rounds with
  | zero =>
    obtain ⟨rounds, rfl⟩ : ∃ r, rounds = r + 1 := ⟨rounds - 1, by omega⟩
    have hlt : m < 128 := by
      have hb := h.bound
      rw [pow_succ', ← hij, Nat.add_zero] at hb
      exact lt_of_mul_lt_mul_right (lt_of_le_of_lt hm hb) (Nat.zero_le _)
    exact read_final (by simp [encode]) (h.final i (by omega) m hlt hne hm) hlt hv
  | succ j ih =>
    obtain ⟨rounds, rfl⟩ : ∃ r, rounds = r + 1 := ⟨rounds - 1, by omega⟩
    by_cases hlt : m < 128
    · simp only [encode, if_pos hlt]
      exact read_final (by simp) (h.final i (by omega) m hlt hne hm) hlt hv
    · have hmod : m % 128 < 128 := Nat.mod_lt _ (by decide)
      have hsplit : m % 128 + 128 * (m / 128) = m := Nat.mod_add_div m 128
      have hpow : 2 ^ (7 * (i + 1)) = 128 * 2 ^ (7 * i) := by
        rw [Nat.mul_succ, pow_add]; ring
      have hm' : m / 128 * 128 ^ (i + 1) ≤ N := by
        have : m / 128 * 128 ^ (i + 1) = m / 128 * 128 * 128 ^ i := by rw [pow_succ']; ring
        rw [this]
        exact le_trans (Nat.mul_le_mul_right _ (Nat.div_mul_le_self m 128)) hm
      have hv' : v + m % 128 * 2 ^ (7 * i) < 2 ^ (7 * (i + 1)) := by
        rw [hpow]
        nlinarith [Nat.mul_le_mul_right (2 ^ (7 * i)) (Nat.le_of_lt_succ hmod)]
      have hnext := ih (i + 1) (m / 128) _ (pre ++ [UInt8.ofNat (m % 128 + 128)]) (by omega)
        hm' (fun _ => by omega) hv' (Nat.lt_of_succ_lt_succ hr)
      simp only [append_assoc, cons_append, nil_append, length_append,
        length_singleton] at hnext
      simp only [encode, if_neg hlt, append_assoc, cons_append]
      rw [read_inner (by simp) (h.inner i (by omega) _ hmod) hmod hv,
        show 7 * i + 7 = 7 * (i + 1) by ring, hnext, hpow, length_cons]
      congr 2
      · nlinarith
      · omega

/-- Reading an encoded number, wherever it stands. -/
theorem read_encode {N n : Nat} (h : rules.Admits k N) (hn : n ≤ N) (pre rest : List UInt8) :
    read rules (pre ++ encode k n ++ rest) (k + 1) 0 0 pre.length =
      .ok (n, pre.length + (encode k n).length) := by
  simpa using read_encode_from h k 0 n 0 pre rest (by omega) (by simpa using hn)
    (by simp) (by simp) (Nat.lt_succ_self k)

/-- The rules reject a zero digit behind the first one, and digits that would
take the number to `B` or above. -/
structure Rules.Canonical {ε : Type} (rules : Rules ε) (k B : Nat) : Prop where
  bounded : ∀ i ≤ k, ∀ byte, rules.check (7 * i) byte = .ok () →
    (byte.toNat % 128 + 1) * 2 ^ (7 * i) ≤ B
  nonzero : ∀ i ≤ k, ∀ byte, rules.check (7 * i) byte = .ok () → i ≠ 0 → byte.toNat < 128 →
    byte.toNat ≠ 0

theorem encode_digit {j m : Nat} (hm : m < 128) : encode j m = [UInt8.ofNat m] := by
  cases j with
  | zero => rfl
  | succ j => rw [encode, if_pos hm]

theorem encode_step {j d m : Nat} (hd : d < 128) (hm : m ≠ 0) :
    encode (j + 1) (d + 128 * m) = UInt8.ofNat (d + 128) :: encode j m := by
  have hmod : (d + 128 * m) % 128 = d := by omega
  have hdiv : (d + 128 * m) / 128 = m := by omega
  rw [encode, if_neg (by omega), hmod, hdiv]

/-- A round takes one byte that passes the check, and it is the last one or not. -/
theorem read_eq_ok {stop : Nat} (hv : v < 2 ^ shift)
    (h : read rules bytes (rounds + 1) shift v position = .ok (value, stop)) :
    ∃ byte, bytes.drop position = byte :: bytes.drop (position + 1) ∧
      rules.check shift byte = .ok () ∧
      ((byte.toNat < 128 ∧ value = v + byte.toNat * 2 ^ shift ∧ stop = position + 1) ∨
        (128 ≤ byte.toNat ∧ read rules bytes rounds (shift + 7)
          (v + byte.toNat % 128 * 2 ^ shift) (position + 1) = .ok (value, stop))) := by
  cases hbyte : bytes[position]? with
  | none =>
    rw [read, hbyte] at h
    cases h
  | some byte =>
    obtain ⟨hlt, hget⟩ := List.getElem?_eq_some_iff.mp hbyte
    rw [read_succ hbyte hv, Checked.bind_eq_ok] at h
    obtain ⟨_, hcheck, h⟩ := h
    refine ⟨byte, by rw [drop_eq_getElem_cons hlt, hget], hcheck, ?_⟩
    by_cases hsmall : byte.toNat < 128
    · rw [if_pos hsmall] at h
      cases h
      exact .inl ⟨hsmall, rfl, rfl⟩
    · rw [if_neg hsmall] at h
      exact .inr ⟨Nat.le_of_not_lt hsmall, h⟩

theorem canonical_last {B : Nat} (h : rules.Canonical k B) {j i : Nat} {byte : UInt8} (hi : i ≤ k)
    (hv : v < 2 ^ (7 * i)) (hdrop : bytes.drop position = byte :: bytes.drop (position + 1))
    (hcheck : rules.check (7 * i) byte = .ok ()) (hsmall : byte.toNat < 128) :
    v + byte.toNat * 2 ^ (7 * i) < B ∧ (i ≠ 0 → byte.toNat ≠ 0) ∧
      encode j byte.toNat <+: bytes.drop position ∧
      position + 1 = position + (encode j byte.toNat).length := by
  have hbound := h.bounded i hi byte hcheck
  rw [Nat.mod_eq_of_lt hsmall, Nat.succ_mul] at hbound
  refine ⟨by omega, fun hne => h.nonzero i hi byte hcheck hne hsmall, ?_, ?_⟩
  · rw [encode_digit hsmall, UInt8.ofNat_toNat, hdrop]
    exact ⟨bytes.drop (position + 1), rfl⟩
  · rw [encode_digit hsmall, length_singleton]

/-- What is read from digit `i` on is the encoding of the rest of the number. -/
theorem read_canonical_from {B : Nat} (h : rules.Canonical k B) {j i stop : Nat}
    (hij : i + j = k) (hv : v < 2 ^ (7 * i))
    (hread : read rules bytes (j + 1) (7 * i) v position = .ok (value, stop)) :
    ∃ m, value = v + m * 2 ^ (7 * i) ∧ value < B ∧ (i ≠ 0 → m ≠ 0) ∧
      encode j m <+: bytes.drop position ∧ stop = position + (encode j m).length := by
  induction j generalizing i v position with
  | zero =>
    obtain ⟨byte, hdrop, hcheck, ⟨hsmall, rfl, rfl⟩ | ⟨-, hnext⟩⟩ := read_eq_ok hv hread
    · exact ⟨byte.toNat, rfl, canonical_last h (by omega) hv hdrop hcheck hsmall⟩
    · cases hnext
  | succ j ih =>
    obtain ⟨byte, hdrop, hcheck, ⟨hsmall, rfl, rfl⟩ | ⟨hlarge, hnext⟩⟩ := read_eq_ok hv hread
    · exact ⟨byte.toNat, rfl, canonical_last h (by omega) hv hdrop hcheck hsmall⟩
    · have hbyte : byte.toNat < 256 := byte.toNat_lt
      have hpow : 2 ^ (7 * (i + 1)) = 128 * 2 ^ (7 * i) := by
        rw [Nat.mul_succ, pow_add]
        ring
      have hdigit : byte.toNat % 128 < 128 := Nat.mod_lt _ (by decide)
      have hv' : v + byte.toNat % 128 * 2 ^ (7 * i) < 2 ^ (7 * (i + 1)) := by
        rw [hpow]
        nlinarith [Nat.mul_le_mul_right (2 ^ (7 * i)) (Nat.le_of_lt_succ hdigit)]
      obtain ⟨m, hvalue, hB, hm, hencoded, hstop⟩ := ih (by omega) hv' hnext
      have hne := hm (Nat.succ_ne_zero i)
      refine ⟨byte.toNat % 128 + 128 * m, ?_, hB, fun _ => by omega, ?_, ?_⟩
      · rw [hvalue, hpow]
        ring
      · have hbyteEq : UInt8.ofNat (byte.toNat % 128 + 128) = byte := by
          rw [show byte.toNat % 128 + 128 = byte.toNat by omega, UInt8.ofNat_toNat]
        rw [encode_step hdigit hne, hdrop, hbyteEq]
        exact cons_prefix_cons.mpr ⟨rfl, hencoded⟩
      · rw [encode_step hdigit hne, length_cons, hstop]
        omega

theorem read_canonical {B : Nat} (h : rules.Canonical k B) {stop : Nat}
    (hread : read rules bytes (k + 1) 0 0 position = .ok (value, stop)) :
    value < B ∧ encode k value <+: bytes.drop position ∧
      stop = position + (encode k value).length := by
  obtain ⟨m, hvalue, hB, -, hencoded, hstop⟩ :=
    read_canonical_from h (i := 0) (v := 0) (Nat.zero_add k) (by decide) hread
  rw [Nat.zero_add, Nat.mul_zero, Nat.pow_zero, Nat.mul_one] at hvalue
  subst hvalue
  exact ⟨hB, hencoded, hstop⟩

end Varint
