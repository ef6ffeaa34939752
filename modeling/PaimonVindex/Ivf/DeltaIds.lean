import PaimonVindex.Io
import PaimonVindex.Lib.Varint

/-! Row ids of an inverted list: ascending, stored as the varints of their
differences from a base id. -/

namespace PaimonVindex

open Checked List

def writeU64Varint (value : UInt64) : List UInt8 := Varint.encode 9 value.toNat

def u64VarintRules : Varint.Rules IoError where
  truncated := invalidData "truncated delta-varint value"
  tooLong := invalidData "delta-varint value exceeds u64 limit"
  check shift byte :=
    -- The tenth byte holds the single bit that is left of a word.
    rejectIf (shift = 63 ∧ byte.toNat &&& 0x7e ≠ 0)
      (invalidData "delta-varint value exceeds u64 limit")

def readU64Varint (bytes : List UInt8) (position : Nat) : IoResult (UInt64 × Nat) := do
  let (value, position) ← Varint.read u64VarintRules bytes 10 0 0 position
  return (UInt64.ofNat value, position)

/-- The differences as words, so that a difference of any two ids is stored. -/
def encodeIdDeltas (previous : Int64) : List Int64 → List UInt8
  | [] => []
  | id :: ids => writeU64Varint (id.toUInt64 - previous.toUInt64) ++ encodeIdDeltas id ids

def encodeDeltaVarintIds (ids : List Int64) : Int64 × List UInt8 :=
  match ids with
  | [] => (0, [])
  | base :: rest => (base, encodeIdDeltas base (base :: rest))

def decodeIdDeltas (buf : List UInt8) :
    (count : Nat) → (current : UInt64) → (previous : Int64) → (position : Nat) →
      IoResult (List Int64 × Nat)
  | 0, _, _, position => .ok ([], position)
  | count + 1, current, previous, position => do
    let (delta, position) ← readU64Varint buf position
    let id := (current + delta).toInt64
    rejectIf (id < previous)
      (invalidData "decoded ID sequence is not monotonically non-decreasing")
    let (ids, position) ← decodeIdDeltas buf count (current + delta) id position
    return (id :: ids, position)

def decodeDeltaVarintIds (base : Int64) (buf : List UInt8) (count : Nat) :
    IoResult (List Int64) := do
  let (ids, position) ← decodeIdDeltas buf count base.toUInt64 base 0
  rejectIf (position ≠ buf.length) (invalidData "trailing bytes in delta-varint ID section")
  return ids

theorem u64VarintRules_admits : u64VarintRules.Admits 9 (2 ^ 64 - 1) where
  bound := by norm_num
  inner := by
    intro i hi d _
    exact rejectIf_of_not (by omega)
  final := by
    intro i hi d hd _ hle
    apply rejectIf_of_not
    rintro ⟨hshift, hbits⟩
    have hi9 : i = 9 := by omega
    subst hi9
    have hd2 : d < 2 := by
      by_contra hge
      omega
    rcases (by omega : d = 0 ∨ d = 1) with rfl | rfl
    · exact hbits (by decide)
    · exact hbits (by decide)

theorem readU64Varint_write (value : UInt64) (pre rest : List UInt8) :
    readU64Varint (pre ++ writeU64Varint value ++ rest) pre.length =
      .ok (value, pre.length + (writeU64Varint value).length) := by
  have hle : value.toNat ≤ 2 ^ 64 - 1 := by
    have := value.toNat_lt
    omega
  have hread := Varint.read_encode u64VarintRules_admits hle pre rest
  simp only [readU64Varint, writeU64Varint, hread, ok_bind, pure_eq_ok, UInt64.ofNat_toNat]

theorem decodeIdDeltas_encode (ids : List Int64) (previous : Int64) (pre : List UInt8)
    (hsorted : (previous :: ids).Pairwise (· ≤ ·)) :
    decodeIdDeltas (pre ++ encodeIdDeltas previous ids) ids.length previous.toUInt64 previous
      pre.length = .ok (ids, (pre ++ encodeIdDeltas previous ids).length) := by
  induction ids generalizing previous pre with
  | nil => simp [decodeIdDeltas, encodeIdDeltas]
  | cons id ids ih =>
    obtain ⟨hfirst, hrest⟩ := pairwise_cons.mp hsorted
    have hle : ¬id < previous := by
      rw [Int64.lt_iff_toInt_lt, not_lt, ← Int64.le_iff_toInt_le]
      exact hfirst id (by simp)
    have hsum : previous.toUInt64 + (id.toUInt64 - previous.toUInt64) = id.toUInt64 := by
      rw [UInt64.add_comm, UInt64.sub_add_cancel]
    have hnext := ih id (pre ++ writeU64Varint (id.toUInt64 - previous.toUInt64)) hrest
    rw [append_assoc] at hnext
    have hread := readU64Varint_write (id.toUInt64 - previous.toUInt64) pre
      (encodeIdDeltas id ids)
    rw [append_assoc] at hread
    simp only [encodeIdDeltas, length_cons, decodeIdDeltas, hread, ok_bind, hsum,
      Int64.toInt64_toUInt64, rejectIf_of_not hle]
    rw [← length_append, hnext]
    rfl

variable {buf : List UInt8} {count : Nat} {ids : List Int64}

theorem decodeDeltaVarintIds_eq_ok {base : Int64} : decodeDeltaVarintIds base buf count = .ok ids ↔
      decodeIdDeltas buf count base.toUInt64 base 0 = .ok (ids, buf.length) := by
  simp only [decodeDeltaVarintIds, accepted, not_not]
  constructor
  · rintro ⟨_, h, hlast, rfl⟩
    rw [h, ← hlast]
  · intro h
    exact ⟨_, h, rfl, rfl⟩

theorem decodeDeltaVarintIds_encode (hsorted : ids.Pairwise (· ≤ ·)) :
    decodeDeltaVarintIds (encodeDeltaVarintIds ids).1 (encodeDeltaVarintIds ids).2 ids.length =
      .ok ids := by
  cases ids with
  | nil => rfl
  | cons base rest =>
    have hfirst : (base :: base :: rest).Pairwise (· ≤ ·) := by
      refine pairwise_cons.mpr ⟨fun id hid => ?_, hsorted⟩
      rcases mem_cons.mp hid with rfl | hid
      · exact Int64.le_refl _
      · exact (pairwise_cons.mp hsorted).1 id hid
    have hdecode := decodeIdDeltas_encode (base :: rest) base [] hfirst
    simp only [nil_append, length_nil] at hdecode
    exact decodeDeltaVarintIds_eq_ok.mpr hdecode

variable {position : Nat}

theorem decodeIdDeltas_length {current : UInt64} {previous : Int64} {final : Nat}
    (h : decodeIdDeltas buf count current previous position = .ok (ids, final)) :
    ids.length = count := by
  induction count generalizing current previous position ids with
  | zero =>
    cases h
    rfl
  | succ count ih =>
    simp only [decodeIdDeltas, accepted, Prod.mk.injEq] at h
    obtain ⟨_, _, _, ⟨rest, last⟩, hrest, rfl, rfl⟩ := h
    rw [length_cons, ih hrest]

theorem decodeDeltaVarintIds_length {base : Int64}
    (h : decodeDeltaVarintIds base buf count = .ok ids) : ids.length = count :=
  decodeIdDeltas_length (decodeDeltaVarintIds_eq_ok.mp h)

theorem encodeIdDeltas_length_le (previous : Int64) (ids : List Int64) :
    (encodeIdDeltas previous ids).length ≤ 10 * ids.length := by
  induction ids generalizing previous with
  | nil => simp [encodeIdDeltas]
  | cons id ids ih =>
    have hfirst := Varint.encode_length_le 9 (id.toUInt64 - previous.toUInt64).toNat
    have hrest := ih id
    rw [encodeIdDeltas, length_append, length_cons, writeU64Varint]
    omega

theorem encodeIdDeltas_ne_nil (previous id : Int64) (ids : List Int64) :
    encodeIdDeltas previous (id :: ids) ≠ [] := by
  intro h
  exact Varint.encode_ne_nil _ _ (append_eq_nil_iff.mp h).1

theorem decodeIdDeltas_sorted {current : UInt64} {previous : Int64} {final : Nat}
    (h : decodeIdDeltas buf count current previous position = .ok (ids, final)) :
    (previous :: ids).Pairwise (· ≤ ·) := by
  induction count generalizing current previous position ids with
  | zero =>
    cases h
    exact pairwise_singleton _ _
  | succ count ih =>
    simp only [decodeIdDeltas, accepted, Prod.mk.injEq] at h
    obtain ⟨⟨delta, next⟩, -, hle, ⟨rest, last⟩, hrest, rfl, rfl⟩ := h
    have hsorted := ih hrest
    have hfirst : previous ≤ (current + delta).toInt64 := Int64.not_lt.mp hle
    refine pairwise_cons.mpr ⟨fun id hid => ?_, hsorted⟩
    rcases mem_cons.mp hid with rfl | hid
    · exact hfirst
    · exact Int64.le_trans hfirst ((pairwise_cons.mp hsorted).1 id hid)

theorem decodeIdDeltas_head {base : Int64} {final : Nat}
    (h : decodeIdDeltas buf (count + 1) base.toUInt64 base position = .ok (ids, final)) :
    ids.head? = some base ↔ ∃ next, readU64Varint buf position = .ok (0, next) := by
  simp only [decodeIdDeltas, accepted, Prod.mk.injEq] at h
  obtain ⟨⟨delta, next⟩, hread, -, ⟨rest, last⟩, -, rfl, -⟩ := h
  rw [List.head?_cons, hread, Option.some.injEq]
  constructor
  · intro hsame
    have hword : base.toUInt64 + delta = base.toUInt64 + 0 := by
      rw [UInt64.add_zero]
      conv_rhs => rw [← hsame]
      exact (UInt64.toUInt64_toInt64 _).symm
    exact ⟨next, by rw [(UInt64.add_right_inj _).mp hword]⟩
  · rintro ⟨next', hzero⟩
    have hdelta : delta = 0 := by
      injection hzero with hpair
      exact congrArg Prod.fst hpair
    rw [hdelta, UInt64.add_zero, Int64.toInt64_toUInt64]

/-- Ascending ids are read back, and every accepted string holds an ascending
list of the given length up to its last byte. That the list begins with the base
is not checked: it does exactly when the first difference is zero. -/
theorem delta_varint_ids_begin_with_base_iff (sorted : List Int64) (base : Int64)
    (buf : List UInt8) (count : Nat) (ids : List Int64) :
    (sorted.Pairwise (· ≤ ·) →
      decodeDeltaVarintIds (encodeDeltaVarintIds sorted).1 (encodeDeltaVarintIds sorted).2
        sorted.length = .ok sorted) ∧
    (1 ≤ count → decodeDeltaVarintIds base buf count = .ok ids →
      ((ids.length = count ∧ ids.Pairwise (· ≤ ·) ∧ ids.head? = some base ∧
          decodeIdDeltas buf count base.toUInt64 base 0 = .ok (ids, buf.length)) ↔
        ∃ next, readU64Varint buf 0 = .ok (0, next))) := by
  refine ⟨fun hsorted => decodeDeltaVarintIds_encode hsorted, fun hcount h => ?_⟩
  obtain ⟨rest, rfl⟩ := Nat.exists_eq_add_of_le' hcount
  have hlength := decodeDeltaVarintIds_length h
  have hfound := decodeDeltaVarintIds_eq_ok.mp h
  have hsorted := (pairwise_cons.mp (decodeIdDeltas_sorted hfound)).2
  rw [← decodeIdDeltas_head hfound]
  exact ⟨fun hall => hall.2.2.1, fun hfirst => ⟨hlength, hsorted, hfirst, hfound⟩⟩

theorem delta_varint_ids_begin_with_base_five :
    decodeDeltaVarintIds 5 [0, 0, 3] 3 = .ok [5, 5, 8] ∧
      decodeIdDeltas [0, 0, 3] 3 (5 : Int64).toUInt64 5 0 = .ok ([5, 5, 8], 3) := by
  have haccepted : decodeDeltaVarintIds 5 [0, 0, 3] 3 = .ok [5, 5, 8] := by rfl
  have hzero : readU64Varint [0, 0, 3] 0 = .ok (0, 1) := by rfl
  exact ⟨haccepted,
    (((delta_varint_ids_begin_with_base_iff [] 5 [0, 0, 3] 3 [5, 5, 8]).2 (by decide)
    haccepted).mpr ⟨1, hzero⟩).2.2.2⟩

/-- A single difference of one is accepted, and the list begins behind its base. -/
theorem delta_varint_ids_begin_behind_base :
    decodeDeltaVarintIds 5 [1] 1 = .ok [6] ∧ ([6] : List Int64).head? ≠ some 5 :=
  ⟨rfl, by decide⟩

end PaimonVindex
