import PaimonVindex.Io
import PaimonVindex.Lib.Varint

/-! One adjacency list of a DiskANN page: the two encodings, the choice between
them and the decoder. -/

namespace PaimonVindex

open Checked Words List

inductive AdjacencyListEncoding where
  | deltaVarint
  | rawU32
  deriving DecidableEq, Repr

def leadingZeros (value : UInt32) : Nat := if value = 0 then 32 else 31 - value.toNat.log2

def u32VarintLen (value : UInt32) : Nat :=
  let significantBits := max (32 - leadingZeros value) 1
  (significantBits + 6) / 7

def deltaVarintLenFrom : Bool → UInt32 → Nat → List UInt32 → Option Nat
  | _, _, encodedLen, [] => some encodedLen
  | first, previous, encodedLen, neighbor :: rest =>
    if first = false ∧ neighbor ≤ previous then none
    else do
      let encodedLen ← checkedAdd encodedLen (u32VarintLen (neighbor - previous))
      deltaVarintLenFrom false neighbor encodedLen rest

def adjacencyDeltaVarintLen (neighbors : List UInt32) : Option Nat :=
  deltaVarintLenFrom true 0 0 neighbors

def planAdjacencyList (neighbors : List UInt32) : IoResult (AdjacencyListEncoding × Nat) := do
  let rawLen ← okOr (checkedMul neighbors.length 4)
    (invalidInput "DiskANN adjacency list size overflows usize")
  let deltaLen ← okOr (adjacencyDeltaVarintLen neighbors)
    (invalidInput "DiskANN adjacency neighbors must be strictly increasing")
  if neighbors.isEmpty ∨ deltaLen < rawLen then return (.deltaVarint, deltaLen)
  return (.rawU32, rawLen)

def appendU32Varint (value : UInt32) : List UInt8 := Varint.encode 4 value.toNat

def encodeDeltas : UInt32 → List UInt32 → List UInt8
  | _, [] => []
  | previous, neighbor :: rest =>
    appendU32Varint (neighbor - previous) ++ encodeDeltas neighbor rest

def encodeAdjacencyList (neighbors : List UInt32) :
    IoResult (AdjacencyListEncoding × List UInt8) := do
  let (encoding, _) ← planAdjacencyList neighbors
  match encoding with
  | .deltaVarint => return (.deltaVarint, encodeDeltas 0 neighbors)
  | .rawU32 => return (.rawU32, neighbors.flatMap u32Bytes)

def u32VarintRules : Varint.Rules IoError where
  truncated := invalidData "DiskANN adjacency varint is truncated"
  tooLong := invalidData "DiskANN adjacency varint exceeds five bytes"
  check := fun shift byte => do
    rejectIf (shift = 28 ∧ byte.toNat > 0x0f) (invalidData "DiskANN adjacency varint exceeds u32")
    rejectIf (byte.toNat &&& 0x80 = 0 ∧ shift ≠ 0 ∧ byte.toNat = 0)
      (invalidData "DiskANN adjacency varint is not canonical")

def readU32Varint (bytes : List UInt8) (position : Nat) : IoResult (UInt32 × Nat) := do
  let (value, position) ← Varint.read u32VarintRules bytes 5 0 0 position
  return (UInt32.ofNat value, position)

def decodeDeltas (bytes : List UInt8) : Nat → Nat → UInt32 → IoResult (List UInt32 × Nat)
  | 0, position, _ => .ok ([], position)
  | degree + 1, position, previous => do
    let (delta, position) ← readU32Varint bytes position
    let neighbor ← okOr (toU32 (previous.toNat + delta.toNat))
      (invalidData "DiskANN adjacency delta overflows u32")
    let (rest, position) ← decodeDeltas bytes degree position neighbor
    return (neighbor :: rest, position)

/-- The neighbours of a list that starts at the head of `bytes`, and the number
of bytes consumed. -/
def decodeAdjacencyList (bytes : List UInt8) (degree : Nat) (encoding : AdjacencyListEncoding) :
    IoResult (List UInt32 × Nat) :=
  match encoding with
  | .deltaVarint => decodeDeltas bytes degree 0 0
  | .rawU32 => do
    let encodedLen ← okOr (checkedMul degree 4)
      (invalidData "DiskANN raw adjacency size overflows usize")
    let encoded ← okOr (getRange bytes 0 encodedLen)
      (invalidData "DiskANN raw adjacency list is truncated")
    return ((chunksExact 4 encoded).map u32OfBytes, encodedLen)

def adjacencyListErrors : List IoError := [
  invalidData "DiskANN adjacency varint is truncated",
  invalidData "DiskANN adjacency varint exceeds five bytes",
  invalidData "DiskANN adjacency varint exceeds u32",
  invalidData "DiskANN adjacency varint is not canonical",
  invalidData "DiskANN adjacency delta overflows u32",
  invalidData "DiskANN raw adjacency size overflows usize",
  invalidData "DiskANN raw adjacency list is truncated"]

theorem readU32Varint_fails (bytes : List UInt8) (position : Nat) :
    Fails (· ∈ adjacencyListErrors) (readU32Varint bytes position) := by
  refine fails_bind (fun e he => ?_) fun _ _ => fails_ok _
  refine Varint.read_error (P := (· ∈ adjacencyListErrors)) ?_ ?_ ?_ he
  · simp [adjacencyListErrors, u32VarintRules]
  · simp [adjacencyListErrors, u32VarintRules]
  · intro shift byte
    exact fails_bind (fails_rejectIf (by simp [adjacencyListErrors]))
      fun _ _ => fails_rejectIf (by simp [adjacencyListErrors])

theorem decodeDeltas_fails (bytes : List UInt8) (degree position : Nat) (previous : UInt32) :
    Fails (· ∈ adjacencyListErrors) (decodeDeltas bytes degree position previous) := by
  induction degree generalizing position previous with
  | zero => exact fails_ok _
  | succ degree ih =>
    refine fails_bind (readU32Varint_fails bytes position) fun _ _ => ?_
    refine fails_bind (fails_okOr (by simp [adjacencyListErrors])) fun _ _ => ?_
    exact fails_bind (ih _ _) fun _ _ => fails_ok _

theorem decodeAdjacencyList_fails (bytes : List UInt8) (degree : Nat)
    (encoding : AdjacencyListEncoding) :
    Fails (· ∈ adjacencyListErrors) (decodeAdjacencyList bytes degree encoding) := by
  cases encoding with
  | deltaVarint => exact decodeDeltas_fails bytes degree 0 0
  | rawU32 =>
    refine fails_bind (fails_okOr (by simp [adjacencyListErrors])) fun _ _ => ?_
    exact fails_bind (fails_okOr (by simp [adjacencyListErrors])) fun _ _ => fails_ok _

theorem u32VarintRules_admits : u32VarintRules.Admits 4 (2 ^ 32 - 1) where
  bound := by norm_num
  inner := by
    intro i hi d hd
    have hbyte : (UInt8.ofNat (d + 128)).toNat = d + 128 := by
      simp only [UInt8.toNat_ofNat']
      omega
    have hshift : ¬(7 * i = 28 ∧ (UInt8.ofNat (d + 128)).toNat > 0x0f) := by omega
    have hcanonical : ¬((UInt8.ofNat (d + 128)).toNat &&& 0x80 = 0 ∧ 7 * i ≠ 0 ∧
        (UInt8.ofNat (d + 128)).toNat = 0) := by
      rw [hbyte]
      omega
    simp only [u32VarintRules, rejectIf_of_not hshift, rejectIf_of_not hcanonical, ok_bind]
  final := by
    intro i hi d hd hne hle
    have hbyte : (UInt8.ofNat d).toNat = d := by
      simp only [UInt8.toNat_ofNat']
      omega
    have hshift : ¬(7 * i = 28 ∧ (UInt8.ofNat d).toNat > 0x0f) := by
      rintro ⟨h28, hbig⟩
      obtain rfl : i = 4 := by omega
      rw [hbyte] at hbig
      norm_num at hle
      omega
    have hcanonical : ¬((UInt8.ofNat d).toNat &&& 0x80 = 0 ∧ 7 * i ≠ 0 ∧
        (UInt8.ofNat d).toNat = 0) := by
      rw [hbyte]
      rintro ⟨-, hi0, hd0⟩
      exact hne (by omega) hd0
    simp only [u32VarintRules, rejectIf_of_not hshift, rejectIf_of_not hcanonical, ok_bind]

theorem readU32Varint_append (value : UInt32) (pre rest : List UInt8) :
    readU32Varint (pre ++ appendU32Varint value ++ rest) pre.length =
      .ok (value, pre.length + (appendU32Varint value).length) := by
  have hle : value.toNat ≤ 2 ^ 32 - 1 := Nat.le_of_lt_succ value.toNat_lt
  have hread := Varint.read_encode u32VarintRules_admits hle pre rest
  simp only [readU32Varint, appendU32Varint, hread, ok_bind, pure_eq_ok, UInt32.ofNat_toNat]

theorem appendU32Varint_length (value : UInt32) :
    (appendU32Varint value).length = u32VarintLen value := by
  have hlt : value.toNat < 128 ^ (4 + 1) := lt_trans value.toNat_lt (by norm_num)
  rw [appendU32Varint, Varint.encode_length hlt]
  unfold u32VarintLen leadingZeros
  by_cases h0 : value = 0
  · subst h0
    rfl
  · have hne : value.toNat ≠ 0 := fun h => h0 (UInt32.toNat_inj.mp h)
    have hlog : value.toNat.log2 < 32 := (Nat.log2_lt hne).mpr value.toNat_lt
    rw [if_neg h0]
    dsimp only
    omega

variable {neighbors : List UInt32}

theorem deltaVarintLenFrom_eq_some {first : Bool} {previous : UInt32} {len len' : Nat}
    (h : deltaVarintLenFrom first previous len neighbors = some len') :
    len' = len + (encodeDeltas previous neighbors).length ∧ neighbors.IsChain (· < ·) ∧
      (first = false → (previous :: neighbors).IsChain (· < ·)) := by
  induction neighbors generalizing first previous len with
  | nil => simp_all [deltaVarintLenFrom, encodeDeltas]
  | cons neighbor rest ih =>
    simp only [deltaVarintLenFrom] at h
    split at h
    · cases h
    · rename_i hguard
      obtain ⟨mid, hmid, hrest⟩ := Option.bind_eq_some_iff.mp h
      obtain ⟨rfl, -⟩ := checkedAdd_eq_some.mp hmid
      obtain ⟨hlen, -, hchain⟩ := ih hrest
      refine ⟨?_, hchain rfl, ?_⟩
      · rw [hlen, encodeDeltas, length_append, appendU32Varint_length, Nat.add_assoc]
      · intro hfirst
        have hlt : previous < neighbor := by
          rw [← UInt32.not_le]
          exact fun hle => hguard ⟨hfirst, hle⟩
        exact isChain_cons_cons.mpr ⟨hlt, hchain rfl⟩

variable {encoding : AdjacencyListEncoding}

theorem planAdjacencyList_eq_ok {len : Nat}
    (h : planAdjacencyList neighbors = .ok (encoding, len)) :
    neighbors.IsChain (· < ·) ∧ neighbors.length * 4 < wordSize ∧
      adjacencyDeltaVarintLen neighbors = some (encodeDeltas 0 neighbors).length ∧
      (encoding = .deltaVarint ∧ len = (encodeDeltas 0 neighbors).length ∧
          (neighbors = [] ∨ len < neighbors.length * 4) ∨
        encoding = .rawU32 ∧ len = neighbors.length * 4 ∧ neighbors ≠ [] ∧
          len ≤ (encodeDeltas 0 neighbors).length) := by
  simp only [planAdjacencyList, accepted] at h
  obtain ⟨_, ⟨rfl, hfits⟩, deltaLen, hdelta, hchoice⟩ := h
  obtain ⟨hlen, hchain, -⟩ := deltaVarintLenFrom_eq_some hdelta
  rw [Nat.zero_add] at hlen
  subst hlen
  refine ⟨hchain, hfits, hdelta, ?_⟩
  split at hchoice
  · rename_i hsmall
    cases hchoice
    left
    simpa using hsmall
  · rename_i hlarge
    cases hchoice
    right
    simp only [List.isEmpty_iff, not_or, not_lt] at hlarge
    exact ⟨rfl, rfl, hlarge⟩

theorem decodeDeltas_encodeDeltas (neighbors : List UInt32) (previous : UInt32)
    (hchain : (previous :: neighbors).IsChain (· ≤ ·)) (pre rest : List UInt8) :
    decodeDeltas (pre ++ encodeDeltas previous neighbors ++ rest) neighbors.length pre.length
      previous = .ok (neighbors, pre.length + (encodeDeltas previous neighbors).length) := by
  induction neighbors generalizing previous pre with
  | nil => simp [decodeDeltas, encodeDeltas]
  | cons neighbor tail ih =>
    obtain ⟨hle, htail⟩ := isChain_cons_cons.mp hchain
    have hread := readU32Varint_append (neighbor - previous) pre
      (encodeDeltas neighbor tail ++ rest)
    have hsum : toU32 (previous.toNat + (neighbor - previous).toNat) = some neighbor := by
      rw [toU32_eq_some, UInt32.toNat_sub_of_le _ _ hle]
      have := UInt32.le_iff_toNat_le.mp hle
      omega
    have hnext := ih neighbor htail (pre ++ appendU32Varint (neighbor - previous))
    simp only [append_assoc, length_append] at hread hnext
    simp only [encodeDeltas, length_cons, decodeDeltas, append_assoc, hread, hsum,
      ok_bind, okOr_some, hnext, pure_eq_ok, length_append, Nat.add_assoc]

theorem isChain_le_cons_zero (h : neighbors.IsChain (· < ·)) :
    ((0 : UInt32) :: neighbors).IsChain (· ≤ ·) := by
  cases neighbors with
  | nil => simp
  | cons neighbor tail =>
    refine isChain_cons_cons.mpr ⟨UInt32.zero_le, ?_⟩
    exact h.imp fun _ _ hlt => UInt32.le_of_lt hlt

theorem encodeAdjacencyList_eq {len : Nat} (h : planAdjacencyList neighbors = .ok (encoding, len)) :
    ∃ bytes, encodeAdjacencyList neighbors = .ok (encoding, bytes) ∧ bytes.length = len := by
  obtain ⟨-, -, -, ⟨rfl, hlen, -⟩ | ⟨rfl, hlen, -⟩⟩ := planAdjacencyList_eq_ok h
  · exact ⟨encodeDeltas 0 neighbors, by simp only [encodeAdjacencyList, h, ok_bind, pure_eq_ok],
      hlen.symm⟩
  · refine ⟨neighbors.flatMap u32Bytes,
      by simp only [encodeAdjacencyList, h, ok_bind, pure_eq_ok], ?_⟩
    rw [flatMap_length_of_width fun x _ => u32Bytes_length x, hlen]

theorem decodeAdjacencyList_encode {bytes : List UInt8}
    (h : encodeAdjacencyList neighbors = .ok (encoding, bytes)) (rest : List UInt8) :
    decodeAdjacencyList (bytes ++ rest) neighbors.length encoding =
      .ok (neighbors, bytes.length) := by
  simp only [encodeAdjacencyList, bind_eq_ok] at h
  obtain ⟨⟨planned, len⟩, hplan, hmatch⟩ := h
  obtain ⟨hchain, hfits, -, hcases⟩ := planAdjacencyList_eq_ok hplan
  cases planned with
  | deltaVarint =>
    cases hmatch
    simpa [decodeAdjacencyList] using
      decodeDeltas_encodeDeltas neighbors 0 (isChain_le_cons_zero hchain) [] rest
  | rawU32 =>
    cases hmatch
    have hwidth : (neighbors.flatMap u32Bytes).length = neighbors.length * 4 :=
      flatMap_length_of_width fun x _ => u32Bytes_length x
    have hchunks := chunksExact_flatMap (by decide : 0 < 4)
      fun x (_ : x ∈ neighbors) => u32Bytes_length x
    have hrange : getRange (neighbors.flatMap u32Bytes ++ rest) 0 (neighbors.length * 4) =
        some (neighbors.flatMap u32Bytes) := by
      rw [getRange_of_le (Nat.zero_le _) (by simp [hwidth]), drop_zero, Nat.sub_zero,
        ← hwidth, take_left]
    simp only [decodeAdjacencyList, checkedMul_of_lt hfits, okOr_some, ok_bind, hrange, hchunks,
      pure_eq_ok, map_map, hwidth]
    congr 2
    exact (map_congr_left fun x _ => u32OfBytes_u32Bytes x).trans (map_id _)

end PaimonVindex
