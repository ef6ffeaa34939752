import PaimonVindex.DiskAnn.RowIds

/-! Row ids are read back from their section, and both ways of reading an
accepted section agree. -/

namespace PaimonVindex

open Checked BitPack RowIdStorage List

variable {count : Nat} {value : Nat → Nat}

section Bounds

/-- The smallest and the largest of some ids. -/
structure Spans (ids : List Int64) (bounds : Int64 × Int64) : Prop where
  low : bounds.1 ∈ ids
  high : bounds.2 ∈ ids
  between : ∀ id ∈ ids, bounds.1.toInt ≤ id.toInt ∧ id.toInt ≤ bounds.2.toInt

theorem Spans.snoc {ids : List Int64} {bounds : Int64 × Int64} (h : Spans ids bounds)
    (id : Int64) : Spans (ids ++ [id]) (min bounds.1 id, max bounds.2 id) := by
  have hmin : min bounds.1 id = if bounds.1.toInt ≤ id.toInt then bounds.1 else id :=
    if_congr Int64.le_iff_toInt_le rfl rfl
  have hmax : max bounds.2 id = if bounds.2.toInt ≤ id.toInt then id else bounds.2 :=
    if_congr Int64.le_iff_toInt_le rfl rfl
  rw [hmin, hmax]
  refine ⟨?_, ?_, fun other hother => ?_⟩ <;> dsimp only
  · split <;> simp [h.low]
  · split <;> simp [h.high]
  · have hlow := h.between _ h.low
    rw [mem_append, mem_singleton] at hother
    rcases hother with hold | rfl
    · have hold := h.between other hold
      split <;> split <;> omega
    · split <;> split <;> omega

theorem Spans.foldl (rowIdAt : Nat → Int64) (nodes : List Nat) {ids : List Int64}
    {bounds : Int64 × Int64} (h : Spans ids bounds) :
    Spans (ids ++ nodes.map rowIdAt) (nodes.foldl (fun bounds node =>
      (min bounds.1 (rowIdAt node), max bounds.2 (rowIdAt node))) bounds) := by
  induction nodes generalizing ids bounds with
  | nil => simpa using h
  | cons node nodes ih => simpa using ih (h.snoc (rowIdAt node))

/-- The bounds of a sequence of ids. -/
structure BoundsOf (count : Nat) (rowIdAt : Nat → Int64) (base maximum : Int64) : Prop where
  base_le : ∀ i < count, base.toInt ≤ (rowIdAt i).toInt
  le_maximum : ∀ i < count, (rowIdAt i).toInt ≤ maximum.toInt
  base_attained : ∃ i < count, rowIdAt i = base
  maximum_attained : ∃ i < count, rowIdAt i = maximum

theorem rowIdBounds_spec (hcount : 0 < count) (rowIdAt : Nat → Int64) :
    BoundsOf count rowIdAt (rowIdBounds count rowIdAt).1 (rowIdBounds count rowIdAt).2 := by
  have hspans : Spans [rowIdAt 0] (rowIdAt 0, rowIdAt 0) := ⟨by simp, by simp, by simp⟩
  have hall : Spans _ (rowIdBounds count rowIdAt) :=
    hspans.foldl rowIdAt (List.range' 1 (count - 1))
  have hids : [rowIdAt 0] ++ (List.range' 1 (count - 1)).map rowIdAt =
      (List.range count).map rowIdAt := by
    obtain ⟨n, rfl⟩ := Nat.exists_eq_succ_of_ne_zero hcount.ne'
    rw [range_eq_range', range'_succ]
    rfl
  rw [hids] at hall
  have hmem : ∀ i < count, rowIdAt i ∈ (List.range count).map rowIdAt :=
    fun i hi => mem_map_of_mem (mem_range.mpr hi)
  exact ⟨fun i hi => (hall.between _ (hmem i hi)).1, fun i hi => (hall.between _ (hmem i hi)).2,
    by simpa using hall.low, by simpa using hall.high⟩

end Bounds

section Width

theorem significantBits_le_iff {span width : Nat} :
    significantBits span ≤ width ↔ span < 2 ^ width := by
  rw [significantBits]
  split
  · next hzero => simp [hzero]
  · next hne => exact Nat.log2_lt hne

theorem packedRowIdPayloadLen_eq (count bitWidth : Nat) : packedRowIdPayloadLen count bitWidth =
    if count * bitWidth + 7 < wordSize then .ok ((count * bitWidth + 7) / 8)
    else .error (invalidInput "DiskANN packed row-ID length overflows usize") := by
  rw [packedRowIdPayloadLen]
  split
  · rename_i hfit
    rw [checkedMul_of_lt (by omega), Option.bind_some, checkedAdd_of_lt hfit]
    rfl
  · rename_i hover
    have hnone : (checkedMul count bitWidth).bind (checkedAdd · 7) = none := by
      rw [Option.eq_none_iff_forall_ne_some]
      intro bits hbits
      obtain ⟨_, hmul, hadd⟩ := Option.bind_eq_some_iff.mp hbits
      obtain ⟨rfl, -⟩ := checkedMul_eq_some.mp hmul
      exact hover (checkedAdd_eq_some.mp hadd).2
    rw [hnone]
    rfl

end Width

variable {payload : List UInt8} {bitWidth : Nat} {base : Int64}

section Pack

theorem packRowIdDelta_packed {node : Nat} (h : Packed payload bitWidth node value)
    (hvalue : value node < 2 ^ bitWidth) (hroom : (node + 1) * bitWidth ≤ payload.length * 8)
    (hword : node * bitWidth < wordSize) :
    ∃ payload', packRowIdDelta payload node bitWidth (value node) = .ok payload' ∧
      payload'.length = payload.length ∧ Packed payload' bitWidth (node + 1) value := by
  by_cases hzero : bitWidth = 0
  · refine ⟨payload, if_pos hzero, rfl, fun k => ?_⟩
    rw [h k, hzero]
    simp
  · have hin : ¬ payload.length < node * bitWidth / 8 + byteCount (node * bitWidth) bitWidth := by
      rw [Nat.succ_mul] at hroom
      rw [byteCount]
      omega
    refine ⟨orField payload (node * bitWidth) bitWidth (value node), ?_, orField_length _ _ _ _,
      h.orField hvalue hroom⟩
    rw [packRowIdDelta, if_neg hzero, checkedMul_of_lt hword, okOr_some, ok_bind,
      rejectIf_bind hin, pure_eq_ok]

theorem pack_run {payloadLen : Nat} {rowIdAt : Nat → Int64}
    (hdelta : ∀ i < count, u64OfInt ((rowIdAt i).toInt - base.toInt) = some (value i))
    (hvalue : ∀ i < count, value i < 2 ^ bitWidth) (hroom : count * bitWidth ≤ payloadLen * 8)
    (hword : count * bitWidth < wordSize) {n : Nat} (hn : n ≤ count) :
    ∃ payload, (List.range n).foldlM (fun payload node => do
        let delta ← okOr (u64OfInt ((rowIdAt node).toInt - base.toInt))
          (panicked "the row ID is not below the selected base")
        packRowIdDelta payload node bitWidth delta) (List.replicate payloadLen 0) = .ok payload ∧
      payload.length = payloadLen ∧ Packed payload bitWidth n value := by
  induction n with
  | zero => exact ⟨_, rfl, length_replicate, packed_zero _ _ _⟩
  | succ n ih =>
    obtain ⟨payload, hpayload, hlength, hpacked⟩ := ih (by omega)
    have hle := Nat.mul_le_mul_right bitWidth hn
    have hmul : (n + 1) * bitWidth = n * bitWidth + bitWidth := Nat.succ_mul _ _
    obtain ⟨payload', hnext, hlength', hpacked'⟩ := packRowIdDelta_packed hpacked
      (hvalue n (by omega)) (by rw [hlength]; omega) (by omega)
    refine ⟨payload', ?_, hlength'.trans hlength, hpacked'⟩
    rw [range_succ, foldlM_append, hpayload, ok_bind, foldlM_cons,
      hdelta n (by omega), okOr_some, ok_bind, hnext, ok_bind, foldlM_nil, pure_eq_ok]

theorem unpackRowIdDeltaAtBitOffset_packed {i : Nat} (h : Packed payload bitWidth count value)
    (hi : i < count) (hvalue : value i < 2 ^ bitWidth)
    (hroom : count * bitWidth ≤ payload.length * 8) :
    unpackRowIdDeltaAtBitOffset payload (i * bitWidth) bitWidth = some (value i) := by
  by_cases hzero : bitWidth = 0
  · subst hzero
    have hnone : value i = 0 := by omega
    rw [unpackRowIdDeltaAtBitOffset, if_pos rfl, hnone]
  · have hle := Nat.mul_le_mul_right bitWidth hi
    rw [Nat.succ_mul] at hle
    have hin : ¬ payload.length < i * bitWidth / 8 + byteCount (i * bitWidth) bitWidth := by
      rw [byteCount]
      omega
    rw [unpackRowIdDeltaAtBitOffset, if_neg hzero, if_neg hin, h.field hi hvalue]

end Pack

variable {rowIds : List Int64}

namespace RowIdStorage

section Visit

def packedRowId (base : Int64) (bitWidth : Nat) (payload : List UInt8) (bitOffset : Nat) :
    Option Int64 :=
  (unpackRowIdDeltaAtBitOffset payload bitOffset bitWidth).bind fun delta =>
    i64OfInt (base.toInt + delta)

variable {σ : Type} {base : Int64} {bitWidth : Nat} {payload : List UInt8}

theorem visitPacked_eq (visitor : Nat → Int64 → σ → IoResult σ) (rowIds : List Int64)
    (node bitOffset : Nat) (state : σ)
    (hids : ∀ i, (h : i < rowIds.length) →
      packedRowId base bitWidth payload (bitOffset + i * bitWidth) = some rowIds[i])
    (hword : bitOffset + rowIds.length * bitWidth < wordSize) :
    visitPacked visitor base bitWidth payload rowIds.length node bitOffset state =
      visitAll visitor rowIds node state := by
  induction rowIds generalizing node bitOffset state with
  | nil => rfl
  | cons rowId rowIds ih =>
    have hfirst := hids 0 (by simp)
    rw [Nat.zero_mul, Nat.add_zero, packedRowId, Option.bind_eq_some_iff] at hfirst
    obtain ⟨delta, hdelta, hrowId⟩ := hfirst
    rw [length_cons, Nat.succ_mul] at hword
    have hrest : ∀ state, visitPacked visitor base bitWidth payload rowIds.length (node + 1)
        (bitOffset + bitWidth) state = visitAll visitor rowIds (node + 1) state := by
      refine fun state => ih (node + 1) (bitOffset + bitWidth) state (fun i hi => ?_) (by omega)
      have hnext := hids (i + 1) (by simpa using hi)
      rw [Nat.succ_mul, Nat.add_comm (i * bitWidth), ← Nat.add_assoc] at hnext
      exact hnext
    rw [length_cons, visitPacked, hdelta, okOr_some, ok_bind, hrowId, okOr_some, ok_bind,
      visitAll, zipIdx_cons, foldlM_cons]
    simp only [checkedAdd_bind (show bitOffset + bitWidth < wordSize by omega),
      hrest]
    rfl

theorem visitPacked_found {remaining node bitOffset : Nat}
    (h : visitPacked (fun _ _ _ => .ok ()) base bitWidth payload remaining node bitOffset () =
      .ok ()) : ∃ rowIds : List Int64, rowIds.length = remaining ∧
      ∀ i, (hi : i < rowIds.length) →
        packedRowId base bitWidth payload (bitOffset + i * bitWidth) = some rowIds[i] := by
  induction remaining generalizing node bitOffset with
  | zero => exact ⟨[], rfl, fun i hi => absurd hi (Nat.not_lt_zero i)⟩
  | succ remaining ih =>
    simp only [visitPacked, ok_bind, accepted] at h
    obtain ⟨delta, hdelta, rowId, hrowId, next, ⟨rfl, -⟩, hrest⟩ := h
    obtain ⟨rowIds, hlength, hids⟩ := ih hrest
    refine ⟨rowId :: rowIds, by rw [length_cons, hlength], fun i hi => ?_⟩
    cases i with
    | zero =>
      rw [Nat.zero_mul, Nat.add_zero, packedRowId, hdelta]
      exact hrowId
    | succ i =>
      have hnext := hids i (by simpa using hi)
      rw [Nat.add_assoc, Nat.add_comm bitWidth, ← Nat.succ_mul] at hnext
      exact hnext

end Visit

theorem visitAll_ok (rowIds : List Int64) (start : Nat) :
    visitAll (fun _ _ _ => .ok ()) rowIds start () = .ok () := by
  rw [visitAll]
  induction rowIds generalizing start with
  | nil => rfl
  | cons rowId rowIds ih =>
    rw [zipIdx_cons, foldlM_cons, ok_bind]
    exact ih (start + 1)

/-- A storage that both ways of reading see as these ids. -/
structure Holds (storage : RowIdStorage) (rowIds : List Int64) : Prop where
  get_eq : ∀ node, storage.get node = rowIds[node]?
  tryForEach_eq : ∀ (σ : Type) (visitor : Nat → Int64 → σ → IoResult σ) (state : σ),
    storage.tryForEach visitor state = visitAll visitor rowIds 0 state

theorem holds_raw (rowIds : List Int64) : (raw rowIds).Holds rowIds where
  get_eq _ := rfl
  tryForEach_eq _ _ _ := rfl

theorem holds_packed
    (hids : ∀ i, (h : i < rowIds.length) →
      packedRowId base bitWidth payload (i * bitWidth) = some rowIds[i])
    (hword : rowIds.length * bitWidth < wordSize) :
    (forBitPacked base bitWidth rowIds.length payload).Holds rowIds where
  get_eq node := by
    rw [get]
    by_cases hnode : rowIds.length ≤ node
    · rw [if_pos hnode, List.getElem?_eq_none hnode]
    · have hlt := Nat.lt_of_not_le hnode
      have hle := Nat.mul_le_mul_right bitWidth hlt
      rw [Nat.succ_mul] at hle
      rw [if_neg hnode, unpackRowIdDelta, checkedMul_of_lt (by omega), Option.bind_some,
        List.getElem?_eq_getElem hlt]
      exact hids node hlt
  tryForEach_eq σ visitor state := by
    refine visitPacked_eq visitor rowIds 0 0 state (fun i hi => ?_) (by omega)
    rw [Nat.zero_add]
    exact hids i hi

end RowIdStorage

section Encode

theorem u64OfInt_sub {a b : Int64} (h : b.toInt ≤ a.toInt) :
    u64OfInt (a.toInt - b.toInt) = some (a.toInt - b.toInt).toNat := by
  have ha := a.toInt_lt
  have hb := b.le_toInt
  exact if_pos (by omega)

def rowIdWidth (rowIds : List Int64) : Nat :=
  let bounds := rowIdBounds rowIds.length fun node => rowIds.getD node 0
  significantBits (bounds.2.toInt - bounds.1.toInt).toNat

def rowIdBase (rowIds : List Int64) : Int64 :=
  (rowIdBounds rowIds.length fun node => rowIds.getD node 0).1

def rowIdMaximum (rowIds : List Int64) : Int64 :=
  (rowIdBounds rowIds.length fun node => rowIds.getD node 0).2

def rowIdDelta (rowIds : List Int64) (node : Nat) : Nat :=
  ((rowIds.getD node 0).toInt - (rowIdBase rowIds).toInt).toNat

variable {rowIds : List Int64}

theorem span_lt (a b : Int64) : (a.toInt - b.toInt).toNat < 2 ^ 64 := by
  have ha := a.toInt_lt
  have hb := b.le_toInt
  omega

theorem rowIdWidth_le (rowIds : List Int64) : rowIdWidth rowIds ≤ 64 :=
  significantBits_le_iff.mpr (span_lt _ _)

theorem map_range_getD (rowIds : List Int64) :
    ((List.range rowIds.length).map fun node => rowIds.getD node 0) = rowIds := by
  refine ext_getElem (by simp) fun i hi hi' => ?_
  rw [getElem_map, getElem_range, getD_eq_getElem _ _ hi']

variable (hne : rowIds ≠ [])

include hne

theorem rowIdBounds_of_ne_nil : BoundsOf rowIds.length
    (fun node => rowIds.getD node 0) (rowIdBase rowIds) (rowIdMaximum rowIds) :=
  rowIdBounds_spec (length_pos_iff.mpr hne) _

theorem rowIdDelta_lt {i : Nat} (hi : i < rowIds.length) :
    rowIdDelta rowIds i < 2 ^ rowIdWidth rowIds := by
  have hbounds := rowIdBounds_of_ne_nil hne
  have hhigh := hbounds.le_maximum i hi
  refine lt_of_le_of_lt ?_ (significantBits_le_iff.mp le_rfl)
  rw [rowIdDelta]
  exact Int.toNat_le_toNat (Int.sub_le_sub_right hhigh _)

theorem rowIdWidth_minimal {width : Nat} (h : width < rowIdWidth rowIds) :
    ∃ i < rowIds.length, 2 ^ width ≤ rowIdDelta rowIds i := by
  obtain ⟨i, hi, hmax⟩ := (rowIdBounds_of_ne_nil hne).maximum_attained
  refine ⟨i, hi, (Nat.not_lt.mp (mt significantBits_le_iff.mpr (Nat.not_le.mpr h))).trans ?_⟩
  rw [rowIdDelta, hmax]
  exact le_refl _

theorem encode_eq : encode rowIds =
    if rowIdWidth rowIds = 64 then do
      RowIdStorage.tryReserveExact (rowIds.length * 8)
        (invalidInput "DiskANN raw row-ID allocation failed")
      return .raw rowIds
    else do
      let payloadLen ← packedRowIdPayloadLen rowIds.length (rowIdWidth rowIds)
      RowIdStorage.tryReserveExact payloadLen
        (invalidInput "DiskANN packed row-ID allocation failed")
      let payload ← (List.range rowIds.length).foldlM (fun payload node => do
        let delta ← okOr (u64OfInt ((rowIds.getD node 0).toInt - (rowIdBase rowIds).toInt))
          (panicked "the row ID is not below the selected base")
        packRowIdDelta payload node (rowIdWidth rowIds) delta) (List.replicate payloadLen 0)
      return .forBitPacked (rowIdBase rowIds) (rowIdWidth rowIds) rowIds.length payload := by
  have hpos := length_pos_iff.mpr hne
  have hbounds := rowIdBounds_of_ne_nil hne
  have hspan := u64OfInt_sub ((hbounds.base_le 0 hpos).trans (hbounds.le_maximum 0 hpos))
  rw [rowIdMaximum, rowIdBase] at hspan
  rw [encode, encodeFromFn, rejectIf_bind (by omega)]
  dsimp only
  rw [hspan, okOr_some, ok_bind, map_range_getD]
  rfl

theorem encode_packed (hwidth : rowIdWidth rowIds ≠ 64)
    (hfit : rowIds.length * rowIdWidth rowIds + 7 < 2 ^ 63) :
    ∃ payload, encode rowIds =
        .ok (.forBitPacked (rowIdBase rowIds) (rowIdWidth rowIds) rowIds.length payload) ∧
      payload.length = (rowIds.length * rowIdWidth rowIds + 7) / 8 ∧
      Packed payload (rowIdWidth rowIds) rowIds.length (rowIdDelta rowIds) := by
  have hbounds := rowIdBounds_of_ne_nil hne
  have hword : rowIds.length * rowIdWidth rowIds + 7 < wordSize := hfit.trans (by decide)
  obtain ⟨payload, hpack, hlength, hpacked⟩ := pack_run
    (fun i hi => u64OfInt_sub (hbounds.base_le i hi)) (fun i hi => rowIdDelta_lt hne hi)
    (show rowIds.length * rowIdWidth rowIds ≤
      (rowIds.length * rowIdWidth rowIds + 7) / 8 * 8 by omega) (by omega) (le_refl rowIds.length)
  refine ⟨payload, ?_, hlength, hpacked⟩
  rw [encode_eq hne, if_neg hwidth, packedRowIdPayloadLen_eq,
    if_pos hword, ok_bind, RowIdStorage.tryReserveExact, rejectIf_bind (by omega), hpack,
    ok_bind, pure_eq_ok]

end Encode

section Section

open RowIdStorage

structure SectionFields (bytes encoding width count base payload : List UInt8) : Prop where
  encoding_eq : bytes.take 4 = encoding
  width_eq : (bytes.drop 4).take 4 = width
  count_eq : (bytes.drop 8).take 8 = count
  base_eq : (bytes.drop 16).take 8 = base
  reserved_eq : (bytes.drop 24).take 8 = List.replicate 8 0
  payload_eq : bytes.drop 32 = payload
  length_eq : bytes.length = 32 + payload.length

theorem sectionFields {encoding width count base : List UInt8} (payload : List UInt8)
    (hencoding : encoding.length = 4) (hwidth : width.length = 4) (hcount : count.length = 8)
    (hbase : base.length = 8) :
    SectionFields ([encoding, width, count, base, List.replicate 8 0].flatten ++ payload) encoding
      width count base payload := by
  have hrecord : [encoding, width, count, base, List.replicate 8 0].flatten ++ payload =
      [encoding, width, count, base, List.replicate 8 0, payload].flatten := by simp
  have hlen : [encoding, width, count, base, List.replicate 8 0].flatten.length = 32 := by
    simp [hencoding, hwidth, hcount, hbase]
  obtain ⟨hfirst, hsecond, hthird, hfourth, hfifth, -⟩ :=
    Words.fieldsAt_of_drop (show List.drop 0 _ = _ from hrecord)
  simp only [hencoding, hwidth, hcount, hbase, length_replicate, drop_zero, Nat.reduceAdd] at *
  exact ⟨hfirst, hsecond, hthird, hfourth, hfifth, drop_left' hlen, by rw [length_append, hlen]⟩

variable {bytes : List UInt8}

theorem SectionFields.header {base : List UInt8} {encoding width : UInt32} (bitWidth : Nat)
    (h : SectionFields bytes (u32Bytes encoding) (u32Bytes width) (u64Bytes (UInt64.ofNat count))
      base payload) (hcount : count < wordSize)
    (hshape : rowIdSectionShape encoding width (i64OfBytes base) count =
      .ok (bitWidth, payload.length)) (hlen : 32 + payload.length < wordSize) :
    decodeRowIdSectionHeader bytes bytes.length count =
      .ok ⟨encoding, bitWidth, count, i64OfBytes base⟩ := by
  have hsize : rowIdSectionHeaderSize = 32 := rfl
  have hshort : ¬ bytes.length < rowIdSectionHeaderSize := by
    rw [h.length_eq]
    omega
  have hreserved : ¬ ((bytes.drop 24).take 8).any (· ≠ 0) = true := by
    rw [h.reserved_eq]
    decide
  have hword : (UInt64.ofNat count).toNat = count := UInt64.toNat_ofNat_of_lt hcount
  rw [decodeRowIdSectionHeader, rejectIf_bind hshort, rejectIf_bind hreserved]
  dsimp only
  rw [h.encoding_eq, h.width_eq, h.count_eq, h.base_eq, u32OfBytes_u32Bytes, u32OfBytes_u32Bytes,
    u64OfBytes_u64Bytes, hword, rejectIf_bind (not_not.mpr rfl), hshape, ok_bind]
  dsimp only
  rw [h.length_eq, hsize, checkedAdd_of_lt hlen, rejectIf_bind (not_not.mpr rfl), pure_eq_ok]

theorem raw_fields (rowIds : List Int64) : SectionFields (writeRowIdSection (.raw rowIds))
    (u32Bytes rowIdEncodingRawI64) (u32Bytes 64) (u64Bytes (UInt64.ofNat rowIds.length))
    (List.replicate 8 0) (rowIds.flatMap i64Bytes) :=
  sectionFields _ (u32Bytes_length _) (u32Bytes_length _) (u64Bytes_length _) length_replicate

theorem decode_write_raw (hfit : rowIds.length * 8 < 2 ^ 63) :
    decodeRowIdSectionOwned (writeRowIdSection (.raw rowIds)) rowIds.length =
      .ok (.raw rowIds) := by
  have hword : wordSize = 2 ^ 64 := rfl
  have hpayload : (rowIds.flatMap i64Bytes).length = rowIds.length * 8 :=
    Words.flatMap_length_of_width fun x _ => i64Bytes_length x
  have hids : (Words.chunksExact 8 (rowIds.flatMap i64Bytes)).map i64OfBytes = rowIds := by
    rw [Words.chunksExact_flatMap (by decide) fun x _ => i64Bytes_length x, map_map]
    exact map_id'' i64OfBytes_i64Bytes rowIds
  have hheader := (raw_fields rowIds).header 64 (by omega) (by
    rw [rowIdSectionShape, if_pos rfl, rejectIf_bind (by decide), checkedMul_bind (by omega),
      hpayload, pure_eq_ok]) (by omega)
  rw [decodeRowIdSectionOwned, hheader, ok_bind, RowIdSectionHeader.storage, if_pos rfl,
    RowIdStorage.tryReserveExact, rejectIf_bind (Nat.not_le.mpr hfit), pure_bind,
    show rowIdSectionHeaderSize = 32 from rfl, (raw_fields rowIds).payload_eq, hids,
    validateRowIdStorage, checkTailBits, ok_bind, (holds_raw rowIds).tryForEach_eq, visitAll_ok,
    ok_bind, pure_eq_ok]

theorem tail_bits_clear {byte : UInt8} {tailBits : Nat} (htail : tailBits < 8)
    (h : byte.toNat < 2 ^ tailBits) :
    byte &&& ~~~((1 <<< UInt8.ofNat tailBits) - 1) = 0 := by
  have hall : ∀ t : Fin 8, ∀ b : Fin 256, b.val < 2 ^ t.val →
      UInt8.ofNat b.val &&& ~~~((1 <<< UInt8.ofNat t.val) - 1) = 0 := by decide +kernel
  have hbyte := hall ⟨tailBits, htail⟩ ⟨byte.toNat, byte.toNat_lt⟩ h
  rwa [UInt8.ofNat_toNat] at hbyte

theorem packed_tail (h : Packed payload bitWidth count value)
    (hlength : payload.length = (count * bitWidth + 7) / 8) :
    ¬ (count * bitWidth % 8 ≠ 0 ∧ payload.getLast?.any (fun byte =>
      byte &&& ~~~((1 <<< UInt8.ofNat (count * bitWidth % 8)) - 1) ≠ 0) = true) := by
  rintro ⟨htail, hany⟩
  obtain ⟨byte, hlast, hbyte⟩ := (Option.any_eq_true _ _).mp hany
  refine of_decide_eq_true hbyte (tail_bits_clear (Nat.mod_lt _ (by decide)) ?_)
  refine Nat.lt_pow_two_of_testBit _ fun j hj => ?_
  by_cases hbits : j < 8
  · have hget : payload.getD (payload.length - 1) 0 = byte := by
      rw [getD_eq_getElem?_getD, ← List.getLast?_eq_getElem?, hlast]
      rfl
    have hbit := h ((payload.length - 1) * 8 + j)
    have hdiv : ((payload.length - 1) * 8 + j) / 8 = payload.length - 1 := by omega
    have hmod : ((payload.length - 1) * 8 + j) % 8 = j := by omega
    have hout : ¬ (payload.length - 1) * 8 + j < count * bitWidth := by omega
    rwa [bit, hdiv, hmod, hget, decide_eq_false hout, Bool.false_and] at hbit
  · exact testBit_byte_of_le byte (Nat.le_of_not_lt hbits)

theorem decode_write_packed (hwidth : bitWidth < 64) (hfit : count * bitWidth + 7 < wordSize)
    (hcount : count < wordSize) (hpayload : payload.length = (count * bitWidth + 7) / 8)
    (hpacked : Packed payload bitWidth count value)
    (hholds : (forBitPacked base bitWidth count payload).Holds rowIds) :
    decodeRowIdSectionOwned (writeRowIdSection (.forBitPacked base bitWidth count payload)) count =
      .ok (.forBitPacked base bitWidth count payload) := by
  have hfields : SectionFields (writeRowIdSection (.forBitPacked base bitWidth count payload))
      _ _ _ _ payload := sectionFields _ (u32Bytes_length _) (u32Bytes_length _) (u64Bytes_length _)
    (i64Bytes_length _)
  have hwidthWord : (UInt32.ofNat bitWidth).toNat = bitWidth :=
    UInt32.toNat_ofNat_of_lt (by rw [UInt32.size]; omega)
  have hlen : packedRowIdPayloadLen count bitWidth = .ok payload.length := by
    rw [packedRowIdPayloadLen_eq, if_pos hfit, hpayload]
  have hencoding : rowIdEncodingForBitpack ≠ rowIdEncodingRawI64 := by decide
  have hword : wordSize = 2 ^ 64 := rfl
  have hheader := hfields.header bitWidth hcount (by
    rw [rowIdSectionShape, if_neg hencoding, if_pos rfl, hwidthWord, rejectIf_bind (by omega), hlen]
    rfl) (by omega)
  rw [decodeRowIdSectionOwned, hheader, ok_bind, RowIdSectionHeader.storage, if_neg hencoding,
    pure_bind, show rowIdSectionHeaderSize = 32 from rfl, hfields.payload_eq, i64OfBytes_i64Bytes,
    validateRowIdStorage, checkTailBits]
  dsimp only
  rw [checkedMul_bind (by omega), rejectIf_bind (packed_tail hpacked hpayload),
    hholds.tryForEach_eq, visitAll_ok, ok_bind, pure_eq_ok]

theorem decodeRowIdSectionHeader_ok {sectionLen : Nat} {header : RowIdSectionHeader}
    (h : decodeRowIdSectionHeader bytes sectionLen count = .ok header) :
    header.count = count ∧
      (header.encoding = rowIdEncodingRawI64 ∧ sectionLen = 32 + count * 8 ∨
        header.encoding ≠ rowIdEncodingRawI64 ∧ count * header.bitWidth < wordSize) := by
  simp only [decodeRowIdSectionHeader, accepted] at h
  obtain ⟨-, -, hcount, ⟨bitWidth, payloadLen⟩, hwidth, hlen, rfl⟩ := h
  rw [not_not] at hcount hlen
  obtain ⟨hsum, -⟩ := checkedAdd_eq_some.mp hlen
  refine ⟨hcount, ?_⟩
  dsimp only
  rw [rowIdSectionShape] at hwidth
  split at hwidth
  · next hraw =>
    simp only [accepted, Prod.mk.injEq] at hwidth
    obtain ⟨-, _, ⟨rfl, -⟩, -, rfl⟩ := hwidth
    rw [hcount] at hsum
    exact .inl ⟨hraw, hsum.symm⟩
  · next hpacked =>
    split at hwidth
    · simp only [accepted, Prod.mk.injEq] at hwidth
      obtain ⟨-, len, hok, rfl, -⟩ := hwidth
      rw [hcount, packedRowIdPayloadLen_eq] at hok
      split at hok
      · exact .inr ⟨hpacked, by omega⟩
      · cases hok
    · cases hwidth

/-- The packed offsets of a storage lead to ids in the range of `i64`. -/
def PackedInRange (storage : RowIdStorage) : Prop :=
  ∀ base bitWidth count payload, storage = forBitPacked base bitWidth count payload →
    ∀ i < count, ∃ delta, unpackRowIdDelta payload i bitWidth = some delta ∧
      -2 ^ 63 ≤ base.toInt + (delta : Int) ∧ base.toInt + (delta : Int) < 2 ^ 63

theorem holds_packedInRange (h : (forBitPacked base bitWidth rowIds.length payload).Holds rowIds) :
    PackedInRange (forBitPacked base bitWidth rowIds.length payload) := by
  rintro _ _ _ _ ⟨⟩ i hi
  have hget := h.get_eq i
  rw [RowIdStorage.get, if_neg (by omega), List.getElem?_eq_getElem hi,
    Option.bind_eq_some_iff] at hget
  obtain ⟨delta, hdelta, hrange⟩ := hget
  rw [i64OfInt] at hrange
  split at hrange
  · next hin => exact ⟨delta, hdelta, hin⟩
  · cases hrange

theorem decode_holds {storage : RowIdStorage}
    (h : decodeRowIdSectionOwned bytes count = .ok storage) :
    ∃ rowIds : List Int64, rowIds.length = count ∧ storage.Holds rowIds ∧
      PackedInRange storage := by
  simp only [decodeRowIdSectionOwned, accepted] at h
  obtain ⟨header, hheader, storage, hstorage, ⟨⟩, hvalid, rfl⟩ := h
  obtain ⟨hcount, hraw | hpacked⟩ := decodeRowIdSectionHeader_ok hheader
  · rw [RowIdSectionHeader.storage, if_pos hraw.1] at hstorage
    obtain ⟨-, -, ⟨⟩⟩ := bind_eq_ok.mp hstorage
    refine ⟨_, ?_, holds_raw _, fun _ _ _ _ hpacked => nomatch hpacked⟩
    rw [length_map, Words.chunksExact_length, length_drop, hraw.2,
      show rowIdSectionHeaderSize = 32 from rfl, Nat.add_sub_cancel_left,
      Nat.mul_div_cancel _ (by decide)]
  · rw [RowIdSectionHeader.storage, if_neg hpacked.1] at hstorage
    cases hstorage
    simp only [validateRowIdStorage, bind_eq_ok] at hvalid
    obtain ⟨-, -, hvisit⟩ := hvalid
    obtain ⟨rowIds, hlength, hids⟩ := visitPacked_found hvisit
    rw [hcount] at hlength
    refine ⟨rowIds, hlength, ?_⟩
    rw [hcount, ← hlength]
    have hholds : (forBitPacked header.base header.bitWidth rowIds.length
        (bytes.drop rowIdSectionHeaderSize)).Holds rowIds := by
      refine holds_packed (fun i hi => ?_) (by rw [hlength]; exact hpacked.2)
      have hfound := hids i hi
      rwa [Nat.zero_add] at hfound
    exact ⟨hholds, holds_packedInRange hholds⟩

end Section

open RowIdStorage

def SmallestWidth (rowIds : List Int64) (width : Nat) : Prop :=
  ∃ least ∈ rowIds,
    (∀ id ∈ rowIds, least.toInt ≤ id.toInt ∧ id.toInt - least.toInt < 2 ^ width) ∧
    ∀ smaller < width, ∃ id ∈ rowIds, 2 ^ smaller ≤ id.toInt - least.toInt

section RoundTrip

variable {rowIds : List Int64}

theorem smallestWidth (hne : rowIds ≠ []) : SmallestWidth rowIds (rowIdWidth rowIds) := by
  have hbounds := rowIdBounds_of_ne_nil hne
  have hmem : ∀ i < rowIds.length, rowIds.getD i 0 ∈ rowIds := fun i hi => by
    rw [getD_eq_getElem _ _ hi]
    exact getElem_mem hi
  obtain ⟨least, hleast, hbase⟩ := hbounds.base_attained
  refine ⟨rowIdBase rowIds, hbase ▸ hmem least hleast, fun id hid => ?_, fun smaller hsmaller => ?_⟩
  · obtain ⟨i, hi, rfl⟩ := getElem_of_mem hid
    have hlow := hbounds.base_le i hi
    have hdelta := rowIdDelta_lt hne hi
    rw [rowIdDelta, getD_eq_getElem _ _ hi, Int.toNat_lt'] at hdelta
    · rw [getD_eq_getElem _ _ hi] at hlow
      exact ⟨hlow, by exact_mod_cast hdelta⟩
    · exact Nat.two_pow_pos _
  · obtain ⟨i, hi, hdelta⟩ := rowIdWidth_minimal hne hsmaller
    refine ⟨rowIds.getD i 0, hmem i hi, ?_⟩
    have hlow := hbounds.base_le i hi
    rw [rowIdDelta, Int.le_toNat (by omega)] at hdelta
    exact_mod_cast hdelta

theorem packedRowId_delta (hne : rowIds ≠ [])
    (hpacked : Packed payload (rowIdWidth rowIds) rowIds.length (rowIdDelta rowIds))
    (hroom : rowIds.length * rowIdWidth rowIds ≤ payload.length * 8) (i : Nat)
    (hi : i < rowIds.length) :
    packedRowId (rowIdBase rowIds) (rowIdWidth rowIds) payload (i * rowIdWidth rowIds) =
      some rowIds[i] := by
  have hlow := (rowIdBounds_of_ne_nil hne).base_le i hi
  have hget : rowIds.getD i 0 = rowIds[i] := getD_eq_getElem _ _ hi
  have hsum : (rowIdBase rowIds).toInt + (rowIdDelta rowIds i : Int) = rowIds[i].toInt := by
    rw [rowIdDelta, hget]
    rw [hget] at hlow
    omega
  have hrange := rowIds[i].toInt_lt
  have hrange' := rowIds[i].le_toInt
  rw [packedRowId, unpackRowIdDeltaAtBitOffset_packed hpacked hi (rowIdDelta_lt hne hi) hroom,
    Option.bind_some, hsum, i64OfInt, if_pos ⟨hrange', hrange⟩, Int64.ofInt_toInt]

theorem decode_encoded (hne : rowIds ≠ []) (hlen : rowIds.length < 2 ^ 32) : ∃ storage decoded,
    encode rowIds = .ok storage ∧
      decodeRowIdSectionOwned (writeRowIdSection storage) rowIds.length = .ok decoded ∧
      decoded.Holds rowIds ∧ SmallestWidth rowIds storage.bitWidth := by
  have hword : wordSize = 2 ^ 64 := rfl
  have hsmallest := smallestWidth hne
  by_cases hwidth : rowIdWidth rowIds = 64
  · rw [hwidth] at hsmallest
    refine ⟨raw rowIds, raw rowIds, ?_, decode_write_raw (by omega), holds_raw rowIds, hsmallest⟩
    rw [encode_eq hne, if_pos hwidth, RowIdStorage.tryReserveExact,
      rejectIf_bind (by omega), pure_eq_ok]
  · have hle := rowIdWidth_le rowIds
    have hbits := Nat.mul_le_mul hlen.le hle
    obtain ⟨payload, hencode, hpayload, hpacked⟩ := encode_packed hne hwidth (by omega)
    have hholds := holds_packed (packedRowId_delta hne hpacked (by rw [hpayload]; omega)) (by omega)
    exact ⟨_, _, hencode, decode_write_packed (by omega) (by omega) (by omega) hpayload hpacked
      hholds, hholds, hsmallest⟩

end RoundTrip

/-- As many ids as a header can count are read back from their section, with the
smallest width for their offsets. Both ways of reading an accepted section agree. -/
theorem row_id_section_round_trip :
    (∀ rowIds : List Int64, rowIds ≠ [] → rowIds.length < 2 ^ 32 →
      ∃ storage decoded, encode rowIds = .ok storage ∧
        decodeRowIdSectionOwned (writeRowIdSection storage) rowIds.length = .ok decoded ∧
        (∀ node, decoded.get node = rowIds[node]?) ∧
        (∀ (σ : Type) (visitor : Nat → Int64 → σ → IoResult σ) (state : σ),
          decoded.tryForEach visitor state = rowIds.zipIdx.foldlM
            (fun state item => visitor item.2 item.1 state) state) ∧
        SmallestWidth rowIds storage.bitWidth) ∧
    ∀ (bytes : List UInt8) (count : Nat) (storage : RowIdStorage),
      decodeRowIdSectionOwned bytes count = .ok storage →
      ∃ rowIds : List Int64, rowIds.length = count ∧
        (∀ node, storage.get node = rowIds[node]?) ∧
        (∀ (σ : Type) (visitor : Nat → Int64 → σ → IoResult σ) (state : σ),
          storage.tryForEach visitor state = rowIds.zipIdx.foldlM
            (fun state item => visitor item.2 item.1 state) state) ∧
        PackedInRange storage := by
  refine ⟨fun rowIds hne hlen => ?_, fun bytes count storage h => ?_⟩
  · obtain ⟨storage, decoded, hencode, hdecode, hholds, hwidth⟩ := decode_encoded hne hlen
    exact ⟨storage, decoded, hencode, hdecode, hholds.get_eq, hholds.tryForEach_eq, hwidth⟩
  · obtain ⟨rowIds, hlength, hholds, hrange⟩ := decode_holds h
    exact ⟨rowIds, hlength, hholds.get_eq, hholds.tryForEach_eq, hrange⟩

theorem row_id_section_round_trip_signed : ∃ storage decoded,
    encode [5, -3, 5] = .ok storage ∧
      decodeRowIdSectionOwned (writeRowIdSection storage) 3 = .ok decoded ∧
      decoded.get 1 = some (-3) ∧ decoded.get 3 = none ∧ PackedInRange decoded := by
  obtain ⟨storage, decoded, hencode, hdecode, hget, -, -⟩ :=
    row_id_section_round_trip.1 [5, -3, 5] (by decide) (by decide)
  obtain ⟨_, -, -, -, hrange⟩ := row_id_section_round_trip.2 _ _ _ hdecode
  exact ⟨storage, decoded, hencode, hdecode, hget 1, hget 3, hrange⟩

end PaimonVindex
