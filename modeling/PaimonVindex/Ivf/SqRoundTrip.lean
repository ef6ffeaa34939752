import PaimonVindex.Ivf.SqFile
import PaimonVindex.Ivf.Stored
import PaimonVindex.Lib.Blocks

/-! An IVF-SQ file is read as it was written, up to the size of the bounds
section, which only the reader limits. -/

namespace PaimonVindex

open Checked Words IVFSQIndexReader SeekRead List

section Blocks

variable (rowMajor : List UInt8) (order : List Nat) (d : Nat)

theorem blockSortedSqCodes_eq_blocked : blockSortedSqCodes rowMajor order d Sq.scanBlockSize =
    Blocks.blocked 32 order d fun sourceRow dimension =>
      rowMajor.getD (sourceRow * d + dimension) 0 := rfl

theorem blockSortedSqCodes_getElem? {row dimension : Nat} (hrow : row < order.length)
    (hdimension : dimension < d) :
    (blockSortedSqCodes rowMajor order d Sq.scanBlockSize)[row / 32 * (32 * d) +
        (dimension * min 32 (order.length - row / 32 * 32) + row % 32)]? =
      some (rowMajor.getD (order.getD row 0 * d + dimension) 0) := by
  rw [blockSortedSqCodes_eq_blocked, Blocks.blocked_getElem? (by decide) _ hrow hdimension,
    getD_eq_getElem _ _ hrow, get_eq_getElem]

theorem blockSortedSqCodes_length :
    (blockSortedSqCodes rowMajor order d Sq.scanBlockSize).length = order.length * d := by
  rw [blockSortedSqCodes_eq_blocked, Blocks.blocked_length (by decide)]

end Blocks

theorem validateSqBounds_lengths {d : Nat} {mins maxs : List F32}
    (h : validateSqBounds d mins maxs = .ok ()) : mins.length = d ∧ maxs.length = d := by
  rw [validateSqBounds] at h
  obtain ⟨_, hlen, -⟩ := bind_eq_ok.mp h
  have hnot := rejectIf_eq_ok.mp hlen
  omega

variable {index : IVFSQIndex}

namespace IVFSQIndex

def headFields (index : IVFSQIndex) (total : Int64) : List (List UInt8) :=
  [u32Bytes Sq.magic, u32Bytes Sq.version, i32Bytes (Int32.ofNat index.d),
    i32Bytes (Int32.ofNat index.nlist), u32Bytes index.metric.code, i64Bytes total,
    u32Bytes Sq.bits, u32Bytes Sq.requiredFlags,
    (sqGlobalBounds index.sq.mins index.sq.maxs).1.toBytes,
    (sqGlobalBounds index.sq.mins index.sq.maxs).2.toBytes, List.replicate 20 0]

def tables (index : IVFSQIndex) : List UInt8 :=
  boundsBytes index.sq ++ index.listSqs.flatMap boundsBytes ++
    f32SliceBytes index.quantizerCentroids

def payloads (index : IVFSQIndex) : List (List UInt8) :=
  ((index.ids.map sortedList).zip index.codes).map fun item => index.payload item.1 item.2

/-- What a successful call of the writer has checked and written. -/
structure WrittenAs (index : IVFSQIndex) (total : Int64) (entries : List ListEntry)
    (file : List UInt8) : Prop where
  d_pos : 0 < index.d
  nlist_pos : 0 < index.nlist
  d_lt : index.d < 2 ^ 31
  nlist_lt : index.nlist < 2 ^ 31
  bounds : validateSqBounds index.d index.sq.mins index.sq.maxs = .ok ()
  listBounds : ∀ sq ∈ index.listSqs, validateSqBounds index.d sq.mins sq.maxs = .ok ()
  listSqs_length : index.listSqs.length = index.nlist
  ids_length : index.ids.length = index.nlist
  codes_length : index.codes.length = index.nlist
  section_le : index.nlist * index.d ≤ 2 ^ 30
  centroids_length : index.quantizerCentroids.length = index.nlist * index.d
  codes : ∀ i < index.nlist,
    (index.codes.getD i []).length = (index.ids.getD i []).length * index.d
  total_eq : total.toInt = (index.ids.map List.length).sum
  total_lt : (index.ids.map List.length).sum < 2 ^ 63
  lists : WrittenLists index.payloadLen (invalidInput "IVF-SQ list offset overflow")
    ((index.headFields total).flatten ++ index.tables) index.ids index.payloads entries file

theorem headFields_length (index : IVFSQIndex) (total : Int64) :
    (index.headFields total).flatten.length = 64 := by
  simp [headFields]

theorem payload_length (index : IVFSQIndex) {list : SortedList} (codes : List UInt8)
    (hne : list.order ≠ []) : (index.payload list codes).length =
      12 + list.idBytes.length + list.order.length * index.d := by
  rw [payload, if_neg hne, length_append, idSection_length, blockSortedSqCodes_length, Nat.add_comm]

theorem validateIndexShape_eq_ok (h : index.validateIndexShape = .ok ()) :
    (0 < index.d ∧ 0 < index.nlist) ∧
      validateSqBounds index.d index.sq.mins index.sq.maxs = .ok () ∧
      (index.listSqs.length = index.nlist ∧ index.ids.length = index.nlist ∧
        index.codes.length = index.nlist) ∧
      index.nlist * index.d ≤ 2 ^ 30 ∧ index.quantizerCentroids.length = index.nlist * index.d ∧
      ∀ i < index.nlist, validateSqBounds index.d (index.listSqs.getD i ⟨[], []⟩).mins
          (index.listSqs.getD i ⟨[], []⟩).maxs = .ok () ∧
        (index.codes.getD i []).length = (index.ids.getD i []).length * index.d := by
  simp only [validateIndexShape, sectionSize, accepted, checkedSectionSize_eq_ok, not_not] at h
  obtain ⟨hpos, ⟨⟩, hbounds, hlens, _, ⟨rfl, hsection⟩, hcentroids, units, hall, -⟩ := h
  refine ⟨by omega, hbounds, by omega, hsection, hcentroids, fun i hi => ?_⟩
  obtain ⟨_, hrow, -⟩ := of_mapM_range hall hi
  simp only [checkedListBytes, accepted, not_not] at hrow
  obtain ⟨⟨⟩, hlist, _, ⟨rfl, -⟩, hcodes⟩ := hrow
  exact ⟨hlist, hcodes⟩

theorem payloads_of (hids : index.ids.length = index.nlist)
    (hcodes : index.codes.length = index.nlist) :
    List.Forall₂ (PayloadOf index.payloadLen) (index.ids.map sortedList) index.payloads := by
  refine payloads_of_zip (by rw [length_map, hids, hcodes]) fun item _ => ?_
  refine ⟨fun hnil => by rw [payload, if_pos hnil], fun len hne hlen => ?_⟩
  simp only [payloadLen, sqListPayloadLen, accepted, Option.bind_eq_some_iff] at hlen
  obtain ⟨_, ⟨rfl, -⟩, _, ⟨rfl, -⟩, rfl, -⟩ := hlen
  exact index.payload_length _ hne

theorem writtenAs_of_writeIvfsqIndex {file : List UInt8} (h : index.writeIvfsqIndex = .ok file) :
    ∃ total entries, index.WrittenAs total entries file := by
  simp only [writeIvfsqIndex, accepted, usizeToI32_eq_ok] at h
  obtain ⟨⟨⟩, hshape, total, htotal, _, ⟨hd, rfl⟩, _, ⟨hnlist, rfl⟩, _, ⟨rfl, -⟩, start,
    ⟨hstart, -⟩, entries, hplan, rfl⟩ := h
  obtain ⟨hpos, hbounds, ⟨hsqs, hids, hcodes⟩, hsection, hcentroids, hlists⟩ :=
    validateIndexShape_eq_ok hshape
  obtain ⟨hsum, hbound⟩ := totalVectorCount_eq_ok htotal
  refine ⟨total, entries, hpos.1, hpos.2, hd, hnlist, hbounds, ?_, hsqs, hids, hcodes, hsection,
    hcentroids, fun i hi => (hlists i hi).2, hsum, hbound, ?_, payloads_of hids hcodes, ?_⟩
  · intro sq hsq
    obtain ⟨i, hi, rfl⟩ := mem_iff_getElem.mp hsq
    have hlist := (hlists i (by omega)).1
    rwa [getD_eq_getElem _ _ hi] at hlist
  · rw [hids, headFields, tables]
    rw [← hstart] at hplan
    simpa only [flatten_cons, flatten_nil, append_nil, append_assoc] using hplan
  · simp only [headFields, tables, payloads, flatten_cons, flatten_nil, append_nil,
      append_assoc, flatMap_def]

theorem boundsBytes_length {d : Nat} {sq : ScalarQuantizer F32}
    (h : validateSqBounds d sq.mins sq.maxs = .ok ()) : (boundsBytes sq).length = 2 * d * 4 := by
  obtain ⟨hmins, hmaxs⟩ := validateSqBounds_lengths h
  rw [boundsBytes, length_append, f32SliceBytes_length, f32SliceBytes_length, hmins, hmaxs]
  ring

end IVFSQIndex

section Sections

variable {d : Nat} (hsmall : d * 4 < wordSize)

include hsmall

theorem nextF32Section_slice {data : List F32} (hlen : data.length = d) (rest : List UInt8) :
    Sq.nextF32Section d (f32SliceBytes data ++ rest) = .ok (data, rest) := by
  have hbytes : (f32SliceBytes data).length = d * 4 := by rw [f32SliceBytes_length, hlen]
  rw [Sq.nextF32Section, checkedMul_of_lt hsmall, okOr_some, ok_bind, take_left' hbytes,
    bytesToF32Vec_slice, ok_bind, pure_eq_ok, drop_left' hbytes]

theorem readBounds_boundsBytes {sq : ScalarQuantizer F32}
    (h : validateSqBounds d sq.mins sq.maxs = .ok ()) (rest : List UInt8) :
    Sq.readBounds d (IVFSQIndex.boundsBytes sq ++ rest) = .ok (sq, rest) := by
  obtain ⟨hmins, hmaxs⟩ := validateSqBounds_lengths h
  rw [Sq.readBounds, IVFSQIndex.boundsBytes, append_assoc, nextF32Section_slice hsmall hmins,
    ok_bind]
  dsimp only
  rw [nextF32Section_slice hsmall hmaxs, ok_bind]
  dsimp only
  rw [h, ok_bind, pure_eq_ok]

theorem readListBounds_boundsBytes {sqs : List (ScalarQuantizer F32)}
    (h : ∀ sq ∈ sqs, validateSqBounds d sq.mins sq.maxs = .ok ()) (rest : List UInt8) :
    Sq.readListBounds d sqs.length (sqs.flatMap IVFSQIndex.boundsBytes ++ rest) =
      .ok (sqs, rest) := by
  induction sqs with
  | nil => rfl
  | cons sq sqs ih =>
    rw [flatMap_cons, append_assoc, length_cons, Sq.readListBounds,
      readBounds_boundsBytes hsmall (h sq (by simp)), ok_bind]
    dsimp only
    rw [ih fun sq hsq => h sq (by simp [hsq]), ok_bind, pure_eq_ok]

end Sections

namespace IVFSQIndex

def opened (index : IVFSQIndex) (total : Int64) (entries : List ListEntry) (reader : SeekRead) :
    IVFSQIndexReader F32 where
  reader := reader
  d := index.d
  nlist := index.nlist
  metric := index.metric
  totalVectors := total
  sq := index.sq
  listSqs := index.listSqs
  quantizerCentroids := index.quantizerCentroids
  entries := entries

section Read

variable {index : IVFSQIndex} {total : Int64} {entries : List ListEntry} {file : List UInt8}

theorem entryChecks_stored {start : Nat} {list : List Int64} {payload : List UInt8}
    {entry : ListEntry} (h : StoredAt start file (sortedList list) payload entry) (listId : Nat) :
    Sq.entryChecks.before listId entry = .ok () ∧ Sq.entryChecks.after listId entry = .ok () := by
  have hneg : ¬(entry.count < 0 ∨ entry.idBytesLen < 0) := by
    rintro (hcount | hlen)
    · exact h.count_nonneg hcount
    · exact h.not_idBytesLen_neg hlen
  refine ⟨?_, rfl⟩
  show (rejectIf _ _ >>= fun _ => rejectIf _ _) = _
  rw [rejectIf_bind hneg, rejectIf_of_not h.not_missing]

theorem sqListPayloadLen_of_lt {count codeSize idBytesLen : Nat}
    (h : 12 + idBytesLen + count * codeSize < wordSize) :
    sqListPayloadLen count codeSize idBytesLen = .ok (12 + idBytesLen + count * codeSize) := by
  rw [sqListPayloadLen, checkedAdd_of_lt (by omega), Option.bind_some, checkedMul_of_lt (by omega),
    Option.bind_some, checkedAdd_of_lt h, okOr_some]

theorem decodeListPayload_written (index : IVFSQIndex) {ids : List Int64} {codes : List UInt8}
    (hne : ids ≠ []) (hids : (sortedList ids).idBytes.length < 2 ^ 31)
    (hsmall : (index.payload (sortedList ids) codes).length < wordSize) (listId offset : Nat) :
    decodeListPayload index.d ⟨listId, ids.length, offset,
        (sortedList ids).idBytes.length, (index.payload (sortedList ids) codes).length⟩
        (index.payload (sortedList ids) codes) =
      .ok ⟨listId, sortedIds ids,
        blockSortedSqCodes codes (sortedOrder ids) index.d Sq.scanBlockSize⟩ := by
  have horder := sortedList_order_ne_nil hne
  let blocks := blockSortedSqCodes codes (sortedOrder ids) index.d Sq.scanBlockSize
  have hpayload : index.payload (sortedList ids) codes = blocks ++ (sortedList ids).idSection := by
    rw [payload, if_neg horder, sortedList_order]
  have hblocks : blocks.length = ids.length * index.d := by
    rw [blockSortedSqCodes_length, sortedOrder_length]
  have hlen := index.payload_length codes horder
  rw [sortedList_order, sortedOrder_length] at hlen
  obtain ⟨hbase, hstored, -⟩ := idSection_fields (sortedList ids) []
  rw [append_nil] at hbase hstored
  have hlenOk := int32_ofNat_valid hids
  have hdrop : ∀ n, (blocks ++ (sortedList ids).idSection).drop (ids.length * index.d + n) =
      (sortedList ids).idSection.drop n := by
    intro n
    rw [← drop_drop, drop_left' hblocks]
  have hidBytes : (sortedList ids).idSection.drop 12 = (sortedList ids).idBytes := by
    rw [SortedList.idSection]
    exact drop_left' (by simp)
  rw [decodeListPayload]
  dsimp only
  rw [sqListPayloadLen_of_lt (by omega), ok_bind,
    rejectIf_bind (not_not.mpr hlen), checkedListBytes, checkedMul_bind (by omega),
    checkedAdd_bind (by omega), hpayload]
  rw [hdrop 8, hstored, rejectIf_bind hlenOk, drop_left' hblocks, hbase, hdrop 12,
    hidBytes, sortedList_decode, ok_bind, pure_eq_ok, take_left' hblocks]

variable (h : index.WrittenAs total entries file)

include h

theorem WrittenAs.section_lengths :
    (boundsBytes index.sq ++ index.listSqs.flatMap boundsBytes).length =
        (index.nlist + 1) * index.d * 2 * 4 ∧
      (f32SliceBytes index.quantizerCentroids).length = index.nlist * index.d * 4 ∧
      (entries.flatMap ListEntry.toBytes).length = index.nlist * 16 := by
  refine ⟨?_, ?_, ?_⟩
  · rw [length_append, boundsBytes_length h.bounds,
      flatMap_length_of_width fun sq hsq => boundsBytes_length (h.listBounds sq hsq),
      h.listSqs_length]
    ring
  · rw [f32SliceBytes_length, h.centroids_length]
  · rw [tableBytes_length, h.lists.entries_length, h.ids_length]

theorem metadataBytes_written (hbounds : (index.nlist + 1) * index.d ≤ 2 ^ 30) :
    metadataBytes index.nlist index.d =
      .ok (index.nlist * index.d * 4, (index.nlist + 1) * index.d * 2 * 4 +
        index.nlist * index.d * 4 + index.nlist * 16) := by
  have hword : wordSize = 2 ^ 64 := rfl
  have hsection := h.section_le
  have hnlist := h.nlist_lt
  rw [metadataBytes, sectionSize, checkedSectionSize_eq_ok.mpr ⟨rfl, hbounds⟩,
    ok_bind, checkedMul_bind (by omega), checkedMul_bind (by omega), sectionSize,
    checkedSectionSize_eq_ok.mpr ⟨rfl, hsection⟩, ok_bind,
    checkedMul_bind (by omega), checkedMul_bind (by omega),
    checkedAdd_of_lt (by omega), Option.bind_some, checkedAdd_bind (by omega),
    pure_eq_ok]

theorem WrittenAs.pread_metadata (maxRanges : Nat) :
    (ofBytes file maxRanges).pread 64 ((index.nlist + 1) * index.d * 2 * 4 +
        index.nlist * index.d * 4 + index.nlist * 16) =
      .ok (boundsBytes index.sq ++ (index.listSqs.flatMap boundsBytes ++
        (f32SliceBytes index.quantizerCentroids ++ entries.flatMap ListEntry.toBytes))) := by
  obtain ⟨hbounds, hcentroids, -⟩ := h.section_lengths
  have hread := h.lists.pread_tables maxRanges (show _ = (index.nlist + 1) * index.d * 2 * 4 +
    index.nlist * index.d * 4 + index.nlist * 16 by
      rw [tables, length_append, hbounds, hcentroids, h.ids_length])
  rw [headFields_length, tables] at hread
  simpa only [append_assoc] using hread

theorem openWithHeader_headFields (maxRanges : Nat) :
    ∃ tables : Nat × Nat → IoResult (IVFSQIndexReader F32),
      openWithHeader (ofBytes file maxRanges)
          (index.headFields total).flatten =
        (metadataBytes index.nlist index.d >>= tables) ∧
      tables (index.nlist * index.d * 4, (index.nlist + 1) * index.d * 2 * 4 +
          index.nlist * index.d * 4 + index.nlist * 16) =
        .ok (index.opened total entries (ofBytes file maxRanges)) := by
  have hfields := fieldsAt_flatten (index.headFields total)
  have hnonneg := int64_not_neg h.total_eq
  have hzeros : ¬∃ byte ∈ List.replicate 20 (0 : UInt8), byte ≠ 0 := by decide
  have hunknown : Sq.requiredFlags &&& ~~~Sq.requiredFlags = 0 := by decide
  have hrequired : Sq.requiredFlags &&& Sq.requiredFlags = Sq.requiredFlags := by decide
  have hword : wordSize = 2 ^ 64 := rfl
  have hdlt := h.d_lt
  obtain ⟨-, hcentroids, -⟩ := h.section_lengths
  have hentries := h.lists.readOffsetTable
    (fun _ _ _ listId hstored => entryChecks_stored hstored listId) h.total_lt
  rw [← h.total_eq] at hentries
  have hbounds : ∀ sq : ScalarQuantizer F32, ofBounds sq = sq := by
    intro sq
    rw [ofBounds, map_ofF32, map_ofF32]
  have hlists : index.listSqs.map ofBounds = index.listSqs := by
    rw [funext hbounds]
    exact map_id _
  have hread := readListBounds_boundsBytes (by omega) h.listBounds
    (f32SliceBytes index.quantizerCentroids ++ entries.flatMap ListEntry.toBytes)
  rw [h.listSqs_length] at hread
  generalize (index.headFields total).flatten = header at hfields ⊢
  simp only [headFields, FieldsAt, u32Bytes_length, i32Bytes_length, i64Bytes_length,
    F32.toBytes_length, length_replicate, Nat.reduceAdd, and_true] at hfields
  simp only [openWithHeader, hfields, u32OfBytes_u32Bytes, i32OfBytes_i32Bytes, i64OfBytes_i64Bytes,
    F32.ofBytes_toBytes, validatePositiveI32_ofNat h.d_pos h.d_lt,
    validatePositiveI32_ofNat h.nlist_pos h.nlist_lt, validateReservedZero,
    MetricType.fromCode_code, okOr_some, ok_bind, rejectIf_of_not hnonneg, rejectIf_of_not hzeros,
    rejectIf_ne_self, hunknown, hrequired]
  refine ⟨_, rfl, ?_⟩
  dsimp only
  rw [h.pread_metadata, ok_bind, readBounds_boundsBytes (by omega) h.bounds, ok_bind]
  dsimp only
  rw [rejectIf_bind (by simp), hread, ok_bind]
  dsimp only
  rw [take_left' hcentroids, bytesToF32Vec_slice, ok_bind, drop_left' hcentroids, hentries,
    ok_bind]
  dsimp only
  rw [checkVectorCount, rejectIf_bind (not_not.mpr rfl), pure_eq_ok, map_ofF32, hbounds, hlists]
  rfl

theorem openReader_eq (maxRanges : Nat) :
    openReader (K := F32) (ofBytes file maxRanges) =
      openWithHeader (ofBytes file maxRanges)
        (index.headFields total).flatten := by
  have hread := h.lists.pread_head maxRanges
  rw [headFields_length] at hread
  rw [openReader, hread, ok_bind]

theorem openReader_written (maxRanges : Nat) (hbounds : (index.nlist + 1) * index.d ≤ 2 ^ 30) :
    openReader (ofBytes file maxRanges) =
      .ok (index.opened total entries (ofBytes file maxRanges)) := by
  obtain ⟨tables, hheader, htables⟩ := openWithHeader_headFields h maxRanges
  rw [openReader_eq h, hheader, metadataBytes_written h hbounds, ok_bind, htables]

theorem openReader_error (maxRanges : Nat) {e : IoError}
    (he : metadataBytes index.nlist index.d = .error e) :
    openReader (K := F32) (ofBytes file maxRanges) = .error e := by
  obtain ⟨tables, hheader, -⟩ := openWithHeader_headFields h maxRanges
  rw [openReader_eq h, hheader, he, error_bind]

theorem bounds_of_openReader {maxRanges : Nat} {reader : IVFSQIndexReader F32}
    (hopen : openReader (ofBytes file maxRanges) = .ok reader) :
    (index.nlist + 1) * index.d ≤ 2 ^ 30 := by
  obtain ⟨tables, hheader, -⟩ := openWithHeader_headFields h maxRanges
  rw [openReader_eq h, hheader] at hopen
  obtain ⟨_, hsizes, -⟩ := bind_eq_ok.mp hopen
  obtain ⟨_, hbounds, -⟩ := bind_eq_ok.mp hsizes
  exact (checkedSectionSize_eq_ok.mp hbounds).2

theorem WrittenAs.entry {i : Nat} (hi : i < index.nlist) :
    StoredAt ((index.headFields total).flatten ++ index.tables).length file
      (sortedList (index.ids.getD i []))
      (index.payload (sortedList (index.ids.getD i [])) (index.codes.getD i []))
      (entries.getD i default) := by
  exact h.lists.entry_getD (by rw [h.codes_length, h.ids_length]) (by rw [h.ids_length]; exact hi)

theorem readInvertedLists_written (maxRanges : Nat)
    {i : Nat} (hi : i < index.nlist) :
    (index.opened total entries (ofBytes file maxRanges)).readInvertedLists [i] =
      .ok [⟨i, sortedIds (index.ids.getD i []), blockSortedSqCodes (index.codes.getD i [])
        (sortedOrder (index.ids.getD i [])) index.d Sq.scanBlockSize⟩] := by
  have hstored := h.entry hi
  have hrows := hstored.rows_length
  refine hstored.readPlannedLists_eq maxRanges (fun hnil => ⟨?_, ?_⟩) (fun hne => ?_)
    fun hne hids hsmall => decodeListPayload_written index hne hids hsmall _ _
  · rw [hnil] at hrows
    exact bind_eq_ok.mpr ⟨(), rejectIf_of_not (not_le.mpr hi), if_pos hrows⟩
  · have hcodes : blockSortedSqCodes (index.codes.getD i []) [] index.d Sq.scanBlockSize = [] :=
      length_eq_zero_iff.mp (by rw [blockSortedSqCodes_length, length_nil, Nat.zero_mul])
    rw [hnil, sortedIds, sortedOrder_nil, map_nil, hcodes]
  · have horder := sortedList_order_ne_nil hne
    have hsmall := hstored.small horder
    have hpos : 0 < (index.ids.getD i []).length := length_pos_iff.mpr hne
    have hlen := index.payload_length (index.codes.getD i []) horder
    rw [sortedList_order, sortedOrder_length] at hlen
    have hentry : (index.opened total entries (ofBytes file maxRanges)).entry i =
        entries.getD i default := rfl
    have hd : (index.opened total entries (ofBytes file maxRanges)).d = index.d := rfl
    have hnlist : ¬(index.opened total entries (ofBytes file maxRanges)).nlist ≤ i :=
      not_le.mpr hi
    rw [planListRead, checkListId]
    dsimp only
    rw [rejectIf_bind hnlist, hentry, hrows, hd, if_neg (by omega), hstored.idBytes_eq horder,
      sqListPayloadLen_of_lt (by omega), ok_bind, hstored.checkedListOffset, ok_bind, pure_eq_ok,
      hlen]

end Read

/-- Row by row, what was added to a list under its ids in ascending order: byte
`j` of sorted row `r` is in block `r / 32`, which holds at most 32 rows. -/
def ListMatchedBy (ids : List Int64) (codes : List UInt8) (d : Nat) (list : SqListData) : Prop :=
  ∃ order, StablySorted ids order ∧ list.ids = order.map (ids.getD · 0) ∧
    list.codes.length = ids.length * d ∧
    ∀ row < ids.length, ∀ dimension < d,
      list.codes[row / 32 * (32 * d) +
          (dimension * min 32 (ids.length - row / 32 * 32) + row % 32)]? =
        codes[order.getD row 0 * d + dimension]?

/-- An opened reader that holds what the index held. -/
structure MatchedBy (index : IVFSQIndex) (reader : IVFSQIndexReader F32) : Prop where
  d : reader.d = index.d
  nlist : reader.nlist = index.nlist
  metric : reader.metric = index.metric
  totalVectors : reader.totalVectors.toInt = (index.ids.map List.length).sum
  sq : reader.sq = index.sq
  listSqs : reader.listSqs = index.listSqs
  quantizerCentroids : reader.quantizerCentroids = index.quantizerCentroids
  lists : ∀ i < index.nlist, ∃ list, reader.readInvertedLists [i] = .ok [list] ∧ list.listId = i ∧
    ListMatchedBy (index.ids.getD i []) (index.codes.getD i []) index.d list

theorem listMatchedBy_written {total : Int64} {entries : List ListEntry} {file : List UInt8}
    (h : index.WrittenAs total entries file) {i : Nat} (hi : i < index.nlist) :
    ListMatchedBy (index.ids.getD i []) (index.codes.getD i []) index.d
      ⟨i, sortedIds (index.ids.getD i []), blockSortedSqCodes (index.codes.getD i [])
        (sortedOrder (index.ids.getD i [])) index.d Sq.scanBlockSize⟩ := by
  refine ⟨sortedOrder (index.ids.getD i []), sortedOrder_stablySorted _, rfl, ?_, ?_⟩
  · rw [blockSortedSqCodes_length, sortedOrder_length]
  · intro row hrow dimension hdimension
    have hget := blockSortedSqCodes_getElem? (index.codes.getD i [])
      (sortedOrder (index.ids.getD i [])) index.d (by rwa [sortedOrder_length]) hdimension
    rw [sortedOrder_length] at hget
    rw [hget, getD_sortedRow (h.codes i hi) hrow hdimension]

def unfilled (d : Nat) : IVFSQIndex where
  d := d
  nlist := 1
  metric := .l2
  quantizerCentroids := List.replicate d F32.zero
  sq := ⟨List.replicate d F32.zero, List.replicate d F32.zero⟩
  listSqs := [⟨List.replicate d F32.zero, List.replicate d F32.zero⟩]
  ids := [[]]
  codes := [[]]

theorem validateSqBounds_zero (d : Nat) :
    validateSqBounds d (List.replicate d F32.zero) (List.replicate d F32.zero) = .ok () := by
  have hnone : ((List.replicate d F32.zero).zip (List.replicate d F32.zero)).findIdx? (fun bound =>
      !bound.1.isFinite || !bound.2.isFinite || bound.2.lt bound.1) = none := by
    rw [zip_replicate', List.findIdx?_eq_none_iff]
    intro bound hbound
    rw [eq_of_mem_replicate hbound]
    decide
  rw [validateSqBounds, rejectIf_bind (by simp), hnone]

theorem validateIndexShape_unfilled {d : Nat} (hd : 0 < d) (hle : d ≤ 2 ^ 30) :
    (unfilled d).validateIndexShape = .ok () := by
  have hword : wordSize = 2 ^ 64 := rfl
  have hbounds := validateSqBounds_zero d
  have hsection : sectionSize 1 d = .ok d :=
    checkedSectionSize_eq_ok.mpr ⟨Nat.one_mul d, by rw [Nat.one_mul]; exact hle⟩
  have hbytes : checkedListBytes "list byte size overflow" 0 d = .ok 0 := by
    rw [checkedListBytes, checkedMul_of_lt (by omega), okOr_some, Nat.zero_mul]
  rw [validateIndexShape, rejectIf_bind (by show ¬(d = 0 ∨ 1 = 0); omega)]
  refine bind_eq_ok.mpr ⟨(), hbounds, ?_⟩
  rw [rejectIf_bind (by simp [unfilled])]
  refine bind_eq_ok.mpr ⟨d, hsection, ?_⟩
  rw [rejectIf_bind (by simp [unfilled])]
  refine bind_eq_ok.mpr ⟨[()], mapM_eq_ok.mpr (List.Forall₂.cons ?_ List.Forall₂.nil), rfl⟩
  refine bind_eq_ok.mpr ⟨(), hbounds, bind_eq_ok.mpr ⟨0, hbytes, ?_⟩⟩
  exact rejectIf_of_not (not_not.mpr rfl)

theorem writeIvfsqIndex_unfilled {d : Nat} (hd : 0 < d) (hle : d ≤ 2 ^ 30) :
    ∃ file, (unfilled d).writeIvfsqIndex = .ok file := by
  have hword : wordSize = 2 ^ 64 := rfl
  have htables : (boundsBytes (unfilled d).sq ++ (unfilled d).listSqs.flatMap boundsBytes ++
      f32SliceBytes (unfilled d).quantizerCentroids).length = 20 * d := by
    simp only [unfilled, boundsBytes, flatMap_cons, flatMap_nil, length_append,
      f32SliceBytes_length, length_replicate, length_nil]
    omega
  have hlen : ∀ head : List UInt8, head.length = 64 → (head ++ (boundsBytes (unfilled d).sq ++
      (unfilled d).listSqs.flatMap boundsBytes ++
        f32SliceBytes (unfilled d).quantizerCentroids)).length = 64 + 20 * d := by
    intro head hhead
    rw [length_append, hhead, htables]
  have hd32 : usizeToI32 (unfilled d).d "dimension" = .ok (Int32.ofNat d) :=
    usizeToI32_eq_ok.mpr ⟨by show d < 2 ^ 31; omega, rfl⟩
  have hnlist : usizeToI32 (unfilled d).nlist "nlist" = .ok 1 := rfl
  have htotal : totalVectorCount (unfilled d).ids = .ok 0 := rfl
  have hlists : (unfilled d).ids.map sortedList = [⟨0, [], []⟩] := rfl
  have htable : checkedMul (unfilled d).nlist 16 = some 16 := rfl
  rw [writeIvfsqIndex, validateIndexShape_unfilled hd hle, ok_bind, htotal, ok_bind, hd32, ok_bind,
    hnlist, ok_bind, htable, okOr_some, ok_bind, hlists]
  dsimp only
  rw [hlen _ (by simp), checkedAdd_bind (by omega), planEntries_unfilled _ _ (by omega),
    ok_bind, pure_eq_ok]
  exact ⟨_, rfl⟩

/-- A written file is opened exactly when the bounds of all lists and the global
ones fit one section; the writer only checks the section of the centroids. -/
theorem write_ivfsq_index_reads_back_iff (index : IVFSQIndex) (maxRanges : Nat) {file : List UInt8}
    (h : index.writeIvfsqIndex = .ok file) :
    (∃ reader, openReader (ofBytes file maxRanges) = .ok reader ∧
        index.MatchedBy reader) ↔ (index.nlist + 1) * index.d ≤ 2 ^ 30 := by
  obtain ⟨total, entries, hwritten⟩ := writtenAs_of_writeIvfsqIndex h
  constructor
  · rintro ⟨reader, hreader, -⟩
    exact bounds_of_openReader hwritten hreader
  · intro hbounds
    refine ⟨_, openReader_written hwritten maxRanges hbounds, ?_⟩
    exact {
      d := rfl, nlist := rfl, metric := rfl, totalVectors := hwritten.total_eq, sq := rfl
      listSqs := rfl, quantizerCentroids := rfl
      lists := fun _ hi => ⟨_, readInvertedLists_written hwritten maxRanges hi, rfl,
        listMatchedBy_written hwritten hi⟩ }

/-- Three rows in the first list, two of them with one id, the second list empty. -/
def filled : IVFSQIndex where
  d := 1
  nlist := 2
  metric := .l2
  quantizerCentroids := [F32.zero, F32.one]
  sq := ⟨[F32.zero], [F32.one]⟩
  listSqs := [⟨[F32.zero], [F32.one]⟩, ⟨[F32.zero], [F32.zero]⟩]
  ids := [[5, -3, 5], []]
  codes := [[10, 20, 30], []]

theorem write_ivfsq_index_reads_back_filled : ∃ file, filled.writeIvfsqIndex = .ok file ∧
    ∃ reader, openReader (ofBytes file 0) = .ok reader ∧
      filled.MatchedBy reader := by
  have hlists : filled.ids.map sortedList = [⟨-3, [1, 0, 2], [0, 8, 0]⟩, ⟨0, [], []⟩] := by
    rw [← sortedList_tied]
    rfl
  have hok : filled.writeIvfsqIndex.isOk = true := by
    rw [writeIvfsqIndex]
    simp only [hlists]
    decide +kernel
  obtain ⟨file, hfile⟩ := exists_ok_of_isOk hok
  exact ⟨file, hfile, (write_ivfsq_index_reads_back_iff filled 0 hfile).mpr (by decide)⟩

/-- With one list the bounds take twice the values of the centroids. -/
theorem write_ivfsq_index_wide_not_opened : ∃ file,
    (unfilled 536870913).writeIvfsqIndex = .ok file ∧ ∀ maxRanges,
      openReader (K := F32) (ofBytes file maxRanges) =
        .error (invalidData "section size 1073741826 exceeds maximum 1073741824") := by
  obtain ⟨file, hfile⟩ := writeIvfsqIndex_unfilled (d := 536870913) (by decide) (by decide)
  obtain ⟨total, entries, hwritten⟩ := writtenAs_of_writeIvfsqIndex hfile
  refine ⟨file, hfile, fun maxRanges => openReader_error hwritten maxRanges ?_⟩
  show metadataBytes 1 536870913 = _
  decide +kernel

end IVFSQIndex

end PaimonVindex
