import PaimonVindex.Ivf.FlatFile
import PaimonVindex.Ivf.Stored

/-! An IVF-FLAT file is read as it was written. -/

namespace PaimonVindex

open Checked Words IVFFlatIndexReader SeekRead List

namespace Flat

theorem checkPayloadShape_of_lt {payloadLen vectorStart vectorLen : Nat}
    (hsum : vectorStart + vectorLen = payloadLen) (halign : vectorLen % 4 = 0)
    (hsmall : 3 + payloadLen < wordSize) :
    checkPayloadShape payloadLen vectorStart vectorLen = .ok () := by
  rw [checkPayloadShape, checkedAdd_bind (by omega),
    rejectIf_bind (by omega)]
  dsimp only
  rw [checkedAdd_of_lt (by omega)]
  rfl

end Flat

theorem IVFFlatIndexReader.ensureLoaded_of_loaded {K : Type} [Scalar K]
    {self : IVFFlatIndexReader K} (h : self.loaded = true) : self.ensureLoaded = .ok self :=
  if_pos h

theorem IVFFlatIndexReader.planListRead_of_lt {K : Type} {index : IVFFlatIndexReader K}
    {listId : Nat} {entry : ListEntry} (hlist : listId < index.nlist)
    (hentry : index.entry listId = entry) (hrows : 0 < entry.rows) (hoffset : ¬entry.offset < 0)
    (hsmall : 3 + (12 + entry.idBytes + entry.rows * (index.d * 4)) < wordSize) :
    index.planListRead listId =
      .ok (some ⟨listId, entry.rows, entry.offset.toInt.toNat, entry.idBytes,
      12 + entry.idBytes + entry.rows * (index.d * 4)⟩) := by
  have halign : entry.rows * (index.d * 4) % 4 = 0 := by
    rw [← Nat.mul_assoc]
    exact Nat.mul_mod_left _ _
  rw [planListRead, checkListId]
  dsimp only
  rw [rejectIf_bind (not_le.mpr hlist), hentry, if_neg (by omega),
    checkedListOffset_eq_ok.mpr ⟨hoffset, rfl⟩, ok_bind, checkedListBytes,
    checkedMul_bind (by omega), checkedAdd_of_lt (by omega), Option.bind_some,
    checkedAdd_bind (by omega), Flat.checkPayloadShape_of_lt rfl halign hsmall, ok_bind, pure_eq_ok]

namespace IVFFlatIndex

variable {ids : List Int64}

section Rows

variable {vectors : List F32} {d : Nat}

theorem sortedVectors_row_length (hlen : vectors.length = ids.length * d) {row : Nat}
    (hrow : row ∈ sortedOrder ids) : ((vectors.drop (row * d)).take d).length = d := by
  have hlt : row < ids.length := mem_range.mp ((sortedOrder_perm ids).mem_iff.mp hrow)
  have hle : (row + 1) * d ≤ ids.length * d := Nat.mul_le_mul_right d hlt
  rw [Nat.succ_mul] at hle
  rw [length_take, length_drop, hlen]
  omega

theorem sortedVectors_length (hlen : vectors.length = ids.length * d) :
    (sortedVectors vectors (sortedOrder ids) d).length = ids.length * d := by
  rw [sortedVectors, flatMap_length_of_width fun row hrow => sortedVectors_row_length hlen hrow,
    sortedOrder_length]

end Rows

def headFields (index : IVFFlatIndex) (total : Int64) : List (List UInt8) :=
  [u32Bytes Flat.magic, u32Bytes Flat.version, i32Bytes (Int32.ofNat index.d),
    i32Bytes (Int32.ofNat index.nlist), u32Bytes index.metric.code, i64Bytes total,
    u32Bytes Flat.flagDeltaIds, List.replicate 32 0]

def payloads (index : IVFFlatIndex) : List (List UInt8) :=
  ((index.ids.map sortedList).zip index.vectors).map fun item => index.payload item.1 item.2

/-- What a successful call of the writer has checked and written. -/
structure WrittenAs (index : IVFFlatIndex) (total : Int64) (entries : List ListEntry)
    (file : List UInt8) : Prop where
  d_pos : 0 < index.d
  nlist_pos : 0 < index.nlist
  d_lt : index.d < 2 ^ 31
  nlist_lt : index.nlist < 2 ^ 31
  ids_length : index.ids.length = index.nlist
  vectors_length : index.vectors.length = index.nlist
  section_le : index.nlist * index.d ≤ 2 ^ 30
  centroids_length : index.quantizerCentroids.length = index.nlist * index.d
  vectors : ∀ i < index.nlist,
    (index.vectors.getD i []).length = (index.ids.getD i []).length * index.d
  total_eq : total.toInt = (index.ids.map List.length).sum
  total_lt : (index.ids.map List.length).sum < 2 ^ 63
  lists : WrittenLists (payloadLen (index.d * 4)) (invalidInput "IVF-FLAT offset overflow")
    ((index.headFields total).flatten ++ f32SliceBytes index.quantizerCentroids) index.ids
    index.payloads entries file

theorem headFields_length (index : IVFFlatIndex) (total : Int64) :
    (index.headFields total).flatten.length = 64 := by
  simp [headFields]

variable {index : IVFFlatIndex}

theorem validateIndexShape_eq_ok (h : index.validateIndexShape = .ok ()) :
    (0 < index.d ∧ 0 < index.nlist) ∧
      (index.ids.length = index.nlist ∧ index.vectors.length = index.nlist) ∧
      index.nlist * index.d ≤ 2 ^ 30 ∧ index.quantizerCentroids.length = index.nlist * index.d ∧
      ∀ i < index.nlist,
        (index.vectors.getD i []).length = (index.ids.getD i []).length * index.d := by
  simp only [validateIndexShape, accepted, checkedSectionSize_eq_ok, not_not] at h
  obtain ⟨hd, hnlist, hlens, _, ⟨rfl, hsection⟩, hcentroids, units, hall, -⟩ := h
  refine ⟨by omega, by omega, hsection, hcentroids, fun i hi => ?_⟩
  obtain ⟨_, hrow, -⟩ := of_mapM_range hall hi
  simp only [accepted, not_not] at hrow
  obtain ⟨_, ⟨rfl, -⟩, hvectors⟩ := hrow
  exact hvectors

theorem payload_length {vectors : List F32} (hne : ids ≠ [])
    (hvectors : vectors.length = ids.length * index.d) :
    (index.payload (sortedList ids) vectors).length =
      12 + (sortedList ids).idBytes.length + ids.length * (index.d * 4) := by
  have horder := sortedList_order_ne_nil hne
  rw [payload, if_neg horder, length_append, idSection_length, f32SliceBytes_length,
    sortedList_order, sortedVectors_length hvectors, Nat.mul_assoc]

theorem payloadLen_eq_ok {width len : Nat} {list : SortedList}
    (h : payloadLen width list = .ok len) :
    len = 12 + list.idBytes.length + list.order.length * width := by
  simp only [payloadLen, checkedListBytes, accepted, Option.bind_eq_some_iff] at h
  obtain ⟨_, ⟨rfl, -⟩, _, ⟨rfl, -⟩, rfl, -⟩ := h
  rfl

theorem payloads_of (hids : index.ids.length = index.nlist)
    (hlen : index.vectors.length = index.nlist)
    (hvectors : ∀ i < index.nlist,
      (index.vectors.getD i []).length = (index.ids.getD i []).length * index.d) :
    List.Forall₂ (PayloadOf (payloadLen (index.d * 4))) (index.ids.map sortedList)
      index.payloads := by
  refine payloads_of_zip (by rw [length_map, hids, hlen]) fun item hitem => ?_
  obtain ⟨i, hi, rfl⟩ := mem_iff_getElem.mp hitem
  have hboth : i < index.ids.length ∧ i < index.vectors.length := by simpa using hi
  have hitem : ((index.ids.map sortedList).zip index.vectors)[i] =
      (sortedList (index.ids.getD i []), index.vectors.getD i []) := by
    rw [getElem_zip, getElem_map, getD_eq_getElem _ _ hboth.1,
      getD_eq_getElem _ _ hboth.2]
  rw [hitem]
  refine ⟨fun hnil => by rw [payload, if_pos hnil], fun len hne h => ?_⟩
  rw [payload_length (fun hnil => hne (sortedList_order_eq_nil.mpr hnil))
    (hvectors i (by omega)), payloadLen_eq_ok h, sortedList_order, sortedOrder_length]

theorem writtenAs_of_writeIvfflatIndex {file : List UInt8}
    (h : index.writeIvfflatIndex = .ok file) :
    ∃ total entries, index.WrittenAs total entries file := by
  simp only [writeIvfflatIndex, accepted, usizeToI32_eq_ok] at h
  obtain ⟨⟨⟩, hshape, _, ⟨rfl, -⟩, _, ⟨hd, rfl⟩, _, ⟨hnlist, rfl⟩, total, htotal, _, ⟨rfl, -⟩,
    start, ⟨hstart, -⟩, entries, hplan, rfl⟩ := h
  obtain ⟨hpos, ⟨hids, hlen⟩, hsection, hcentroids, hvectors⟩ := validateIndexShape_eq_ok hshape
  obtain ⟨hsum, hbound⟩ := totalVectorCount_eq_ok htotal
  refine ⟨total, entries, hpos.1, hpos.2, hd, hnlist, hids, hlen, hsection, hcentroids, hvectors,
    hsum, hbound, ?_, payloads_of hids hlen hvectors, ?_⟩
  · rw [hids, headFields]
    rw [← hstart] at hplan
    simpa only [flatten_cons, flatten_nil, append_nil, append_assoc] using hplan
  · simp only [headFields, payloads, flatten_cons, flatten_nil, append_nil,
      append_assoc, flatMap_def]

@[simps] def opened (index : IVFFlatIndex) (total : Int64) (reader : SeekRead) :
    IVFFlatIndexReader F32 where
  reader := reader
  d := index.d
  nlist := index.nlist
  metric := index.metric
  totalVectors := total
  quantizerCentroids := []
  entries := []
  loaded := false

def loaded (index : IVFFlatIndex) (total : Int64) (entries : List ListEntry) (reader : SeekRead) :
    IVFFlatIndexReader F32 :=
  { index.opened total reader with
    quantizerCentroids := index.quantizerCentroids
    entries := entries
    loaded := true }

section Read

variable {index : IVFFlatIndex} {total : Int64} {entries : List ListEntry} {file : List UInt8}

theorem entryChecks_stored {start : Nat} {list : List Int64} {payload : List UInt8}
    {entry : ListEntry} (h : StoredAt start file (sortedList list) payload entry) (listId : Nat) :
    Flat.entryChecks.before listId entry = .ok () ∧
      Flat.entryChecks.after listId entry = .ok () := by
  refine ⟨rejectIf_of_not h.count_nonneg, ?_⟩
  show (rejectIf _ _ >>= fun _ => rejectIf _ _) = _
  rw [rejectIf_bind h.not_idBytesLen_neg, rejectIf_of_not h.not_missing]

theorem vectorsOfBytes_slice (data : List F32) :
    vectorsOfBytes (K := F32) (f32SliceBytes data) = data := by
  have hchunks : chunksExact 4 (f32SliceBytes data) = data.map F32.toBytes :=
    chunksExact_flatMap (by decide) fun x _ => F32.toBytes_length x
  rw [vectorsOfBytes, hchunks, map_map]
  exact (map_congr_left fun x _ => F32.ofBytes_toBytes x).trans (map_id _)

theorem decodeListPayload_written (index : IVFFlatIndex) {vectors : List F32} (hne : ids ≠ [])
    (hids : (sortedList ids).idBytes.length < 2 ^ 31) (read : ListRead)
    (hcount : read.count = ids.length) (hlen : read.idBytesLen = (sortedList ids).idBytes.length) :
    decodeListPayload read (index.payload (sortedList ids) vectors) =
      .ok (⟨read.listId, sortedIds ids, sortedVectors vectors (sortedOrder ids) index.d⟩ :
        FlatListData F32) := by
  have horder := sortedList_order_ne_nil hne
  obtain ⟨hbase, hstored, hbytes⟩ := idSection_fields (sortedList ids)
    (f32SliceBytes (sortedVectors vectors (sortedOrder ids) index.d))
  have hlenOk := int32_ofNat_valid hids
  have hdecode := Flat.decodeDeltaVarintIds_eq_ok.mpr
    ⟨_, decodeDeltaVarintIds_eq_ok.mp (sortedList_decode ids)⟩
  rw [payload, if_neg horder, sortedList_order, decodeListPayload, hlen, hcount,
    hstored, rejectIf_bind hlenOk, hbase, hbytes, hdecode, ok_bind,
    drop_left' (idSection_length _), vectorsOfBytes_slice, pure_eq_ok]

variable (h : index.WrittenAs total entries file)

include h

theorem openReader_written (maxRanges : Nat) :
    openReader (ofBytes file maxRanges) =
      .ok (index.opened total (ofBytes file maxRanges)) := by
  have hread := h.lists.pread_head maxRanges
  rw [headFields_length] at hread
  have hfields := fieldsAt_flatten (index.headFields total)
  have hzeros : ¬∃ byte ∈ List.replicate 32 (0 : UInt8), byte ≠ 0 := by decide
  have hunknown : Flat.flagDeltaIds &&& ~~~Flat.flagDeltaIds = 0 := by decide
  have hrequired : Flat.flagDeltaIds &&& Flat.flagDeltaIds = Flat.flagDeltaIds := by decide
  rw [openReader, hread, ok_bind]
  generalize (index.headFields total).flatten = header at hfields ⊢
  simp only [headFields, FieldsAt, u32Bytes_length, i32Bytes_length, i64Bytes_length,
    length_replicate, Nat.reduceAdd, and_true] at hfields
  simp only [openWithHeader, hfields, u32OfBytes_u32Bytes, i32OfBytes_i32Bytes, i64OfBytes_i64Bytes,
    validatePositiveI32_ofNat h.d_pos h.d_lt, validatePositiveI32_ofNat h.nlist_pos h.nlist_lt,
    validateReservedZero, MetricType.fromCode_code, okOr_some, ok_bind, rejectIf_of_not hzeros,
    rejectIf_ne_self, hunknown, hrequired, pure_eq_ok]
  rfl

theorem ensureLoaded_written (maxRanges : Nat) :
    (index.opened total (ofBytes file maxRanges)).ensureLoaded =
      .ok (index.loaded total entries (ofBytes file maxRanges)) := by
  have hword : wordSize = 2 ^ 64 := rfl
  have hsection := h.section_le
  have hnlist := h.nlist_lt
  have hcentroids : (f32SliceBytes index.quantizerCentroids).length =
      index.nlist * index.d * 4 := by
    rw [f32SliceBytes_length, h.centroids_length]
  have hmetadata := h.lists.pread_tables maxRanges
    (show _ = index.nlist * index.d * 4 + index.nlist * 16 by rw [hcentroids, h.ids_length])
  rw [headFields_length] at hmetadata
  have hentries := h.lists.readOffsetTable
    (fun _ _ _ listId hstored => entryChecks_stored hstored listId) h.total_lt
  rw [← h.total_eq] at hentries
  rw [ensureLoaded, if_neg (by simp)]
  simp only [opened_nlist, opened_d, opened_reader]
  rw [checkedSectionSize_eq_ok.mpr ⟨rfl, hsection⟩, ok_bind, checkedMul_bind (by omega),
    checkedMul_bind (by omega), checkedAdd_bind (by omega), hmetadata, ok_bind,
    take_left' hcentroids, bytesToF32Vec_slice, ok_bind, drop_left' hcentroids, hentries, ok_bind]
  dsimp only
  have htotal : ¬total.toInt ≠
      (index.opened total (ofBytes file maxRanges)).totalVectors.toInt := not_not.mpr rfl
  rw [checkVectorCount, rejectIf_bind htotal, pure_eq_ok, map_ofF32]
  rfl

theorem WrittenAs.entry {i : Nat} (hi : i < index.nlist) :
    StoredAt ((index.headFields total).flatten ++
        f32SliceBytes index.quantizerCentroids).length file
      (sortedList (index.ids.getD i []))
      (index.payload (sortedList (index.ids.getD i [])) (index.vectors.getD i []))
      (entries.getD i default) := by
  exact h.lists.entry_getD (by rw [h.vectors_length, h.ids_length]) (by rw [h.ids_length]; exact hi)

theorem planListRead_written (reader : SeekRead) {i : Nat} (hi : i < index.nlist)
    (hget : index.ids.getD i [] = ids) (hne : ids ≠ []) :
    (index.loaded total entries reader).planListRead i =
      .ok (some ⟨i, ids.length, (entries.getD i default).offset.toInt.toNat,
        (sortedList ids).idBytes.length,
        (index.payload (sortedList ids) (index.vectors.getD i [])).length⟩) := by
  have hstored := h.entry hi
  rw [hget] at hstored
  have horder := sortedList_order_ne_nil hne
  have hrows := hstored.rows_length
  have hbytes := hstored.idBytes_eq horder
  have hpos : 0 < ids.length := length_pos_iff.mpr hne
  have hlen := payload_length hne (hget ▸ h.vectors i hi)
  have hsmall := hstored.small horder
  have hstart := hstored.start_le
  rw [length_append, headFields_length] at hstart
  have hentry : (index.loaded total entries reader).entry i = entries.getD i default := rfl
  have hd : (index.loaded total entries reader).d = index.d := rfl
  have hlist : i < (index.loaded total entries reader).nlist := hi
  rw [planListRead_of_lt hlist hentry (by omega)
    (checkedListOffset_eq_ok.mp (hstored.checkedListOffset i)).1
    (by rw [hrows, hbytes, hd, ← hlen]; omega), hrows, hbytes, hd, hlen]

theorem readInvertedLists_written (maxRanges : Nat)
    {i : Nat} (hi : i < index.nlist) :
    (index.loaded total entries (ofBytes file maxRanges)).readInvertedLists [i] =
      .ok [⟨i, sortedIds (index.ids.getD i []), sortedVectors (index.vectors.getD i [])
        (sortedOrder (index.ids.getD i [])) index.d⟩] := by
  rw [readInvertedLists, ensureLoaded_of_loaded rfl, ok_bind]
  refine (h.entry hi).readPlannedLists_eq maxRanges (fun hnil => ⟨?_, ?_⟩)
    (planListRead_written h (ofBytes file maxRanges) hi rfl)
    fun hne hids _ => decodeListPayload_written index hne hids _ rfl rfl
  · have hrows : (entries.getD i default).rows = 0 := by
      rw [(h.entry hi).rows_length, hnil, length_nil]
    exact bind_eq_ok.mpr ⟨(), rejectIf_of_not (not_le.mpr hi), if_pos hrows⟩
  · rw [hnil, sortedIds, sortedOrder_nil]
    rfl

end Read

end IVFFlatIndex

end PaimonVindex
