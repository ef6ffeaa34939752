import PaimonVindex.Ivf.PqFile
import PaimonVindex.Ivf.Stored

/-! An IVF-PQ file is read as it was written, up to the sizes that only the
reader limits. -/

namespace PaimonVindex

open Checked Words IVFPQIndexReader SeekRead List

variable {i : Nat}

section Transpose

theorem mem_tiles {n : Nat} : i < n ↔ ∃ tile ∈ (List.range ((n + 31) / 32)).map (fun tile =>
    (List.range (min (tile * 32 + 32) n - tile * 32)).map (tile * 32 + ·)), i ∈ tile := by
  simp only [mem_map, mem_range, exists_exists_and_eq_and]
  constructor
  · intro hi
    exact ⟨i / 32, by omega, i % 32, by omega, by omega⟩
  · rintro ⟨tile, htile, j, hj, rfl⟩
    omega

variable (codes : List UInt8) (order : List Nat) (codeSize : Nat)

theorem transposeSortedPqCodes_length :
    (transposeSortedPqCodes codes order codeSize).length = order.length * codeSize := by
  rw [transposeSortedPqCodes, foldl_set_length, length_replicate]

theorem transposeSortedPqCodes_getElem? {row column : Nat} (hrow : row < order.length)
    (hcolumn : column < codeSize) :
    (transposeSortedPqCodes codes order codeSize)[column * order.length + row]? =
      some (codes.getD (order.getD row 0 * codeSize + column) 0) := by
  rw [transposeSortedPqCodes]
  dsimp only
  refine foldl_set_getElem? (x := (row, column)) ?_ ?_ ?_
  · obtain ⟨rows, hrows, hin⟩ := mem_tiles.mp hrow
    obtain ⟨columns, hcolumns, hin'⟩ := mem_tiles.mp hcolumn
    refine mem_flatMap.mpr ⟨rows, hrows, mem_flatMap.mpr ⟨columns, hcolumns, ?_⟩⟩
    exact mem_flatMap.mpr ⟨row, hin, mem_map.mpr ⟨column, hin', rfl⟩⟩
  · rw [length_replicate]
    calc column * order.length + row < column * order.length + order.length := by omega
      _ = (column + 1) * order.length := by ring
      _ ≤ codeSize * order.length := Nat.mul_le_mul_right _ hcolumn
      _ = order.length * codeSize := Nat.mul_comm _ _
  · rintro ⟨row', column'⟩ hcell hpos
    -- Two cells with one position are the same cell.
    obtain ⟨rows, hrows, hcell⟩ := mem_flatMap.mp hcell
    obtain ⟨columns, -, hcell⟩ := mem_flatMap.mp hcell
    obtain ⟨r, hr, hcell⟩ := mem_flatMap.mp hcell
    obtain ⟨c, -, hcell⟩ := mem_map.mp hcell
    cases hcell
    have hrow' : row' < order.length := mem_tiles.mpr ⟨rows, hrows, hr⟩
    have hdiv := congrArg (· / order.length) hpos
    have hmod := congrArg (· % order.length) hpos
    have hpos0 : 0 < order.length := by omega
    simp only [Nat.mul_comm _ order.length, Nat.mul_add_div hpos0, Nat.mul_add_mod,
      Nat.div_eq_of_lt hrow, Nat.div_eq_of_lt hrow', Nat.mod_eq_of_lt hrow,
      Nat.mod_eq_of_lt hrow', Nat.add_zero] at hdiv hmod
    rw [hdiv, hmod]

end Transpose

namespace IVFPQIndex

def headFields (index : IVFPQIndex) (total : Int64) : List (List UInt8) :=
  [u32Bytes magic, u32Bytes version, i32Bytes (Int32.ofNat index.d),
    i32Bytes (Int32.ofNat index.nlist), i32Bytes (Int32.ofNat index.pq.m),
    i32Bytes (Int32.ofNat index.pq.ksub), i32Bytes (Int32.ofNat index.pq.dsub),
    u32Bytes index.metric.code, i64Bytes total, u32Bytes index.flags, List.replicate 20 0]

def tables (index : IVFPQIndex) : List UInt8 :=
  index.rotation.elim [] f32SliceBytes ++ f32SliceBytes index.quantizerCentroids ++
    f32SliceBytes index.pq.centroids

def payloads (index : IVFPQIndex) : List (List UInt8) :=
  ((index.ids.map sortedList).zip index.codes).map fun item => index.payload item.1 item.2

/-- What a successful call of the writer has checked and written. -/
structure WrittenAs (index : IVFPQIndex) (total : Int64) (entries : List ListEntry)
    (file : List UInt8) : Prop where
  even : ¬(index.pq.ksub = 16 ∧ index.pq.m % 2 ≠ 0)
  d_lt : index.d < 2 ^ 31
  nlist_lt : index.nlist < 2 ^ 31
  m_lt : index.pq.m < 2 ^ 31
  dsub_lt : index.pq.dsub < 2 ^ 31
  total_eq : total.toInt = (index.ids.map List.length).sum
  total_lt : (index.ids.map List.length).sum < 2 ^ 63
  codes : ∀ i < index.nlist,
    (index.codes.getD i []).length = (index.ids.getD i []).length * index.pq.codeSize
  lists : WrittenLists index.payloadLen (invalidInput "IVFPQ offset overflow")
    ((index.headFields total).flatten ++ index.tables) index.ids index.payloads entries file

theorem headFields_length (index : IVFPQIndex) (total : Int64) :
    (index.headFields total).flatten.length = 64 := by
  simp [headFields]

variable {index : IVFPQIndex}

theorem sortLists_eq_ok {lists : List SortedList} (h : index.sortLists = .ok lists) :
    lists = index.ids.map sortedList ∧
      ∀ i < index.nlist,
        (index.codes.getD i []).length = (index.ids.getD i []).length * index.pq.codeSize := by
  have hget : ∀ i < index.nlist, (index.codes.getD i []).length =
      (index.ids.getD i []).length * index.pq.codeSize ∧
      lists[i]? = some (sortedList (index.ids.getD i [])) := by
    intro i hi
    obtain ⟨list, hlist, hi'⟩ := of_mapM_range h hi
    simp only [checkedListBytes, accepted, not_not] at hlist
    obtain ⟨_, ⟨rfl, -⟩, hcodes, rfl⟩ := hlist
    exact ⟨hcodes, hi'⟩
  refine ⟨?_, fun i hi => (hget i hi).1⟩
  apply ext_getElem?
  intro i
  rw [List.getElem?_map]
  by_cases hi : i < index.nlist
  · rw [(hget i hi).2, getD_eq_getElem?_getD,
      List.getElem?_eq_getElem (by rw [index.ids_length]; exact hi)]
    rfl
  · have hlen := (mapM_eq_ok.mp h).length_eq
    rw [length_range] at hlen
    rw [List.getElem?_eq_none (by omega), List.getElem?_eq_none (by rw [index.ids_length]; omega)]
    rfl

theorem payload_length {list : SortedList} (codes : List UInt8) (hne : list.order ≠ []) :
    (index.payload list codes).length =
      12 + list.idBytes.length + list.order.length * index.pq.codeSize := by
  rw [payload, if_neg hne, length_append, idSection_length, transposeSortedPqCodes_length]

theorem payloads_of (index : IVFPQIndex) :
    List.Forall₂ (PayloadOf index.payloadLen) (index.ids.map sortedList) index.payloads := by
  refine payloads_of_zip (by rw [length_map, index.ids_length, index.codes_length])
    fun item _ => ?_
  refine ⟨fun hnil => by rw [payload, if_pos hnil], fun len hne hlen => ?_⟩
  simp only [payloadLen, checkedListBytes, accepted, Option.bind_eq_some_iff] at hlen
  obtain ⟨_, ⟨rfl, -⟩, _, ⟨rfl, -⟩, rfl, -⟩ := hlen
  exact payload_length _ hne

theorem writtenAs_of_writeIndex {file : List UInt8} (h : index.writeIndex = .ok file) :
    ∃ total entries, index.WrittenAs total entries file := by
  simp only [writeIndex, accepted, usizeToI32_eq_ok] at h
  obtain ⟨heven, _, ⟨hd, rfl⟩, _, ⟨hnlist, rfl⟩, _, ⟨hm, rfl⟩, _, ⟨-, rfl⟩, _, ⟨hdsub, rfl⟩, total,
    htotal, lists, hlists, _, ⟨rfl, -⟩, start, ⟨hstart, -⟩, entries, hplan, rfl⟩ := h
  obtain ⟨hsum, hbound⟩ := totalVectorCount_eq_ok htotal
  obtain ⟨rfl, hcodes⟩ := sortLists_eq_ok hlists
  refine ⟨total, entries, heven, hd, hnlist, hm, hdsub, hsum, hbound, hcodes, ?_,
    index.payloads_of, ?_⟩
  · rw [index.ids_length, headFields, tables]
    rw [← hstart] at hplan
    simpa only [flatten_cons, flatten_nil, append_nil, append_assoc] using hplan
  · simp only [headFields, tables, payloads, flatten_cons, flatten_nil, append_nil,
      append_assoc, flatMap_def]

section

variable (index : IVFPQIndex)

theorem dsub_mul : index.pq.m * index.pq.dsub = index.d := by
  rw [ProductQuantizer.dsub, index.pq_d]
  exact Nat.mul_div_cancel' index.m_dvd

theorem m_pos : 0 < index.pq.m :=
  Nat.pos_of_dvd_of_pos index.m_dvd index.d_pos

theorem dsub_pos : 0 < index.pq.dsub := by
  have hmul := index.dsub_mul
  have hd := index.d_pos
  by_contra hzero
  rw [Nat.eq_zero_of_not_pos hzero, Nat.mul_zero] at hmul
  omega

theorem ksub_cases : index.pq.ksub = 16 ∨ index.pq.ksub = 256 := by
  rcases index.nbits_eq with h | h
  · exact .inl (by rw [ProductQuantizer.ksub, h]; rfl)
  · exact .inr (by rw [ProductQuantizer.ksub, h]; rfl)

theorem log2_ksub : index.pq.ksub.log2 = index.pq.nbits := by
  rw [ProductQuantizer.ksub, Nat.log2_two_pow]

theorem flags_spec :
    index.flags &&& ~~~supportedFlags = 0 ∧ index.flags &&& requiredFlags = requiredFlags ∧
      index.flags &&& flagTransposedCodes ≠ 0 ∧
      (index.flags &&& flagByResidual ≠ 0 ↔ index.byResidual = true) ∧
      (index.flags &&& flagHasOpq ≠ 0 ↔ index.rotation.isSome = true) := by
  rw [flags]
  cases index.rotation.isSome <;> cases index.byResidual <;> decide

@[simps] def opened (total : Int64) (reader : SeekRead) : IVFPQIndexReader F32 where
  reader := reader
  d := index.d
  nlist := index.nlist
  m := index.pq.m
  ksub := index.pq.ksub
  dsub := index.pq.dsub
  metric := index.metric
  byResidual := index.byResidual
  totalVectors := total
  rotation := none
  quantizerCentroids := []
  pq := { index.pq with centroids := [] }
  entries := []
  precomputedTable := none
  transposedCodes := true
  loaded := false
  hasOpq := index.rotation.isSome

end

def loaded (index : IVFPQIndex) (total : Int64) (entries : List ListEntry) (reader : SeekRead) :
    IVFPQIndexReader F32 :=
  { index.opened total reader with
    rotation := index.rotation
    quantizerCentroids := index.quantizerCentroids
    pq := index.pq
    entries := entries
    loaded := true }

theorem tables_length (index : IVFPQIndex) : index.tables.length =
    (index.rotation.elim [] f32SliceBytes).length + index.nlist * index.d * 4 +
      index.d * index.pq.ksub * 4 := by
  rw [tables, length_append, length_append, f32SliceBytes_length, f32SliceBytes_length,
    index.centroids_length, index.pq_centroids_length]

theorem rotationBytes_opened (index : IVFPQIndex) (total : Int64) (reader : SeekRead)
    (hd : index.d * index.d ≤ 2 ^ 30) :
    (index.opened total reader).rotationBytes (index.d * index.d) =
      .ok (index.rotation.elim [] f32SliceBytes).length := by
  cases hrotation : index.rotation with
  | none => simp [rotationBytes, opened, hrotation]
  | some r =>
    have hlen : (f32SliceBytes r).length = index.d * index.d * 4 := by
      rw [f32SliceBytes_length, index.rotation_length r hrotation]
    have hsmall : index.d * index.d * 4 < wordSize := by
      rw [wordSize]
      omega
    simp [rotationBytes, opened, hrotation, hlen, checkedMul_of_lt hsmall]

theorem codebook_size (index : IVFPQIndex) (hd : index.d * index.d ≤ 2 ^ 30) :
    index.pq.m * index.pq.ksub * index.pq.dsub = index.d * index.pq.ksub ∧
      index.pq.m * index.pq.ksub ≤ index.d * index.pq.ksub ∧ index.d * index.pq.ksub ≤ 2 ^ 23 := by
  have hdsmall : index.d ≤ 2 ^ 15 := by
    by_contra hlt
    have : 2 ^ 15 * 2 ^ 15 < index.d * index.d := Nat.mul_lt_mul'' (by omega) (by omega)
    omega
  have hksub : index.pq.ksub ≤ 256 := by
    have := index.ksub_cases
    omega
  have hmk : index.pq.m * index.pq.ksub * index.pq.dsub = index.d * index.pq.ksub := by
    rw [← index.dsub_mul]
    ring
  refine ⟨hmk, ?_, (Nat.mul_le_mul hdsmall hksub).trans (by norm_num)⟩
  rw [← hmk]
  exact Nat.le_mul_of_pos_right _ index.dsub_pos

theorem bytesToF32Vec_rotation (index : IVFPQIndex) :
    bytesToF32Vec (index.rotation.elim [] f32SliceBytes) = .ok (index.rotation.getD []) := by
  cases index.rotation with
  | none => rfl
  | some r => exact bytesToF32Vec_slice r

/-- Row by row, what was added to a list under its ids in ascending order. -/
def ListMatchedBy (ids : List Int64) (codes : List UInt8) (codeSize : Nat)
    (payload : InvertedListPayload) : Prop :=
  ∃ order, StablySorted ids order ∧ payload.ids = order.map (ids.getD · 0) ∧
    payload.codes.length = ids.length * codeSize ∧
    ∀ row < ids.length, ∀ column < codeSize,
      payload.codes[column * ids.length + row]? = codes[order.getD row 0 * codeSize + column]?

/-- A loaded reader that holds what the index held. -/
structure MatchedBy (index : IVFPQIndex) (reader : IVFPQIndexReader F32) : Prop where
  d : reader.d = index.d
  nlist : reader.nlist = index.nlist
  metric : reader.metric = index.metric
  byResidual : reader.byResidual = index.byResidual
  hasOpq : reader.hasOpq = index.rotation.isSome
  transposedCodes : reader.transposedCodes = true
  totalVectors : reader.totalVectors.toInt = (index.ids.map List.length).sum
  rotation : reader.rotation = index.rotation
  quantizerCentroids : reader.quantizerCentroids = index.quantizerCentroids
  pq : reader.pq = index.pq ∧ reader.m = index.pq.m ∧ reader.ksub = index.pq.ksub ∧
    reader.dsub = index.pq.dsub
  lists : ∀ i < index.nlist, ∃ payload, reader.readInvertedListPayloads [i] = .ok [payload] ∧
    payload.listId = i ∧
    ListMatchedBy (index.ids.getD i []) (index.codes.getD i []) index.pq.codeSize payload

theorem decodeDeltaListPayload_written (index : IVFPQIndex) {ids : List Int64} {codes : List UInt8}
    (hne : ids ≠ []) (hsmall : (sortedList ids).idBytes.length < 2 ^ 31) (read : ListRead)
    (hcount : read.count = ids.length) (hlen : read.idBytesLen = (sortedList ids).idBytes.length) :
    decodeDeltaListPayload read (index.payload (sortedList ids) codes) =
      .ok ⟨read.listId, sortedIds ids,
        transposeSortedPqCodes codes (sortedOrder ids) index.pq.codeSize⟩ := by
  have horder := sortedList_order_ne_nil hne
  obtain ⟨hbase, hstored, hids⟩ := idSection_fields (sortedList ids)
    (transposeSortedPqCodes codes (sortedOrder ids) index.pq.codeSize)
  have hword : wordSize = 2 ^ 64 := rfl
  have hint : (Int32.ofNat (sortedList ids).idBytes.length).toInt =
      (sortedList ids).idBytes.length := Int32.toInt_ofNat_of_lt (by omega)
  have hshort : ¬((sortedList ids).idSection ++
      transposeSortedPqCodes codes (sortedOrder ids) index.pq.codeSize).length <
        12 + (sortedList ids).idBytes.length := by
    rw [length_append, idSection_length]
    omega
  have hrest : ((sortedList ids).idSection ++
      transposeSortedPqCodes codes (sortedOrder ids) index.pq.codeSize).drop
        (12 + (sortedList ids).idBytes.length) =
      transposeSortedPqCodes codes (sortedOrder ids) index.pq.codeSize :=
    drop_left' (idSection_length _)
  rw [payload, if_neg horder, sortedList_order, decodeDeltaListPayload, hlen,
    hcount, checkedAdd_bind (by omega), rejectIf_bind hshort]
  dsimp only
  rw [hstored, rejectIf_bind (not_not.mpr hint), hbase, hids, sortedList_decode, ok_bind,
    pure_eq_ok, hrest]

section Written

variable {index : IVFPQIndex} {total : Int64} {entries : List ListEntry} {file : List UInt8}
  (h : index.WrittenAs total entries file)

include h

theorem openWithHeader_headFields (reader : SeekRead) :
    openWithHeader reader (index.headFields total).flatten =
      .ok (index.opened total reader) := by
  have hfields := fieldsAt_flatten (index.headFields total)
  obtain ⟨hunknown, hrequired, htransposed, hresidual, hopq⟩ := index.flags_spec
  have hksubLt : index.pq.ksub < 2 ^ 31 := by
    rcases index.ksub_cases with hk | hk <;> rw [hk] <;> decide
  have hksubPos : 0 < index.pq.ksub := by
    rcases index.ksub_cases with hk | hk <;> rw [hk] <;> decide
  have hksubOk : ¬(index.pq.ksub ≠ 16 ∧ index.pq.ksub ≠ 256) := by
    have := index.ksub_cases
    omega
  have hproduct : ¬index.d ≠ index.pq.m * index.pq.dsub := not_not.mpr index.dsub_mul.symm
  have hnonneg := int64_not_neg h.total_eq
  have hzeros : ¬∃ byte ∈ List.replicate 20 (0 : UInt8), byte ≠ 0 := by decide
  generalize (index.headFields total).flatten = header at hfields ⊢
  simp only [headFields, FieldsAt, u32Bytes_length, i32Bytes_length, i64Bytes_length,
    length_replicate, Nat.reduceAdd, and_true] at hfields
  simp only [openWithHeader, hfields, u32OfBytes_u32Bytes, i32OfBytes_i32Bytes, i64OfBytes_i64Bytes,
    validatePositiveI32_ofNat index.d_pos h.d_lt,
    validatePositiveI32_ofNat index.nlist_pos h.nlist_lt,
    validatePositiveI32_ofNat index.m_pos h.m_lt, validatePositiveI32_ofNat hksubPos hksubLt,
    validatePositiveI32_ofNat index.dsub_pos h.dsub_lt, validateReservedZero,
    MetricType.fromCode_code, okOr_some, ok_bind, rejectIf_of_not hksubOk, rejectIf_of_not hproduct,
    rejectIf_of_not h.even, rejectIf_of_not hnonneg, rejectIf_of_not hzeros, rejectIf_ne_self,
    hunknown, hrequired, pure_eq_ok]
  simp only [opened, index.log2_ksub, hresidual, hopq, htransposed, decide_true,
    Bool.decide_eq_true, ne_eq, not_false_eq_true, index.pq_d]

theorem openReader_written (maxRanges : Nat) :
    openReader (ofBytes file maxRanges) =
      .ok (index.opened total (ofBytes file maxRanges)) := by
  have hhead := h.lists.pread_head maxRanges
  rw [headFields_length] at hhead
  rw [openReader, headerSize, hhead, ok_bind, openWithHeader_headFields h]

theorem WrittenAs.section_lengths (hd : index.d * index.d ≤ 2 ^ 30) :
    (index.rotation.elim [] f32SliceBytes).length ≤ 2 ^ 32 ∧
      (f32SliceBytes index.quantizerCentroids).length = index.nlist * index.d * 4 ∧
      (f32SliceBytes index.pq.centroids).length = index.d * index.pq.ksub * 4 ∧
      (entries.flatMap ListEntry.toBytes).length = index.nlist * 16 := by
  refine ⟨?_, ?_, ?_, ?_⟩
  · cases hrotation : index.rotation with
    | none => exact Nat.zero_le _
    | some r =>
      show (f32SliceBytes r).length ≤ 2 ^ 32
      rw [f32SliceBytes_length, index.rotation_length r hrotation]
      omega
  · rw [f32SliceBytes_length, index.centroids_length]
  · rw [f32SliceBytes_length, index.pq_centroids_length]
  · rw [tableBytes_length, h.lists.entries_length, index.ids_length]

theorem WrittenAs.pread_metadata (maxRanges : Nat)
    {n : Nat} (hn : n = (index.rotation.elim [] f32SliceBytes).length +
      (f32SliceBytes index.quantizerCentroids).length + (f32SliceBytes index.pq.centroids).length +
      (entries.flatMap ListEntry.toBytes).length) :
    (ofBytes file maxRanges).pread headerSize n =
      .ok (index.rotation.elim [] f32SliceBytes ++ (f32SliceBytes index.quantizerCentroids ++
        (f32SliceBytes index.pq.centroids ++ entries.flatMap ListEntry.toBytes))) := by
  have hread := h.lists.pread_tables maxRanges (show _ = n by
    rw [hn, tables, length_append, length_append, tableBytes_length, h.lists.entries_length])
  rw [headFields_length, tables] at hread
  simpa only [headerSize, append_assoc] using hread

theorem ensureLoaded_written (maxRanges : Nat)
    (hd : index.d * index.d ≤ 2 ^ 30) (hnlist : index.nlist * index.d ≤ 2 ^ 30) :
    (index.opened total (ofBytes file maxRanges)).ensureLoaded =
      .ok (index.loaded total entries (ofBytes file maxRanges)) := by
  obtain ⟨hrotation, hcentroids, hcodebooks, htable⟩ := h.section_lengths hd
  obtain ⟨hmk, hmkle, hbookle⟩ := index.codebook_size hd
  have hnlistLt := h.nlist_lt
  have hword : wordSize = 2 ^ 64 := rfl
  have hsquare : sectionSize index.d index.d = .ok (index.d * index.d) :=
    checkedSectionSize_eq_ok.mpr ⟨rfl, hd⟩
  have hcoarse : sectionSize index.nlist index.d = .ok (index.nlist * index.d) :=
    checkedSectionSize_eq_ok.mpr ⟨rfl, hnlist⟩
  have hbook : sectionSize (index.pq.m * index.pq.ksub) index.pq.dsub =
      .ok (index.d * index.pq.ksub) := checkedSectionSize_eq_ok.mpr ⟨hmk, by omega⟩
  have hpqLen : ¬index.pq.centroids.length ≠
      (index.opened total (ofBytes file maxRanges)).pq.d *
        (index.opened total (ofBytes file maxRanges)).pq.ksub := by
    show ¬index.pq.centroids.length ≠ index.pq.d * index.pq.ksub
    rw [index.pq_centroids_length, index.pq_d]
    exact not_not.mpr rfl
  have htotal : ¬total.toInt ≠
      (index.opened total (ofBytes file maxRanges)).totalVectors.toInt := not_not.mpr rfl
  have hentries : readOffsetTable pqEntryChecks 0 0
      (chunksExact 16 (entries.flatMap ListEntry.toBytes)) = .ok (entries, total.toInt) := by
    rw [h.total_eq]
    exact h.lists.readOffsetTable (fun _ _ _ _ hstored => ⟨rejectIf_of_not hstored.count_nonneg,
      rejectIf_of_not hstored.not_idBytesLen_neg⟩) h.total_lt
  rw [ensureLoaded, if_neg (by simp)]
  simp only [opened_d, opened_nlist, opened_m, opened_ksub, opened_dsub, opened_reader, hsquare,
    hcoarse, ok_bind, okOr_some,
    checkedMul_of_lt (show index.pq.m * index.pq.ksub < wordSize by omega),
    hbook, rotationBytes_opened index total _ hd,
    checkedMul_of_lt (show index.nlist * index.d * 4 < wordSize by omega),
    checkedMul_of_lt (show index.d * index.pq.ksub * 4 < wordSize by omega),
    checkedMul_of_lt (show index.nlist * 16 < wordSize by omega)]
  rw [checkedAdd_of_lt (by omega), Option.bind_some, checkedAdd_of_lt (by omega), Option.bind_some,
    checkedAdd_bind (by omega),
    h.pread_metadata maxRanges (by rw [hcentroids, hcodebooks, htable])]
  rw [ok_bind, take_left, bytesToF32Vec_rotation, ok_bind, drop_left, ← hcentroids,
    take_left, bytesToF32Vec_slice, ok_bind, drop_left, ← hcodebooks, take_left,
    bytesToF32Vec_slice, ok_bind, drop_left]
  rw [rejectIf_bind hpqLen, hentries, ok_bind]
  dsimp only
  rw [checkVectorCount, rejectIf_bind htotal, pure_eq_ok, map_ofF32, map_ofF32, map_ofF32, loaded]
  cases hcase : index.rotation <;> simp [opened, hcase]

theorem WrittenAs.entry (hi : i < index.nlist) :
    StoredAt ((index.headFields total).flatten ++ index.tables).length file
      (sortedList (index.ids.getD i []))
      (index.payload (sortedList (index.ids.getD i [])) (index.codes.getD i []))
      (entries.getD i default) := by
  exact h.lists.entry_getD (by rw [index.codes_length, index.ids_length])
    (by rw [index.ids_length]; exact hi)

theorem planListRead_written (reader : SeekRead) (hi : i < index.nlist) {ids : List Int64}
    (hget : index.ids.getD i [] = ids) (hne : ids ≠ []) :
    (index.loaded total entries reader).planListRead i =
      .ok (some ⟨i, ids.length, (entries.getD i default).offset.toInt.toNat,
        (sortedList ids).idBytes.length,
        (index.payload (sortedList ids) (index.codes.getD i [])).length⟩) := by
  have hstored := h.entry hi
  rw [hget] at hstored
  have horder := sortedList_order_ne_nil hne
  have hrows := hstored.rows_length
  have hpos : 0 < ids.length := length_pos_iff.mpr hne
  have hbytes := hstored.idBytes_eq horder
  have hlen := index.payload_length (index.codes.getD i []) horder
  rw [sortedList_order, sortedOrder_length] at hlen
  have hsmall := hstored.small horder
  have hstart := hstored.start_le
  rw [length_append, headFields_length] at hstart
  have hcode : (index.loaded total entries reader).codeSize = index.pq.codeSize := rfl
  have hentry : (index.loaded total entries reader).entry i = entries.getD i default := rfl
  have hid : ¬(index.loaded total entries reader).nlist ≤ i := not_le.mpr hi
  rw [planListRead, checkListId]
  dsimp only
  rw [rejectIf_bind hid, hentry, hcode, hrows, if_neg (by omega),
    hstored.checkedListOffset, ok_bind, checkedListBytes, checkedMul_bind (by omega),
    rejectIf_bind (hstored.idBytesLen_ne_zero (by omega)), hbytes,
    checkedAdd_of_lt (by omega), Option.bind_some, checkedAdd_bind (by omega),
    checkedAdd_bind (by omega), pure_eq_ok, hlen]

theorem readInvertedListPayloads_written (maxRanges : Nat) (hi : i < index.nlist) :
    (index.loaded total entries (ofBytes file maxRanges)).readInvertedListPayloads [i] =
      .ok [⟨i, sortedIds (index.ids.getD i []), transposeSortedPqCodes (index.codes.getD i [])
        (sortedOrder (index.ids.getD i [])) index.pq.codeSize⟩] := by
  rw [readInvertedListPayloads, ensureLoaded_of_loaded rfl, ok_bind]
  refine (h.entry hi).readPlannedLists_eq maxRanges (fun hnil => ⟨?_, ?_⟩)
    (planListRead_written h (ofBytes file maxRanges) hi rfl)
    fun hne hids _ => decodeDeltaListPayload_written index hne hids _ rfl rfl
  · have hrows : (entries.getD i default).rows = 0 := by
      rw [(h.entry hi).rows_length, hnil, length_nil]
    exact bind_eq_ok.mpr ⟨(), rejectIf_of_not (not_le.mpr hi), if_pos hrows⟩
  · have hcodes : transposeSortedPqCodes (index.codes.getD i []) [] index.pq.codeSize = [] :=
      length_eq_zero_iff.mp (by rw [transposeSortedPqCodes_length, length_nil, Nat.zero_mul])
    rw [hnil, sortedIds, sortedOrder_nil, map_nil, hcodes]

theorem listMatchedBy_written (hi : i < index.nlist) :
    ListMatchedBy (index.ids.getD i []) (index.codes.getD i [])
      index.pq.codeSize ⟨i, sortedIds (index.ids.getD i []), transposeSortedPqCodes
        (index.codes.getD i []) (sortedOrder (index.ids.getD i [])) index.pq.codeSize⟩ := by
  refine ⟨sortedOrder (index.ids.getD i []), sortedOrder_stablySorted _, rfl, ?_, ?_⟩
  · rw [transposeSortedPqCodes_length, sortedOrder_length]
  · intro row hrow column hcolumn
    have hget := transposeSortedPqCodes_getElem? (index.codes.getD i [])
      (sortedOrder (index.ids.getD i [])) index.pq.codeSize (by rwa [sortedOrder_length]) hcolumn
    rw [sortedOrder_length] at hget
    rw [hget, getD_sortedRow (h.codes i hi) hrow hcolumn]

theorem matchedBy_written (maxRanges : Nat) :
    index.MatchedBy (index.loaded total entries (ofBytes file maxRanges)) where
  d := rfl
  nlist := rfl
  metric := rfl
  byResidual := rfl
  hasOpq := rfl
  transposedCodes := rfl
  totalVectors := h.total_eq
  rotation := rfl
  quantizerCentroids := rfl
  pq := ⟨rfl, rfl, rfl, rfl⟩
  lists _ hi :=
    ⟨_, readInvertedListPayloads_written h maxRanges hi, rfl, listMatchedBy_written h hi⟩

end Written

/-- An index of one empty list over a single chunk without a rotation. -/
def unfilled (d : Nat) (hd : 0 < d) : IVFPQIndex where
  d := d
  nlist := 1
  metric := .l2
  byResidual := false
  quantizerCentroids := List.replicate d F32.zero
  pq := ⟨d, 1, 8, List.replicate (d * 256) F32.zero⟩
  rotation := none
  ids := [[]]
  codes := [[]]
  d_pos := hd
  nlist_pos := Nat.one_pos
  pq_d := rfl
  m_dvd := Nat.one_dvd d
  nbits_eq := .inr rfl
  centroids_length := by rw [length_replicate, Nat.one_mul]
  pq_centroids_length := length_replicate
  rotation_length := fun _ h => nomatch h
  ids_length := rfl
  codes_length := rfl

theorem writeIndex_unfilled {d : Nat} (hd : 0 < d) (hlt : d < 2 ^ 31) :
    ∃ file, (unfilled d hd).writeIndex = .ok file := by
  have hword : wordSize = 2 ^ 64 := rfl
  have hksub : (unfilled d hd).pq.ksub = 256 := rfl
  have hdsub : (unfilled d hd).pq.dsub = d := Nat.div_one d
  have htotal : totalVectorCount (unfilled d hd).ids = .ok 0 := rfl
  have hlists : (unfilled d hd).sortLists = .ok [⟨0, [], []⟩] := rfl
  have htables := (unfilled d hd).tables_length
  rw [tables] at htables
  have hlen : ∀ head : List UInt8, head.length = 64 → (head ++
      ((unfilled d hd).rotation.elim [] f32SliceBytes ++
        f32SliceBytes (unfilled d hd).quantizerCentroids ++
        f32SliceBytes (unfilled d hd).pq.centroids)).length = 64 + (1 * d * 4 + d * 256 * 4) := by
    intro head hhead
    rw [length_append, hhead, htables]
    show 64 + (0 + 1 * d * 4 + d * 256 * 4) = _
    rw [Nat.zero_add]
  have hshape : usizeToI32 (unfilled d hd).d "dimension" = .ok (Int32.ofNat d) :=
    usizeToI32_eq_ok.mpr ⟨hlt, rfl⟩
  have hone : ∀ field, usizeToI32 1 field = .ok 1 := fun _ => rfl
  rw [writeIndex, hksub, rejectIf_bind (by omega), hshape, ok_bind,
    show (unfilled d hd).nlist = 1 from rfl, show (unfilled d hd).pq.m = 1 from rfl, hone, ok_bind,
    hone, ok_bind, usizeToI32_eq_ok.mpr ⟨by decide, rfl⟩, ok_bind, hdsub,
    usizeToI32_eq_ok.mpr ⟨hlt, rfl⟩, ok_bind, htotal, ok_bind, hlists, ok_bind]
  dsimp only
  rw [checkedMul_bind (by decide), hlen _ (by simp),
    checkedAdd_bind (by omega), planEntries_unfilled _ _ (by omega), ok_bind, pure_eq_ok]
  exact ⟨_, rfl⟩

theorem sizes_of_ensureLoaded {total : Int64} {reader : SeekRead} {loaded : IVFPQIndexReader F32}
    (h : (index.opened total reader).ensureLoaded = .ok loaded) :
    index.d * index.d ≤ 2 ^ 30 ∧ index.nlist * index.d ≤ 2 ^ 30 := by
  rw [ensureLoaded, if_neg (by simp)] at h
  obtain ⟨_, hsquare, h⟩ := bind_eq_ok.mp h
  obtain ⟨_, hcoarse, -⟩ := bind_eq_ok.mp h
  exact ⟨(checkedSectionSize_eq_ok.mp hsquare).2, (checkedSectionSize_eq_ok.mp hcoarse).2⟩

/-- A written file is read back exactly when the rotation and the coarse centroids
of its shape stay within the section limit, which the writer does not check. -/
theorem write_index_reads_back_iff (index : IVFPQIndex) (maxRanges : Nat) {file : List UInt8}
    (h : index.writeIndex = .ok file) :
    (∃ reader loaded, openReader (ofBytes file maxRanges) = .ok reader ∧
        reader.ensureLoaded = .ok loaded ∧ index.MatchedBy loaded) ↔
      index.d * index.d ≤ 2 ^ 30 ∧ index.nlist * index.d ≤ 2 ^ 30 := by
  obtain ⟨total, entries, hwritten⟩ := writtenAs_of_writeIndex h
  have hopen := openReader_written hwritten maxRanges
  constructor
  · rintro ⟨reader, loaded, hreader, hloaded, -⟩
    rw [hopen, Except.ok.injEq] at hreader
    subst hreader
    exact sizes_of_ensureLoaded hloaded
  · rintro ⟨hd, hnlist⟩
    exact ⟨_, _, hopen, ensureLoaded_written hwritten maxRanges hd hnlist,
      matchedBy_written hwritten maxRanges⟩

/-- Two rows in the first list, the second list empty. -/
def filled : IVFPQIndex where
  d := 1
  nlist := 2
  metric := .l2
  byResidual := false
  quantizerCentroids := [F32.zero, F32.one]
  pq := ⟨1, 1, 8, List.replicate 256 F32.one⟩
  rotation := some [F32.one]
  ids := [[5, -3], []]
  codes := [[10, 20], []]
  d_pos := Nat.one_pos
  nlist_pos := Nat.two_pos
  pq_d := rfl
  m_dvd := Nat.one_dvd 1
  nbits_eq := .inr rfl
  centroids_length := rfl
  pq_centroids_length := length_replicate
  rotation_length := fun r h => by cases h; rfl
  ids_length := rfl
  codes_length := rfl

theorem write_index_reads_back_filled : ∃ file, filled.writeIndex = .ok file ∧ ∃ reader loaded,
    openReader (ofBytes file 0) = .ok reader ∧
      reader.ensureLoaded = .ok loaded ∧ filled.MatchedBy loaded := by
  have horder : sortedOrder [5, -3] = [1, 0] := by
    rw [sortedOrder, show List.range ([5, -3] : List Int64).length = [0, 1] from rfl]
    simp [List.mergeSort, List.MergeSort.Internal.splitInTwo]
  have hsorted : sortedList [5, -3] = ⟨-3, [1, 0], [0, 8]⟩ := by
    rw [sortedList, horder]
    rfl
  have hlists : filled.sortLists = .ok [⟨-3, [1, 0], [0, 8]⟩, ⟨0, [], []⟩] := by
    rw [← hsorted]
    rfl
  have hok : filled.writeIndex.isOk = true := by
    rw [writeIndex]
    simp only [hlists]
    decide +kernel
  obtain ⟨file, hfile⟩ := exists_ok_of_isOk hok
  exact ⟨file, hfile, (write_index_reads_back_iff filled 0 hfile).mpr (by decide)⟩

/-- Dimension 32769 without a rotation is written, and no reader loads the file. -/
theorem write_index_wide_not_loaded : ∃ file,
    (unfilled 32769 (by decide)).writeIndex = .ok file ∧
      ∀ maxRanges, ∃ reader : IVFPQIndexReader F32,
      openReader (ofBytes file maxRanges) = .ok reader ∧
      reader.ensureLoaded =
        .error (invalidData "section size 1073807361 exceeds maximum 1073741824") := by
  obtain ⟨file, hfile⟩ := writeIndex_unfilled (d := 32769) (by decide) (by decide)
  obtain ⟨total, entries, hwritten⟩ := writtenAs_of_writeIndex hfile
  refine ⟨file, hfile, fun maxRanges => ⟨_, openReader_written hwritten maxRanges, ?_⟩⟩
  have hsize : sectionSize 32769 32769 =
      .error (invalidData "section size 1073807361 exceeds maximum 1073741824") := by
    decide +kernel
  rw [ensureLoaded, if_neg (by simp)]
  show (sectionSize 32769 32769 >>= _) = _
  rw [hsize, error_bind]

end IVFPQIndex

end PaimonVindex
