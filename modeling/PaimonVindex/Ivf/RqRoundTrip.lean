import Mathlib.Algebra.BigOperators.Ring.List
import PaimonVindex.Ivf.RqFile
import PaimonVindex.Ivf.Stored

/-! An IVF-RQ file is read as it was written: the scans find every byte of every
plane and every factor of a row where the writer put them. -/

namespace PaimonVindex

open Checked Words IVFRQFileReader SeekRead RQReadList List

namespace Rq

variable {value : Nat} {field : String}

theorem usizeToI32_eq_ok {x : Int32} :
    usizeToI32 value field = .ok x ↔ value < 2 ^ 31 ∧ Int32.ofNat value = x :=
  tryFrom_eq_ok

theorem sectionSize_eq_ok {left right size : Nat} :
    sectionSize left right = .ok size ↔ left * right = size ∧ left * right ≤ 2 ^ 30 := by
  have hword : wordSize = 2 ^ 64 := rfl
  simp only [sectionSize, okOr_eq_ok, Option.filter_eq_some_iff, checkedMul_eq_some,
    decide_eq_true_eq]
  constructor
  · rintro ⟨⟨rfl, -⟩, hle⟩
    exact ⟨rfl, hle⟩
  · rintro ⟨rfl, hle⟩
    exact ⟨⟨rfl, by omega⟩, hle⟩

theorem listBytes_eq_ok {count bytesPerEntry size : Nat} :
    listBytes count bytesPerEntry = .ok size ↔
      count * bytesPerEntry = size ∧ count * bytesPerEntry < wordSize := by
  rw [listBytes, checkedListBytes, okOr_eq_ok, checkedMul_eq_some]

theorem validatePositiveI32_ofNat (hpos : 0 < value) (hlt : value < 2 ^ 31) (field : String) :
    validatePositiveI32 (Int32.ofNat value) field = .ok value := by
  obtain ⟨hnot, hvalue⟩ := int32_ofNat_pos hpos hlt
  rw [validatePositiveI32, rejectIf_bind hnot, pure_eq_ok, hvalue]

theorem bytesToF32Vec_slice (data : List F32) : bytesToF32Vec (f32SliceBytes data) = .ok data := by
  have hshared := PaimonVindex.bytesToF32Vec_slice data
  simp only [PaimonVindex.bytesToF32Vec, bind_eq_ok, rejectIf_eq_ok] at hshared
  obtain ⟨_, haligned, hdata⟩ := hshared
  rw [bytesToF32Vec, rejectIf_bind haligned, hdata]

theorem paddedDimension_pos (d : Nat) : 0 < paddedDimension d / 8 := by
  rw [paddedDimension, rotationBlockSize]
  omega

end Rq

variable {row : Nat}

section Blocks

variable {K : Type} [Zero K]

theorem rqScanBlockSize_pos : 0 < rqScanBlockSize := by decide

theorem blockCodes_eq_blocked (quantizer : RaBitQuantizer) (codes : List UInt8)
    (order : List Nat) : blockCodes quantizer.bits quantizer codes order =
      Blocks.blocked rqScanBlockSize order (quantizer.bits * quantizer.planeSize)
        fun position byte => codes.getD (position * quantizer.codeSize + byte) 0 := by
  rw [← Blocks.flatMap_chunks rqScanBlockSize_pos, blockCodes]
  refine flatMap_congr fun block _ => ?_
  rw [Blocks.columns, ← Blocks.flatMap_range_mul]
  simp only [Nat.add_assoc]

theorem blockFactors_eq_blocked (bits : Nat) (factors : List (RQVectorFactors K))
    (order : List Nat) : blockFactors bits factors order =
      Blocks.blocked rqScanBlockSize order (indexFactorsFields bits)
        fun position => factorValue (factors.getD position ⟨⟨0, 0, 0⟩, ⟨0, 0, 0⟩⟩) := by
  rw [← Blocks.flatMap_chunks rqScanBlockSize_pos]
  rfl

theorem blockCodes_length (quantizer : RaBitQuantizer) (codes : List UInt8) (order : List Nat) :
    (blockCodes quantizer.bits quantizer codes order).length =
      order.length * quantizer.codeSize := by
  rw [blockCodes_eq_blocked, Blocks.blocked_length rqScanBlockSize_pos, RaBitQuantizer.codeSize,
    Nat.mul_comm quantizer.bits]

theorem blockFactors_length (bits : Nat) (factors : List (RQVectorFactors K)) (order : List Nat) :
    (blockFactors bits factors order).length = order.length * indexFactorsFields bits := by
  rw [blockFactors_eq_blocked, Blocks.blocked_length rqScanBlockSize_pos]

theorem blockLanes_eq {count limit : Nat} (hlimit : limit = rqScanBlockSize ∨ count ≤ limit)
    (hrow : row < min count limit) :
    blockLanes (min count limit) (row / rqScanBlockSize * rqScanBlockSize) =
      min rqScanBlockSize (count - row / rqScanBlockSize * rqScanBlockSize) := by
  have hsize : rqScanBlockSize = 32 := rfl
  rw [blockLanes, hsize]
  rw [hsize] at hlimit
  rcases hlimit with hblock | hle
  · have hzero : row / 32 = 0 := by omega
    rw [hzero]
    omega
  · rw [Nat.min_eq_left hle, Nat.min_comm]

theorem planeByte_lt {quantizer : RaBitQuantizer} {plane byteIdx : Nat}
    (hplane : plane < quantizer.bits) (hbyte : byteIdx < quantizer.planeSize) :
    plane * quantizer.planeSize + byteIdx < quantizer.bits * quantizer.planeSize := by
  calc plane * quantizer.planeSize + byteIdx
      < plane * quantizer.planeSize + quantizer.planeSize := by omega
    _ = (plane + 1) * quantizer.planeSize := by ring
    _ ≤ quantizer.bits * quantizer.planeSize := Nat.mul_le_mul_right _ hplane

theorem blockCodes_codeAddress (quantizer : RaBitQuantizer) (codes : List UInt8) {order : List Nat}
    {plane byteIdx : Nat} (hrow : row < order.length) (hplane : plane < quantizer.bits)
    (hbyte : byteIdx < quantizer.planeSize) :
    (blockCodes quantizer.bits quantizer codes order)[codeAddress quantizer
        (row / rqScanBlockSize * rqScanBlockSize)
        (min rqScanBlockSize (order.length - row / rqScanBlockSize * rqScanBlockSize)) plane byteIdx
        (row % rqScanBlockSize)]? =
      some (codes.getD (order.getD row 0 * quantizer.codeSize +
        (plane * quantizer.planeSize + byteIdx)) 0) := by
  have hget := Blocks.blocked_getElem? rqScanBlockSize_pos
    (fun position byte => codes.getD (position * quantizer.codeSize + byte) 0) hrow
    (planeByte_lt hplane hbyte)
  rw [← blockCodes_eq_blocked, get_eq_getElem, ← getD_eq_getElem order 0 hrow] at hget
  rw [← hget]
  congr 1
  rw [codeAddress, RaBitQuantizer.codeSize]
  ring

theorem blockFactors_getElem? (bits : Nat) (factors : List (RQVectorFactors K)) {order : List Nat}
    {field : Nat} (hrow : row < order.length) (hfield : field < indexFactorsFields bits) :
    (blockFactors bits factors order)[row / rqScanBlockSize * rqScanBlockSize *
        indexFactorsFields bits +
        field * min rqScanBlockSize (order.length - row / rqScanBlockSize * rqScanBlockSize) +
        row % rqScanBlockSize]? =
      some (factorValue (factors.getD (order.getD row 0) ⟨⟨0, 0, 0⟩, ⟨0, 0, 0⟩⟩) field) := by
  have hget := Blocks.blocked_getElem? rqScanBlockSize_pos
    (fun position => factorValue (factors.getD position ⟨⟨0, 0, 0⟩, ⟨0, 0, 0⟩⟩)) hrow hfield
  rw [← blockFactors_eq_blocked, get_eq_getElem, ← getD_eq_getElem order 0 hrow] at hget
  rw [← hget]
  congr 1
  ring

end Blocks

namespace IVFRQIndex

def headFields (index : IVFRQIndex) (total : Int64) : List (List UInt8) :=
  [u32Bytes Rq.magic, u32Bytes Rq.version, i32Bytes (Int32.ofNat index.d),
    i32Bytes (Int32.ofNat index.paddedD), i32Bytes (Int32.ofNat index.nlist),
    u32Bytes index.metric.code, u32Bytes Rq.requiredFlags, u32Bytes (UInt32.ofNat index.bits),
    i64Bytes total, u64Bytes index.rotationSeed, u32Bytes index.rotationRounds,
    i32Bytes (Int32.ofNat index.quantizer.planeSize), u32Bytes Rq.rotationTypeBlockFht,
    u32Bytes Rq.factorLayoutCompactV1]

/-- The quantizer has the public bits and the public padded dimension. -/
structure Agrees (index : IVFRQIndex) : Prop where
  bits : index.quantizer.bits = index.bits
  planeSize : index.quantizer.planeSize = index.paddedD / 8

/-- What a successful call of the writer has checked and written. -/
structure WrittenAs (index : IVFRQIndex) (total : Int64) (entries : List ListEntry)
    (payloads : List (List UInt8)) (file : List UInt8) : Prop where
  d_pos : 0 < index.d
  nlist_pos : 0 < index.nlist
  d_lt : index.d < 2 ^ 31
  paddedD_lt : index.paddedD < 2 ^ 31
  nlist_lt : index.nlist < 2 ^ 31
  bits : Rq.isSupportedRqBits index.bits = true
  paddedD_eq : index.paddedD = Rq.paddedDimension index.d
  rounds : index.rotationRounds = Rq.defaultRotationRounds
  section_le : index.nlist * index.d ≤ 2 ^ 30
  centroids_length : index.quantizerCentroids.length = index.nlist * index.d
  ids_length : index.ids.length = index.nlist
  codes : ∀ i < index.nlist,
    (index.codes.getD i []).length = (index.ids.getD i []).length * index.quantizer.codeSize
  factors : ∀ i < index.nlist, (index.factors.getD i []).length = (index.ids.getD i []).length
  total_eq : total.toInt = (index.ids.map List.length).sum
  payloads_eq : List.Forall₂ (fun plan payload => index.payload plan.2 plan.1 = .ok payload)
    (index.ids.map sortedList).zipIdx payloads
  agrees : index.Agrees
  lists : WrittenLists index.listLen (invalidInput "IVF-RQ list offset overflow")
    ((index.headFields total).flatten ++ f32SliceBytes index.quantizerCentroids) index.ids payloads
    entries file

theorem headFields_length (index : IVFRQIndex) (total : Int64) :
    (index.headFields total).flatten.length = 64 := by
  simp [headFields]

variable {index : IVFRQIndex}

theorem validateIndexShape_eq_ok (h : index.validateIndexShape = .ok ()) :
    (0 < index.d ∧ 0 < index.nlist) ∧ Rq.isSupportedRqBits index.bits = true ∧
      index.paddedD = Rq.paddedDimension index.d ∧
      index.rotationRounds = Rq.defaultRotationRounds ∧
      index.nlist * index.d ≤ 2 ^ 30 ∧ index.quantizerCentroids.length = index.nlist * index.d ∧
      index.ids.length = index.nlist ∧
      ∀ i < index.nlist,
        (index.codes.getD i []).length = (index.ids.getD i []).length * index.quantizer.codeSize ∧
        (index.factors.getD i []).length = (index.ids.getD i []).length := by
  simp only [validateIndexShape, accepted, Rq.sectionSize_eq_ok, not_not] at h
  obtain ⟨hpos, hbits, hpadded, hrounds, _, ⟨rfl, hsection⟩, hcentroids, _, -, -, hlens, units,
    hall, -⟩ := h
  refine ⟨by omega, hbits, hpadded, hrounds, hsection, hcentroids, by omega, fun i hi => ?_⟩
  obtain ⟨_, hrow, -⟩ := of_mapM_range hall hi
  simp only [accepted, Rq.listBytes_eq_ok, not_not] at hrow
  obtain ⟨_, ⟨rfl, -⟩, hlists⟩ := hrow
  exact hlists

variable {ids : List Int64}

def payloadFields (index : IVFRQIndex) (listId : Nat) (list : SortedList) : List (List UInt8) :=
  [i64Bytes list.baseId, i32Bytes (Int32.ofNat list.idBytes.length),
    i32Bytes (Int32.ofNat (list.order.length * index.quantizer.codeSize)), list.idBytes,
    blockCodes index.quantizer.bits index.quantizer (index.codes.getD listId []) list.order,
    f32SliceBytes (blockFactors index.bits (index.factors.getD listId []) list.order)]

variable {listId : Nat} {payload : List UInt8}

theorem payload_eq_ok (hagrees : index.Agrees) {list : SortedList} (hne : list.order ≠ []) :
    index.payload listId list = .ok payload ↔ list.idBytes.length < 2 ^ 31 ∧
      list.order.length * index.quantizer.codeSize < 2 ^ 31 ∧
      (index.payloadFields listId list).flatten = payload := by
  have hinside : ¬index.quantizer.codeSize < index.quantizer.bits * index.quantizer.planeSize := by
    rw [RaBitQuantizer.codeSize, Nat.mul_comm]
    exact lt_irrefl _
  rw [IVFRQIndex.payload, if_neg hne, payloadFields, ← hagrees.bits, rejectIf_bind hinside]
  simp only [accepted, Rq.usizeToI32_eq_ok, blockCodes_length, flatten_cons, flatten_nil,
    append_nil, append_assoc]
  constructor
  · rintro ⟨_, ⟨hids, rfl⟩, _, ⟨hcodes, rfl⟩, rfl⟩
    exact ⟨hids, hcodes, rfl⟩
  · rintro ⟨hids, hcodes, rfl⟩
    exact ⟨_, ⟨hids, rfl⟩, _, ⟨hcodes, rfl⟩, rfl⟩

theorem payloadFields_length (index : IVFRQIndex) (listId : Nat) (list : SortedList) :
    (index.payloadFields listId list).flatten.length = 16 + list.idBytes.length +
      list.order.length * index.quantizer.codeSize +
      list.order.length * indexFactorsFields index.bits * 4 := by
  simp only [payloadFields, flatten_cons, flatten_nil, length_append,
    i64Bytes_length, i32Bytes_length, blockCodes_length, f32SliceBytes_length, blockFactors_length,
    length_nil]
  omega

theorem payload_of (hagrees : index.Agrees) {list : SortedList}
    (h : index.payload listId list = .ok payload) :
    PayloadOf index.listLen list payload := by
  constructor
  · intro hnil
    rw [IVFRQIndex.payload, if_pos hnil] at h
    cases h
    rfl
  · intro len hne hlen
    obtain ⟨-, -, rfl⟩ := (payload_eq_ok hagrees hne).mp h
    simp only [listLen, accepted, Rq.listBytes_eq_ok, Option.bind_eq_some_iff] at hlen
    obtain ⟨_, ⟨rfl, -⟩, _, ⟨rfl, -⟩, _, ⟨rfl, -⟩, _, ⟨_, ⟨rfl, -⟩, rfl, -⟩, rfl, -⟩ := hlen
    exact payloadFields_length index listId list

theorem payloads_of (hagrees : index.Agrees) {lists : List SortedList}
    {payloads : List (List UInt8)} {start : Nat}
    (h : List.Forall₂ (fun plan payload => index.payload plan.2 plan.1 =
      .ok payload) (lists.zipIdx start) payloads) :
    List.Forall₂ (PayloadOf index.listLen) lists payloads := by
  induction lists generalizing payloads start with
  | nil =>
    cases h
    exact List.Forall₂.nil
  | cons list lists ih =>
    rw [zipIdx_cons] at h
    obtain ⟨payload, rest, hpayload, hrest, rfl⟩ := forall₂_cons_left_iff.mp h
    exact List.Forall₂.cons (payload_of hagrees hpayload) (ih hrest)

def opened (index : IVFRQIndex) (total : Int64) (reader : SeekRead) : IVFRQFileReader F32 where
  reader := reader
  d := index.d
  paddedD := index.paddedD
  nlist := index.nlist
  metric := index.metric
  totalVectors := total
  rotationSeed := index.rotationSeed
  rotationRounds := index.rotationRounds
  planeSize := index.quantizer.planeSize
  numBits := index.bits
  rotationType := Rq.rotationTypeBlockFht
  factorLayout := Rq.factorLayoutCompactV1
  quantizerCentroids := []
  entries := []
  loaded := false

def loadedAs (index : IVFRQIndex) (total : Int64) (entries : List ListEntry) (reader : SeekRead) :
    IVFRQFileReader F32 :=
  { index.opened total reader with
    quantizerCentroids := index.quantizerCentroids
    entries := entries
    loaded := true }

variable {i : Nat}

section Read

variable {index : IVFRQIndex} {total : Int64} {entries : List ListEntry}
  {payloads : List (List UInt8)} {file : List UInt8}

theorem readEntry_stored {start : Nat} {list : List Int64} {entry : ListEntry}
    (h : StoredAt start file (sortedList list) payload entry) :
    readEntry entry.toBytes = .ok entry := by
  rw [readEntry, ListEntry.ofBytes_toBytes]
  simp only [Rq.validateNonNegativeI32, rejectIf_of_not h.count_nonneg,
    rejectIf_of_not h.not_idBytesLen_neg, ok_bind, pure_eq_ok]

def readList (index : IVFRQIndex) (listId : Nat) : RQReadList F32 where
  listId := listId
  ids := sortedIds (index.ids.getD listId [])
  codes := blockCodes index.quantizer.bits index.quantizer (index.codes.getD listId [])
    (sortedOrder (index.ids.getD listId []))
  blockedFactors := blockFactors index.bits (index.factors.getD listId [])
    (sortedOrder (index.ids.getD listId []))

variable (h : index.WrittenAs total entries payloads file)

include h

theorem openWithHeader_headFields (reader : SeekRead) :
    openWithHeader reader (index.headFields total).flatten =
      .ok (index.opened total reader) := by
  have hfields := fieldsAt_flatten (index.headFields total)
  have hplaneEq := h.agrees.planeSize
  have hplanePos : 0 < index.quantizer.planeSize := by
    rw [hplaneEq, h.paddedD_eq]
    exact Rq.paddedDimension_pos index.d
  have hpaddedLt := h.paddedD_lt
  have hsupported := h.bits
  have hbitsLe : 1 ≤ index.bits ∧ index.bits ≤ 8 := by
    simpa only [Rq.isSupportedRqBits, decide_eq_true_eq] using hsupported
  have hbitsNat : (UInt32.ofNat index.bits).toNat = index.bits :=
    UInt32.toNat_ofNat_of_lt' (by show index.bits < 2 ^ 32; omega)
  have hnonneg := int64_not_neg h.total_eq
  have hflagsOk : ¬(Rq.requiredFlags &&& ~~~Rq.supportedFlags ≠ 0 ∨
      Rq.requiredFlags &&& Rq.requiredFlags ≠ Rq.requiredFlags) := by decide
  generalize (index.headFields total).flatten = header at hfields ⊢
  simp only [headFields, FieldsAt, u32Bytes_length, i32Bytes_length, i64Bytes_length,
    u64Bytes_length, Nat.reduceAdd, and_true] at hfields
  simp only [openWithHeader, hfields, u32OfBytes_u32Bytes, i32OfBytes_i32Bytes, i64OfBytes_i64Bytes,
    u64OfBytes_u64Bytes, Rq.validatePositiveI32_ofNat h.d_pos h.d_lt,
    Rq.validatePositiveI32_ofNat h.nlist_pos h.nlist_lt,
    Rq.validatePositiveI32_ofNat (by omega : 0 < index.paddedD) h.paddedD_lt,
    Rq.validatePositiveI32_ofNat hplanePos (by omega), hbitsNat, MetricType.fromCode_code,
    okOr_some, ok_bind, rejectIf_of_not (not_not.mpr h.paddedD_eq), rejectIf_of_not hnonneg,
    rejectIf_of_not (not_not.mpr hplaneEq), rejectIf_of_not (not_not.mpr hsupported),
    rejectIf_of_not (not_not.mpr h.rounds), rejectIf_of_not hflagsOk, rejectIf_ne_self, pure_eq_ok]
  rfl

theorem WrittenAs.planeSize :
    (RaBitQuantizer.new index.d index.bits).planeSize = index.quantizer.planeSize := by
  rw [h.agrees.planeSize, h.paddedD_eq]
  rfl

theorem WrittenAs.codeSize :
    (RaBitQuantizer.new index.d index.bits).codeSize = index.quantizer.codeSize := by
  rw [RaBitQuantizer.codeSize, h.planeSize, RaBitQuantizer.codeSize, h.agrees.bits]
  rfl

theorem openReader_written (maxRanges : Nat) :
    openReader (ofBytes file maxRanges) =
      .ok (index.opened total (ofBytes file maxRanges)) := by
  have hread := h.lists.pread_head maxRanges
  rw [headFields_length] at hread
  rw [openReader, Rq.headerSize, hread, ok_bind, openWithHeader_headFields h]

theorem WrittenAs.pread_metadata (maxRanges : Nat) :
    (ofBytes file maxRanges).pread 64 (index.nlist * index.d * 4 + index.nlist * 16) =
      .ok (f32SliceBytes index.quantizerCentroids ++ entries.flatMap ListEntry.toBytes) := by
  have hread := h.lists.pread_tables maxRanges
    (show _ = index.nlist * index.d * 4 + index.nlist * 16 by
      rw [f32SliceBytes_length, h.centroids_length, h.ids_length])
  rwa [headFields_length] at hread

theorem ensureLoaded_written (maxRanges : Nat) :
    (index.opened total (ofBytes file maxRanges)).ensureLoaded =
      .ok (index.loadedAs total entries (ofBytes file maxRanges)) := by
  have hword : wordSize = 2 ^ 64 := rfl
  have hsection := h.section_le
  have hnlist := h.nlist_lt
  have hcentroids : (f32SliceBytes index.quantizerCentroids).length =
      index.nlist * index.d * 4 := by
    rw [f32SliceBytes_length, h.centroids_length]
  have hentries : (chunksExact 16 (entries.flatMap ListEntry.toBytes)).mapM
      readEntry = .ok entries := by
    rw [chunksExact_flatMap (by decide) fun entry _ => entry.toBytes_length, mapM_eq_ok,
      forall₂_map_left_iff, forall₂_same]
    intro entry hentry
    obtain ⟨_, _, hstored⟩ := h.lists.stored_of_mem hentry
    exact readEntry_stored hstored
  have hcounts : (entries.map (·.count.toInt)).sum = total.toInt := by
    have hrows : entries.map (·.count.toInt) = (entries.map ListEntry.rows).map Int.ofNat := by
      rw [map_map]
      refine map_congr_left fun entry hentry => ?_
      obtain ⟨_, _, hstored⟩ := h.lists.stored_of_mem hentry
      rw [Function.comp_apply, hstored.rows_eq, hstored.count]
      rfl
    rw [hrows, h.total_eq, ← h.lists.rows_sum]
    exact (map_list_sum (Nat.castAddMonoidHom Int) _).symm
  rw [ensureLoaded, if_neg (by simp [opened])]
  show (Rq.sectionSize index.nlist index.d >>= _) = _
  rw [Rq.sectionSize_eq_ok.mpr ⟨rfl, hsection⟩, ok_bind,
    Rq.listBytes_eq_ok.mpr ⟨rfl, by rw [Rq.factorBytes]; omega⟩, ok_bind]
  show (Rq.listBytes index.nlist 16 >>= _) = _
  rw [Rq.listBytes_eq_ok.mpr ⟨rfl, by omega⟩, ok_bind,
    checkedAdd_bind (by rw [Rq.factorBytes]; omega)]
  show ((ofBytes file maxRanges).pread 64 (index.nlist * index.d * 4 + index.nlist * 16) >>=
    _) = _
  rw [h.pread_metadata, ok_bind, Rq.factorBytes, take_left' hcentroids, Rq.bytesToF32Vec_slice,
    ok_bind, drop_left' hcentroids, hentries, ok_bind]
  show (rejectIf ((entries.map (·.count.toInt)).sum ≠ total.toInt) _ >>= _) = _
  rw [rejectIf_bind (not_not.mpr hcounts), pure_eq_ok, map_ofF32]
  rfl

theorem WrittenAs.entry (hi : i < index.nlist) : ∃ payload,
      index.payload i (sortedList (index.ids.getD i [])) = .ok payload ∧
      StoredAt ((index.headFields total).flatten ++
        f32SliceBytes index.quantizerCentroids).length file
        (sortedList (index.ids.getD i [])) payload
        (entries.getD i default) := by
  have hlt : i < index.ids.length := by rw [h.ids_length]; exact hi
  obtain ⟨entry, payload, hentry, hpayload, hstored⟩ := h.lists.entry hlt
  obtain ⟨hlen, hall⟩ := forall₂_iff_get.mp h.payloads_eq
  obtain ⟨hbound, hget⟩ := List.getElem?_eq_some_iff.mp hpayload
  have hok := hall i (by rw [hlen]; exact hbound) hbound
  rw [get_eq_getElem, getElem_zipIdx, get_eq_getElem, hget, getElem_map,
    Nat.zero_add, ← getD_eq_getElem _ [] hlt] at hok
  have hgetD : entries.getD i default = entry := by
    rw [getD_eq_getElem?_getD, hentry, Option.getD_some]
  exact ⟨payload, hok, hgetD ▸ hstored⟩

end Read

/-- What a scan by the reader's quantizer finds of one row: `position` is where the
row was added. -/
structure RowStoredAt (index : IVFRQIndex) (quantizer : RaBitQuantizer) (list : RQReadList F32)
    (listId scanEnd row position : Nat) : Prop where
  codes : ∀ plane < index.bits, ∀ byteIdx < index.quantizer.planeSize,
    list.codes[codeAddress quantizer (row / rqScanBlockSize * rqScanBlockSize)
        (blockLanes scanEnd (row / rqScanBlockSize * rqScanBlockSize)) plane byteIdx
        (row % rqScanBlockSize)]? =
      (index.codes.getD listId [])[position * index.quantizer.codeSize +
        (plane * index.quantizer.planeSize + byteIdx)]?
  factors : ∃ factors, (index.factors.getD listId [])[position]? = some factors ∧
    list.readBlockFactor (row / rqScanBlockSize * rqScanBlockSize * quantizer.factorFields)
        (blockLanes scanEnd (row / rqScanBlockSize * rqScanBlockSize)) 0
        (row % rqScanBlockSize) (1 < index.bits) =
      some ⟨factors.coarse.fAdd, factors.coarse.fRescale,
        if 1 < index.bits then factors.coarse.fError else 0⟩ ∧
    (1 < index.bits → list.readBlockFactor
        (row / rqScanBlockSize * rqScanBlockSize * quantizer.factorFields)
        (blockLanes scanEnd (row / rqScanBlockSize * rqScanBlockSize)) 3
        (row % rqScanBlockSize) false =
      some ⟨factors.full.fAdd, factors.full.fRescale, 0⟩)

/-- The scans stop at the end of the list or of its first block. -/
def ListMatchedBy (index : IVFRQIndex) (quantizer : RaBitQuantizer) (listId : Nat)
    (list : RQReadList F32) : Prop :=
  ∃ order, StablySorted (index.ids.getD listId []) order ∧
    list.ids = order.map ((index.ids.getD listId []).getD · 0) ∧
    ∀ limit, limit = rqScanBlockSize ∨ list.ids.length ≤ limit →
      ∀ row < min list.ids.length limit,
        index.RowStoredAt quantizer list listId (min list.ids.length limit) row (order.getD row 0)

theorem readBlockFactor_eq_some {K : Type} [Zero K] {list : RQReadList K}
    {blockStart lanes firstField lane : Nat} {hasError : Bool} {fAdd fRescale : K} (fError : K)
    (hAdd : list.blockedFactors[blockStart + firstField * lanes + lane]? = some fAdd)
    (hRescale : list.blockedFactors[blockStart + (firstField + 1) * lanes + lane]? = some fRescale)
    (hError : hasError = true →
      list.blockedFactors[blockStart + (firstField + 2) * lanes + lane]? = some fError) :
    list.readBlockFactor blockStart lanes firstField lane hasError =
      some ⟨fAdd, fRescale, if hasError then fError else 0⟩ := by
  rw [readBlockFactor, hAdd, hRescale]
  cases hasError with
  | false => rfl
  | true =>
    rw [hError rfl]
    rfl

theorem readList_rowStoredAt {total : Int64} {entries : List ListEntry}
    {payloads : List (List UInt8)} {file : List UInt8}
    (h : index.WrittenAs total entries payloads file) (hids : index.ids.getD listId [] = ids)
    (hcodes : (index.codes.getD listId []).length = ids.length * index.quantizer.codeSize)
    (hfactors : (index.factors.getD listId []).length = ids.length) {limit : Nat}
    (hlimit : limit = rqScanBlockSize ∨ ids.length ≤ limit) (hrow : row < min ids.length limit) :
    index.RowStoredAt (RaBitQuantizer.new index.d index.bits) (index.readList listId) listId
      (min ids.length limit) row
      ((sortedOrder ids).getD row 0) := by
  have hcount : row < ids.length := by omega
  have hlt : row < (sortedOrder ids).length := by
    rwa [sortedOrder_length]
  have hposition := sortedOrder_getD_lt hcount
  constructor
  · intro plane hplane byteIdx hbyte
    rw [← h.agrees.bits] at hplane
    have hget := blockCodes_codeAddress index.quantizer (index.codes.getD listId [])
      hlt hplane hbyte
    rw [sortedOrder_length] at hget
    rw [blockLanes_eq hlimit hrow, readList, hids, codeAddress, h.codeSize, h.planeSize]
    refine hget.trans ?_
    have hcolumn : plane * index.quantizer.planeSize + byteIdx < index.quantizer.codeSize := by
      rw [RaBitQuantizer.codeSize, Nat.mul_comm index.quantizer.planeSize]
      exact planeByte_lt hplane hbyte
    exact getD_sortedRow hcodes hcount hcolumn
  · have hinside : (sortedOrder ids).getD row 0 <
        (index.factors.getD listId []).length := by rwa [hfactors]
    have hget : ∀ field < indexFactorsFields index.bits,
        (index.readList listId).blockedFactors[row / rqScanBlockSize * rqScanBlockSize *
          (RaBitQuantizer.new index.d index.bits).factorFields + field * min rqScanBlockSize
            (ids.length - row / rqScanBlockSize * rqScanBlockSize) +
          row % rqScanBlockSize]? =
        some (factorValue (index.factors.getD listId [])[(sortedOrder
          ids).getD row 0] field) := by
      intro field hfield
      have hget := blockFactors_getElem? index.bits (index.factors.getD listId []) hlt hfield
      rw [sortedOrder_length, getD_eq_getElem _ _ hinside] at hget
      rw [readList, hids]
      exact hget
    have hfields : 2 ≤ indexFactorsFields index.bits ∧
        (1 < index.bits → indexFactorsFields index.bits = 5) := by
      rw [indexFactorsFields]
      split <;> omega
    refine ⟨_, List.getElem?_eq_getElem hinside, ?_, fun hmore => ?_⟩
    · rw [blockLanes_eq hlimit hrow]
      refine (readBlockFactor_eq_some _ (hget 0 (by omega)) (hget 1 (by omega))
        fun hmore => ?_).trans
        (by simp only [decide_eq_true_eq]; rfl)
      rw [decide_eq_true_eq] at hmore
      exact hget 2 (by omega)
    · rw [blockLanes_eq hlimit hrow]
      exact readBlockFactor_eq_some 0 (hget 3 (by omega)) (hget 4 (by omega)) (fun h => nomatch h)

theorem listMatchedBy_written {total : Int64} {entries : List ListEntry}
    {payloads : List (List UInt8)} {file : List UInt8}
    (h : index.WrittenAs total entries payloads file) (hi : i < index.nlist) :
    index.ListMatchedBy (RaBitQuantizer.new index.d index.bits) i (index.readList i) := by
  refine ⟨sortedOrder (index.ids.getD i []), sortedOrder_stablySorted _, rfl, ?_⟩
  have hlen : (index.readList i).ids.length = (index.ids.getD i []).length := sortedIds_length _
  intro limit hlimit row hrow
  rw [hlen] at hlimit hrow ⊢
  exact readList_rowStoredAt h rfl (h.codes i hi) (h.factors i hi) hlimit hrow

/-- Three rows of two bit planes in the first list, two of them with one id, the
second list empty. -/
def filled : IVFRQIndex where
  d := 1
  paddedD := 64
  nlist := 2
  bits := 2
  metric := .l2
  quantizerCentroids := [F32.zero, F32.one]
  rotatedCentroids := List.replicate 128 F32.zero
  rotationSeed := 7
  rotationRounds := 4
  ids := [[5, -3, 5], []]
  codes := [(List.range 48).map UInt8.ofNat, []]
  factors := [[⟨⟨F32.one, F32.zero, F32.one⟩, ⟨F32.zero, F32.one, F32.zero⟩⟩,
    ⟨⟨F32.zero, F32.one, F32.one⟩, ⟨F32.one, F32.one, F32.one⟩⟩,
    ⟨⟨F32.one, F32.one, F32.zero⟩, ⟨F32.zero, F32.zero, F32.one⟩⟩], []]
  quantizer := .new 1 2

end IVFRQIndex

end PaimonVindex
