import PaimonVindex.Ivf.FlatRoundTrip
import PaimonVindex.Lib.Buffered

/-! How the vectors of an IVF-FLAT list get into the file and out of it: the
writer goes through a buffer of any size, and the reader puts the payload where
its vectors are aligned. Neither changes a byte. -/

namespace PaimonVindex

open Checked Words List

namespace IVFFlatIndex

section Write

/-- The shared buffer is cleared before the first value. -/
def writeF32Iter (out : List UInt8) (data : List F32) (bufferLimit : Nat) : List UInt8 :=
  Buffered.finish (Buffered.pushAll (by omega : 0 < max bufferLimit 1) out (data.map F32.toBytes))

theorem writeF32Iter_eq_append (out : List UInt8) (data : List F32) (bufferLimit : Nat) :
    writeF32Iter out data bufferLimit = out ++ f32SliceBytes data := by
  rw [writeF32Iter, Buffered.finish_pushAll, f32SliceBytes, flatMap_def]

variable (index : IVFFlatIndex)

variable (bufferLimit : Nat)

def writeList (out : List UInt8) (list : SortedList) (vectors : List F32) : List UInt8 :=
  if list.order = [] then out
  else writeF32Iter (out ++ list.idSection) (sortedVectors vectors list.order index.d) bufferLimit

def writeIvfflatIndexWithBufferLimit : IoResult (List UInt8) := do
  index.validateIndexShape
  let bytesPerVector ← okOr (checkedMul index.d 4)
    (invalidInput "IVF-FLAT bytes per vector overflow")
  let d ← usizeToI32 index.d "dimension"
  let nlist ← usizeToI32 index.nlist "nlist"
  let total ← totalVectorCount index.ids
  let lists := index.ids.map sortedList
  let head := u32Bytes Flat.magic ++ u32Bytes Flat.version ++ i32Bytes d ++ i32Bytes nlist ++
    u32Bytes index.metric.code ++ i64Bytes total ++ u32Bytes Flat.flagDeltaIds ++
    List.replicate 32 0
  let out := writeF32Iter head index.quantizerCentroids bufferLimit
  let offsetTableSize ← okOr (checkedMul index.nlist 16)
    (invalidInput "IVF-FLAT offset table size overflow")
  let dataStart ← okOr (checkedAdd out.length offsetTableSize)
    (invalidInput "IVF-FLAT data start offset overflow")
  let entries ← planEntries (payloadLen bytesPerVector) (invalidInput "IVF-FLAT offset overflow")
    dataStart lists
  let out := out ++ entries.flatMap ListEntry.toBytes
  return (lists.zip index.vectors).foldl
    (fun out item => index.writeList bufferLimit out item.1 item.2) out

theorem writeList_eq_append (out : List UInt8) (list : SortedList) (vectors : List F32) :
    index.writeList bufferLimit out list vectors = out ++ index.payload list vectors := by
  rw [writeList, payload]
  by_cases hnil : list.order = []
  · rw [if_pos hnil, if_pos hnil, append_nil]
  · rw [if_neg hnil, if_neg hnil, writeF32Iter_eq_append, append_assoc]

theorem foldl_writeList (items : List (SortedList × List F32)) (out : List UInt8) :
    items.foldl (fun out item => index.writeList bufferLimit out item.1 item.2) out =
      out ++ items.flatMap fun item => index.payload item.1 item.2 := by
  induction items generalizing out with
  | nil => simp
  | cons item items ih =>
    rw [foldl_cons, ih, writeList_eq_append, flatMap_cons, append_assoc]

theorem writeIvfflatIndexWithBufferLimit_eq :
    index.writeIvfflatIndexWithBufferLimit bufferLimit = index.writeIvfflatIndex := by
  rw [writeIvfflatIndexWithBufferLimit, writeIvfflatIndex]
  simp only [writeF32Iter_eq_append, foldl_writeList]

end Write

end IVFFlatIndex

/-- A payload in an allocation of single-precision words. It begins where the
vectors behind its ids fall on a word. -/
structure AlignedFlatPayload where
  /-- The bytes of the words. -/
  storage : List UInt8
  readStart : Nat
  payloadLen : Nat
  vectorStart : Nat
  vectorLen : Nat
  decodedVectors : Option (List F32)
  fits : readStart + payloadLen ≤ storage.length
  suffix_eq : vectorStart + vectorLen = payloadLen
  whole : vectorLen % 4 = 0
  aligned : (readStart + vectorStart) % 4 = 0

variable {bytes : List UInt8}

namespace AlignedFlatPayload

def readStartFor (vectorStart : Nat) : Nat := (4 - vectorStart % 4) % 4

def new (payloadLen vectorStart vectorLen : Nat) : IoResult AlignedFlatPayload :=
  match hend : checkedAdd vectorStart vectorLen with
  | none => .error (invalidData "IVF-FLAT vector suffix overflow")
  | some vectorEnd =>
    if hshape : vectorEnd ≠ payloadLen ∨ vectorLen % 4 ≠ 0 then
      .error (invalidData "IVF-FLAT vector suffix has an invalid shape")
    else
      match hbytes : checkedAdd (readStartFor vectorStart) payloadLen with
      | none => .error (invalidData "IVF-FLAT aligned payload overflow")
      | some storageBytes => .ok {
          storage := List.replicate ((storageBytes + 3) / 4 * 4) 0
          readStart := readStartFor vectorStart
          payloadLen, vectorStart, vectorLen
          decodedVectors := none
          fits := by
            have hsum := (checkedAdd_eq_some.mp hbytes).1
            rw [length_replicate]
            omega
          suffix_eq := by
            have hsum := (checkedAdd_eq_some.mp hend).1
            omega
          whole := by omega
          aligned := by
            rw [readStartFor]
            omega }

variable (self : AlignedFlatPayload)

def readBytes : List UInt8 :=
  (self.storage.drop self.readStart).take self.payloadLen

def fill (bytes : List UInt8) (h : bytes.length = self.payloadLen) : AlignedFlatPayload :=
  { self with
    storage := self.storage.take self.readStart ++ (bytes ++
      self.storage.drop (self.readStart + self.payloadLen))
    fits := by
      have hfits := self.fits
      rw [length_append, length_append, length_take, length_drop, h]
      omega }

def prepareVectors (bigEndian : Bool) : IoResult AlignedFlatPayload :=
  if bigEndian then do
    let decoded ← bytesToF32Vec (self.readBytes.drop self.vectorStart)
    return { self with decodedVectors := some decoded }
  else .ok self

/-- Without decoded vectors, the words of the allocation from the first one of the
vectors on. -/
def vectors : List F32 :=
  self.decodedVectors.getD ((((chunksExact 4 self.storage).drop
    ((self.readStart + self.vectorStart) / 4)).take (self.vectorLen / 4)).map F32.ofBytes)

theorem new_eq_ok {payloadLen vectorStart vectorLen : Nat} {owner : AlignedFlatPayload}
    (h : new payloadLen vectorStart vectorLen = .ok owner) :
    owner.payloadLen = payloadLen ∧ owner.vectorStart = vectorStart ∧
      owner.decodedVectors = none := by
  unfold new at h
  split at h
  · cases h
  · split at h
    · cases h
    · split at h
      · cases h
      · cases h
        exact ⟨rfl, rfl, rfl⟩

theorem exists_new_of_checkPayloadShape {payloadLen vectorStart vectorLen : Nat}
    (h : Flat.checkPayloadShape payloadLen vectorStart vectorLen = .ok ()) :
    ∃ owner, new payloadLen vectorStart vectorLen = .ok owner := by
  simp only [Flat.checkPayloadShape, bind_eq_ok, okOr_eq_ok, rejectIf_eq_ok] at h
  obtain ⟨vectorEnd, hend, _, hshape, storageBytes, hbytes, -⟩ := h
  unfold new
  split
  · simp_all
  · rename_i other hother
    have hsame : vectorEnd = other := Option.some.inj (hend.symm.trans hother)
    rw [dif_neg (hsame ▸ hshape)]
    split
    · rename_i hnone
      rw [readStartFor, hbytes] at hnone
      cases hnone
    · exact ⟨_, rfl⟩

theorem readBytes_fill (h : bytes.length = self.payloadLen) :
    (self.fill bytes h).readBytes = bytes := by
  have hstart : (self.storage.take self.readStart).length = self.readStart := by
    have hfits := self.fits
    rw [length_take]
    omega
  show ((self.storage.take self.readStart ++ (bytes ++ _)).drop self.readStart).take
    self.payloadLen = bytes
  rw [drop_left' hstart, take_left' h]

theorem vectors_eq (h : self.decodedVectors = none) :
    self.vectors = (chunksExact 4 (self.readBytes.drop self.vectorStart)).map F32.ofBytes := by
  have hfits := self.fits
  have hsuffix := self.suffix_eq
  have hwhole := self.whole
  have haligned := self.aligned
  have hstart : (self.readStart + self.vectorStart) / 4 * 4 =
      self.readStart + self.vectorStart := by
    omega
  have hlen : self.vectorLen / 4 * 4 = self.vectorLen := by omega
  rw [vectors, h, Option.getD_none, chunksExact_part (by decide) _ (by omega), hstart, hlen,
    readBytes, drop_take, drop_drop]
  congr 4
  omega

theorem prepareVectors_fill (hnew : self.decodedVectors = none) (h : bytes.length = self.payloadLen)
    (bigEndian : Bool) :
    ∃ owner, (self.fill bytes h).prepareVectors bigEndian = .ok owner ∧
      owner.vectors = (chunksExact 4 (bytes.drop self.vectorStart)).map F32.ofBytes := by
  cases bigEndian with
  | false =>
    refine ⟨_, rfl, ?_⟩
    rw [vectors_eq (self.fill bytes h) hnew, readBytes_fill]
    rfl
  | true =>
    have haligned : ¬(bytes.drop self.vectorStart).length % 4 ≠ 0 := by
      have hsuffix := self.suffix_eq
      have hwhole := self.whole
      rw [length_drop, h]
      omega
    refine ⟨{ self.fill bytes h with
      decodedVectors := some ((chunksExact 4 (bytes.drop self.vectorStart)).map F32.ofBytes) },
      ?_, rfl⟩
    rw [prepareVectors, if_pos rfl, readBytes_fill]
    show (bytesToF32Vec (bytes.drop self.vectorStart) >>= _) = _
    rw [bytesToF32Vec, rejectIf_of_not haligned]
    rfl

end AlignedFlatPayload

namespace IVFFlatIndexReader

variable {K : Type} [Scalar K]

/-- The owner was made when the read was planned; a read fills all of it. -/
def decodeAlignedPayload (bigEndian : Bool) (read : ListRead) (bytes : List UInt8) :
    IoResult (FlatListData K) := do
  let owner ← AlignedFlatPayload.new read.payloadLen (12 + read.idBytesLen)
    (read.payloadLen - (12 + read.idBytesLen))
  if h : bytes.length = owner.payloadLen then do
    let owner := owner.fill bytes h
    let baseId := i64OfBytes (owner.readBytes.take 8)
    let encodedLen := i32OfBytes ((owner.readBytes.drop 8).take 4)
    rejectIf (encodedLen < 0 ∨ encodedLen.toInt.toNat ≠ read.idBytesLen)
      (invalidData "IVF-FLAT id_bytes_len mismatch")
    let ids ← Flat.decodeDeltaVarintIds baseId ((owner.readBytes.drop 12).take read.idBytesLen)
      read.count
    let owner ← owner.prepareVectors bigEndian
    return ⟨read.listId, ids, owner.vectors.map Scalar.ofF32⟩
  else .error (panicked "a read that does not fill its buffer")

def readAlignedLists (bigEndian : Bool) (self : IVFFlatIndexReader K) (listIds : List Nat) :
    IoResult (List (FlatListData K)) := do
  let self ← self.ensureLoaded
  readPlannedLists self.reader self.planListRead (decodeAlignedPayload bigEndian)
    (fun listId => ⟨listId, [], []⟩)
    (invalidData "missing batched IVF-FLAT list read result") listIds

theorem decodeAlignedPayload_eq (bigEndian : Bool) {read : ListRead}
    (hlen : bytes.length = read.payloadLen)
    (hshape : Flat.checkPayloadShape read.payloadLen (12 +
      read.idBytesLen) (read.payloadLen - (12 + read.idBytesLen)) = .ok ()) :
    decodeAlignedPayload (K := K) bigEndian read bytes = decodeListPayload read bytes := by
  obtain ⟨owner, hnew⟩ := AlignedFlatPayload.exists_new_of_checkPayloadShape hshape
  obtain ⟨hpayload, hstart, hdecoded⟩ := AlignedFlatPayload.new_eq_ok hnew
  have hfill : bytes.length = owner.payloadLen := hlen.trans hpayload.symm
  obtain ⟨filled, hfilled, hvectors⟩ := owner.prepareVectors_fill hdecoded hfill bigEndian
  rw [decodeAlignedPayload, hnew, ok_bind, dif_pos hfill, decodeListPayload]
  dsimp only
  rw [owner.readBytes_fill hfill]
  refine bind_congr_ok fun _ _ => bind_congr_ok fun ids _ => ?_
  rw [hfilled, ok_bind, hvectors, hstart, vectorsOfBytes, map_map]
  rfl

omit [Scalar K] in
theorem planListRead_shape {self : IVFFlatIndexReader K} {listId : Nat} {read : ListRead}
    (h : self.planListRead listId = .ok (some read)) :
    Flat.checkPayloadShape read.payloadLen (12 + read.idBytesLen)
      (read.payloadLen - (12 + read.idBytesLen)) = .ok () := by
  rw [planListRead] at h
  obtain ⟨_, -, h⟩ := bind_eq_ok.mp h
  by_cases hzero : (self.entry listId).rows = 0
  · rw [if_pos hzero] at h
    cases h
  · rw [if_neg hzero] at h
    simp only [accepted, Option.bind_eq_some_iff, Option.some.injEq] at h
    obtain ⟨_, -, vectorBytes, -, _, ⟨_, ⟨rfl, -⟩, rfl, -⟩, ⟨⟩, hshape, rfl⟩ := h
    show Flat.checkPayloadShape _ (12 + (self.entry listId).idBytes) _ = _
    rwa [Nat.add_sub_cancel_left]

theorem readAlignedLists_eq (bigEndian : Bool) (self : IVFFlatIndexReader K) (listIds : List Nat) :
    self.readAlignedLists bigEndian listIds = self.readInvertedLists listIds := by
  rw [readAlignedLists, readInvertedLists]
  refine bind_congr_ok fun self _ => readPlannedLists_congr fun listId read bytes hread hbytes => ?_
  exact decodeAlignedPayload_eq bigEndian (self.reader.pread_length hbytes)
    (planListRead_shape hread)

end IVFFlatIndexReader

namespace IVFFlatIndex

def ListMatchedBy (ids : List Int64) (vectors : List F32) (d : Nat) (list : FlatListData F32) :
    Prop :=
  ∃ order, StablySorted ids order ∧ list.ids = order.map (ids.getD · 0) ∧
    list.vectors.length = ids.length * d ∧
    ∀ row < ids.length, ∀ j < d,
      list.vectors[row * d + j]? = vectors[order.getD row 0 * d + j]?

/-- A loaded reader that holds what the index held. -/
structure MatchedBy (index : IVFFlatIndex) (bigEndian : Bool) (reader : IVFFlatIndexReader F32) :
    Prop where
  d : reader.d = index.d
  nlist : reader.nlist = index.nlist
  metric : reader.metric = index.metric
  totalVectors : reader.totalVectors.toInt = (index.ids.map List.length).sum
  quantizerCentroids : reader.quantizerCentroids = index.quantizerCentroids
  lists : ∀ i < index.nlist, ∃ list, reader.readAlignedLists bigEndian [i] = .ok [list] ∧
    list.listId = i ∧ ListMatchedBy (index.ids.getD i []) (index.vectors.getD i []) index.d list

theorem sortedVectors_getElem? {vectors : List F32} {ids : List Int64} {d row j : Nat}
    (hlen : vectors.length = ids.length * d) (hrow : row < ids.length) (hj : j < d) :
    (sortedVectors vectors (sortedOrder ids) d)[row * d + j]? =
      vectors[(sortedOrder ids).getD row 0 * d + j]? := by
  have hlt : row < (sortedOrder ids).length := by rwa [sortedOrder_length]
  have hwidth : ∀ x ∈ sortedOrder ids, ((vectors.drop (x * d)).take d).length = d :=
    fun x hx => sortedVectors_row_length hlen hx
  rw [sortedVectors, ← List.getElem?_drop, drop_flatMap_of_width hwidth,
    drop_eq_getElem_cons hlt, flatMap_cons,
    List.getElem?_append_left (by rw [hwidth _ (getElem_mem hlt)]; exact hj),
    List.getElem?_take_of_lt hj, List.getElem?_drop, ← getD_eq_getElem _ 0 hlt]

theorem matchedBy_written {index : IVFFlatIndex} {total : Int64} {entries : List ListEntry}
    {file : List UInt8} (h : index.WrittenAs total entries file) (bigEndian : Bool)
    (maxRanges : Nat) :
    index.MatchedBy bigEndian (index.loaded total entries (SeekRead.ofBytes file maxRanges)) where
  d := rfl
  nlist := rfl
  metric := rfl
  totalVectors := h.total_eq
  quantizerCentroids := rfl
  lists i hi := by
    have hread := readInvertedLists_written h maxRanges hi
    rw [← IVFFlatIndexReader.readAlignedLists_eq bigEndian] at hread
    exact ⟨_, hread, rfl, sortedOrder (index.ids.getD i []), sortedOrder_stablySorted _, rfl,
      sortedVectors_length (h.vectors i hi), fun row hrow j hj =>
        sortedVectors_getElem? (h.vectors i hi) hrow hj⟩

/-- A written file does not depend on the size of the buffer it went through, and
it is opened, loaded and read as it was added, on either kind of host. -/
theorem write_ivfflat_index_reads_back (index : IVFFlatIndex) (bufferLimit maxRanges : Nat)
    (bigEndian : Bool) {file : List UInt8}
    (h : index.writeIvfflatIndexWithBufferLimit bufferLimit = .ok file) :
    (∀ other, index.writeIvfflatIndexWithBufferLimit other = .ok file) ∧
      ∃ reader : IVFFlatIndexReader F32,
        IVFFlatIndexReader.openReader (SeekRead.ofBytes file maxRanges) = .ok reader ∧
        ∃ loaded, reader.ensureLoaded = .ok loaded ∧ index.MatchedBy bigEndian loaded := by
  rw [writeIvfflatIndexWithBufferLimit_eq] at h
  obtain ⟨total, entries, hwritten⟩ := writtenAs_of_writeIvfflatIndex h
  refine ⟨fun other => ?_, _, openReader_written hwritten maxRanges, _,
    ensureLoaded_written hwritten maxRanges, matchedBy_written hwritten bigEndian maxRanges⟩
  rw [writeIvfflatIndexWithBufferLimit_eq, h]

/-- Three rows in the first list, two of them with one id, the second list empty.
The ids take 15 bytes, so the vectors are not aligned in the file. -/
def filled : IVFFlatIndex where
  d := 1
  nlist := 2
  metric := .l2
  quantizerCentroids := [F32.zero, F32.one]
  ids := [[5, -3, 5], []]
  vectors := [[F32.one, F32.zero, F32.infinity], []]

theorem write_ivfflat_index_reads_back_filled :
    ∃ file, filled.writeIvfflatIndexWithBufferLimit 3 = .ok file ∧
      filled.writeIvfflatIndexWithBufferLimit 0 = .ok file ∧ ∃ reader : IVFFlatIndexReader F32,
        IVFFlatIndexReader.openReader (SeekRead.ofBytes file 0) = .ok reader ∧
        ∃ loaded, reader.ensureLoaded = .ok loaded ∧ filled.MatchedBy false loaded := by
  have hlists : filled.ids.map sortedList = [⟨-3, [1, 0, 2], [0, 8, 0]⟩, ⟨0, [], []⟩] := by
    rw [← sortedList_tied]
    rfl
  have hok : filled.writeIvfflatIndex.isOk = true := by
    rw [writeIvfflatIndex]
    simp only [hlists]
    decide +kernel
  obtain ⟨file, hfile⟩ := exists_ok_of_isOk hok
  rw [← writeIvfflatIndexWithBufferLimit_eq filled 3] at hfile
  obtain ⟨hsame, hread⟩ := write_ivfflat_index_reads_back filled 3 0 false hfile
  exact ⟨file, hfile, hsame 0, hread⟩

end IVFFlatIndex

end PaimonVindex
