import PaimonVindex.Ivf.PqFile

/-! The IVF-FLAT file, its writer and its reader: a list is stored as its ids
followed by its vectors, row by row. -/

namespace PaimonVindex

open Checked

namespace Flat

def magic : UInt32 := 0x4956464C

def version : UInt32 := 1

def flagDeltaIds : UInt32 := 1

/-- The vectors at the end of a payload, aligned for single-precision values. -/
def checkPayloadShape (payloadLen vectorStart vectorLen : Nat) : IoResult Unit := do
  let vectorEnd ← okOr (checkedAdd vectorStart vectorLen)
    (invalidData "IVF-FLAT vector suffix overflow")
  rejectIf (vectorEnd ≠ payloadLen ∨ vectorLen % 4 ≠ 0)
    (invalidData "IVF-FLAT vector suffix has an invalid shape")
  let readStart := (4 - vectorStart % 4) % 4
  let _ ← okOr (checkedAdd readStart payloadLen) (invalidData "IVF-FLAT aligned payload overflow")

def entryChecks : EntryChecks where
  before listId entry :=
    let count := entry.count.toInt
    rejectIf (entry.count < 0) (invalidData s!"negative list count {count} at list {listId}")
  after listId entry := do
    let len := entry.idBytesLen.toInt
    rejectIf (entry.idBytesLen < 0) (invalidData s!"negative id_bytes_len {len} at list {listId}")
    rejectIf (0 < entry.count ∧ entry.idBytesLen = 0)
      (invalidData s!"missing delta ID bytes for non-empty IVF-FLAT list {listId}")
  overflow := invalidData "IVF-FLAT vector count overflow"

def varintRules : Varint.Rules IoError where
  truncated := invalidData "truncated varint"
  tooLong := invalidData "varint exceeds 64 bits"
  check shift byte :=
    rejectIf (shift = 63 ∧ 1 < byte.toNat &&& 0x7f) (invalidData "varint exceeds u64 range")

def decodeVarint (buf : List UInt8) (position : Nat) : IoResult (UInt64 × Nat) := do
  let (value, position) ← Varint.read varintRules buf 10 0 0 position
  return (UInt64.ofNat value, position)

def decodeIdDeltas (buf : List UInt8) :
    (count : Nat) → (current : UInt64) → (previous : Int64) → (position : Nat) →
      IoResult (List Int64 × Nat)
  | 0, _, _, position => .ok ([], position)
  | count + 1, current, previous, position => do
    let (delta, position) ← decodeVarint buf position
    let id := (current + delta).toInt64
    rejectIf (id < previous)
      (invalidData "decoded ID sequence is not monotonically non-decreasing")
    let (ids, position) ← decodeIdDeltas buf count (current + delta) id position
    return (id :: ids, position)

/-- Bytes behind the last difference are not looked at. -/
def decodeDeltaVarintIds (base : Int64) (buf : List UInt8) (count : Nat) :
    IoResult (List Int64) := do
  let (ids, _) ← decodeIdDeltas buf count base.toUInt64 base 0
  return ids

variable {buf : List UInt8}

theorem decodeVarint_eq_ok {position : Nat} {r : UInt64 × Nat} :
    decodeVarint buf position = .ok r ↔ readU64Varint buf position = .ok r := by
  have hbits : ∀ n : Fin 256, 1 < n.val &&& 0x7f ↔ n.val &&& 0x7e ≠ 0 := by decide +kernel
  have hcheck : ∀ shift byte, varintRules.check shift byte = .ok () ↔
      u64VarintRules.check shift byte = .ok () := by
    intro shift byte
    simp only [varintRules, u64VarintRules, rejectIf_eq_ok, hbits ⟨byte.toNat, byte.toNat_lt⟩]
  simp only [decodeVarint, readU64Varint, bind_eq_ok, Varint.read_eq_ok_congr hcheck]

theorem decodeIdDeltas_eq_ok {count : Nat} {current : UInt64} {previous : Int64} {position : Nat}
    {r : List Int64 × Nat} :
    decodeIdDeltas buf count current previous position = .ok r ↔
      PaimonVindex.decodeIdDeltas buf count current previous position = .ok r := by
  induction count generalizing current previous position r with
  | zero => rfl
  | succ count ih =>
    simp only [decodeIdDeltas, PaimonVindex.decodeIdDeltas, bind_eq_ok, decodeVarint_eq_ok, ih]

theorem decodeDeltaVarintIds_eq_ok {base : Int64} {count : Nat} {ids : List Int64} :
    decodeDeltaVarintIds base buf count = .ok ids ↔
      ∃ last, PaimonVindex.decodeIdDeltas buf count base.toUInt64 base 0 = .ok (ids, last) := by
  simp only [decodeDeltaVarintIds, accepted, decodeIdDeltas_eq_ok]
  constructor
  · rintro ⟨⟨_, last⟩, h, rfl⟩
    exact ⟨last, h⟩
  · rintro ⟨last, h⟩
    exact ⟨_, h, rfl⟩

end Flat

structure IVFFlatIndex where
  d : Nat
  nlist : Nat
  metric : MetricType
  quantizerCentroids : List F32
  ids : List (List Int64)
  vectors : List (List F32)

namespace IVFFlatIndex

def validateIndexShape (index : IVFFlatIndex) : IoResult Unit := do
  rejectIf (index.d = 0) (invalidInput "dimension must be greater than 0")
  rejectIf (index.nlist = 0) (invalidInput "nlist must be greater than 0")
  rejectIf (index.ids.length ≠ index.nlist ∨ index.vectors.length ≠ index.nlist)
    (invalidInput "IVF-FLAT list storage does not match nlist")
  let centroidLen ← checkedSectionSize "section size overflow in IVF-FLAT header"
    index.nlist index.d
  let centroids := index.quantizerCentroids.length
  rejectIf (index.quantizerCentroids.length ≠ centroidLen)
    (invalidInput s!"centroid length {centroids} does not match nlist*d {centroidLen}")
  let _ ← (List.range index.nlist).mapM fun listId => do
    let expected ← okOr (checkedMul (index.ids.getD listId []).length index.d)
      (invalidInput "IVF-FLAT vector length overflow")
    let len := (index.vectors.getD listId []).length
    rejectIf ((index.vectors.getD listId []).length ≠ expected)
      (invalidInput s!"list {listId} vector length {len} does not match ids*d {expected}")

def sortedVectors (vectors : List F32) (order : List Nat) (d : Nat) : List F32 :=
  order.flatMap fun row => (vectors.drop (row * d)).take d

def payload (index : IVFFlatIndex) (list : SortedList) (vectors : List F32) : List UInt8 :=
  if list.order = [] then []
  else list.idSection ++ f32SliceBytes (sortedVectors vectors list.order index.d)

def payloadLen (bytesPerVector : Nat) (list : SortedList) : IoResult Nat := do
  let vectorBytes ← checkedListBytes "IVF-FLAT list byte size overflow" list.order.length
    bytesPerVector
  okOr ((checkedAdd 12 list.idBytes.length).bind (checkedAdd · vectorBytes))
    (invalidInput "IVF-FLAT list size overflow")

def writeIvfflatIndex (index : IVFFlatIndex) : IoResult (List UInt8) := do
  index.validateIndexShape
  let bytesPerVector ← okOr (checkedMul index.d 4)
    (invalidInput "IVF-FLAT bytes per vector overflow")
  let d ← usizeToI32 index.d "dimension"
  let nlist ← usizeToI32 index.nlist "nlist"
  let total ← totalVectorCount index.ids
  let lists := index.ids.map sortedList
  let head := u32Bytes Flat.magic ++ u32Bytes Flat.version ++ i32Bytes d ++ i32Bytes nlist ++
    u32Bytes index.metric.code ++ i64Bytes total ++ u32Bytes Flat.flagDeltaIds ++
    List.replicate 32 0
  let tables := f32SliceBytes index.quantizerCentroids
  let offsetTableSize ← okOr (checkedMul index.nlist 16)
    (invalidInput "IVF-FLAT offset table size overflow")
  let dataStart ← okOr (checkedAdd (head ++ tables).length offsetTableSize)
    (invalidInput "IVF-FLAT data start offset overflow")
  let entries ← planEntries (payloadLen bytesPerVector) (invalidInput "IVF-FLAT offset overflow")
    dataStart lists
  let payloads := (lists.zip index.vectors).flatMap fun item => index.payload item.1 item.2
  return head ++ tables ++ entries.flatMap ListEntry.toBytes ++ payloads

end IVFFlatIndex

structure IVFFlatIndexReader (K : Type) where
  reader : SeekRead
  d : Nat
  nlist : Nat
  metric : MetricType
  totalVectors : Int64
  quantizerCentroids : List K
  entries : List ListEntry
  loaded : Bool

structure FlatListData (K : Type) where
  listId : Nat
  ids : List Int64
  vectors : List K

namespace IVFFlatIndexReader

variable {K : Type} [Scalar K]

def openWithHeader (reader : SeekRead) (header : List UInt8) :
    IoResult (IVFFlatIndexReader K) := do
  let readU32 (offset : Nat) := u32OfBytes ((header.drop offset).take 4)
  let readI32 (offset : Nat) := i32OfBytes ((header.drop offset).take 4)
  let magicHex := hex8 (readU32 0)
  rejectIf (readU32 0 ≠ Flat.magic) (invalidData s!"Invalid IVFFLAT magic: 0x{magicHex}")
  let fileVersion := (readU32 4).toNat
  rejectIf (readU32 4 ≠ Flat.version) (invalidData s!"Unsupported IVFFLAT version: {fileVersion}")
  let d ← validatePositiveI32 (readI32 8) "d"
  let nlist ← validatePositiveI32 (readI32 12) "nlist"
  let metricCode := (readU32 16).toNat
  let metric ← okOr (MetricType.fromCode (readU32 16))
    (invalidData s!"Unknown metric type: {metricCode}")
  let totalVectors := i64OfBytes ((header.drop 20).take 8)
  let flags := readU32 28
  validateReservedZero ((header.drop 32).take 32) "IVFFLAT"
  let unknownHex := hex8 (flags &&& ~~~Flat.flagDeltaIds)
  rejectIf (flags &&& ~~~Flat.flagDeltaIds ≠ 0)
    (invalidData s!"Unsupported IVFFLAT flags: 0x{unknownHex}")
  rejectIf (flags &&& Flat.flagDeltaIds ≠ Flat.flagDeltaIds)
    (invalidData "IVFFLAT v1 requires delta IDs")
  return {
    reader, d, nlist, metric, totalVectors
    quantizerCentroids := []
    entries := []
    loaded := false }

def openReader (reader : SeekRead) : IoResult (IVFFlatIndexReader K) := do
  openWithHeader reader (← reader.pread 0 64)

variable {σ : Type} (self : IVFFlatIndexReader K)

def ensureLoaded : IoResult (IVFFlatIndexReader K) :=
  if self.loaded then .ok self
  else do
    let centroidCount ← checkedSectionSize "section size overflow in IVF-FLAT header"
      self.nlist self.d
    let centroidBytes ← okOr (checkedMul centroidCount 4)
      (invalidData "IVF-FLAT centroid bytes overflow")
    let tableBytes ← okOr (checkedMul self.nlist 16) (invalidData "IVF-FLAT offset table overflow")
    let metadataBytes ← okOr (checkedAdd centroidBytes tableBytes)
      (invalidData "IVF-FLAT metadata size overflow")
    let metadata ← self.reader.pread 64 metadataBytes
    let centroids ← bytesToF32Vec (metadata.take centroidBytes)
    let (entries, actualTotal) ← readOffsetTable Flat.entryChecks 0 0
      (Words.chunksExact 16 (metadata.drop centroidBytes))
    checkVectorCount "IVF-FLAT" self.totalVectors.toInt actualTotal
    return { self with
      quantizerCentroids := centroids.map Scalar.ofF32
      entries := entries
      loaded := true }

def entry (listId : Nat) : ListEntry :=
  self.entries.getD listId default

def planListRead (listId : Nat) : IoResult (Option ListRead) := do
  checkListId self.nlist listId
  let entry := self.entry listId
  if entry.rows = 0 then return none
  else do
    let offset ← checkedListOffset entry.offset listId
    let vectorBytes ← checkedListBytes "IVF-FLAT list byte size overflow" entry.rows
      (self.d * 4)
    let payloadLen ← okOr ((checkedAdd 12 entry.idBytes).bind (checkedAdd · vectorBytes))
      (invalidData "IVF-FLAT list payload overflow")
    Flat.checkPayloadShape payloadLen (12 + entry.idBytes) vectorBytes
    return some ⟨listId, entry.rows, offset, entry.idBytes, payloadLen⟩

def vectorsOfBytes (bytes : List UInt8) : List K :=
  (Words.chunksExact 4 bytes).map fun value => Scalar.ofF32 (F32.ofBytes value)

def decodeListPayload (read : ListRead) (bytes : List UInt8) : IoResult (FlatListData K) := do
  let baseId := i64OfBytes (bytes.take 8)
  let encodedLen := i32OfBytes ((bytes.drop 8).take 4)
  rejectIf (encodedLen < 0 ∨ encodedLen.toInt.toNat ≠ read.idBytesLen)
    (invalidData "IVF-FLAT id_bytes_len mismatch")
  let ids ← Flat.decodeDeltaVarintIds baseId ((bytes.drop 12).take read.idBytesLen) read.count
  return ⟨read.listId, ids, vectorsOfBytes (bytes.drop (12 + read.idBytesLen))⟩

def readInvertedLists (listIds : List Nat) : IoResult (List (FlatListData K)) := do
  let self ← self.ensureLoaded
  readPlannedLists self.reader self.planListRead decodeListPayload (fun listId => ⟨listId, [], []⟩)
    (invalidData "missing batched IVF-FLAT list read result") listIds

def listPayloadLen (listId : Nat) : IoResult Nat := do
  checkListId self.nlist listId
  let entry := self.entry listId
  if entry.rows = 0 then return 0
  else do
    okOr ((checkedAdd 12 entry.idBytes).bind fun len =>
        ((checkedMul self.d 4).bind (checkedMul entry.rows ·)).bind (checkedAdd len ·))
      (invalidData "IVF-FLAT list payload overflow")

def batchReadEnd (listIds : List Nat) : IoResult Nat := do
  let payloadLengths ← listIds.mapM self.listPayloadLen
  boundedIvfPayloadBatchEnd payloadLengths self.reader.maxRangesPerPread

def readChunk (rowBytes vectorOffset rowStart rows : Nat) : IoResult (List K) := do
  let vectorBytes ← okOr (checkedMul rows rowBytes) (invalidData "IVF-FLAT chunk size overflow")
  Flat.checkPayloadShape vectorBytes 0 vectorBytes
  let inside ← okOr (checkedMul rowStart rowBytes) (invalidData "IVF-FLAT chunk offset overflow")
  let offset ← okOr (checkedAdd vectorOffset inside) (invalidData "IVF-FLAT chunk offset overflow")
  let bytes ← self.reader.pread offset vectorBytes
  return vectorsOfBytes bytes

def forEachStreamedListChunk (listId : Nat) (consume : List Int64 → List K → σ → IoResult σ)
    (state : σ) : IoResult σ := do
  let self ← self.ensureLoaded
  let entry := self.entry listId
  let listOffset ← checkedListOffset entry.offset listId
  let ids ← readDeltaVarintIdsAt self.reader listOffset entry.rows entry.idBytes "IVF-FLAT"
  let rowBytes ← okOr (checkedMul self.d 4) (invalidData "IVF-FLAT row size overflow")
  let vectorOffset ← okOr (checkedAdd listOffset (12 + entry.idBytes))
    (invalidData "IVF-FLAT vector offset overflow")
  let retainedIdBytes ← okOr (checkedMul ids.length 8)
    (invalidData "IVF-FLAT decoded ID size overflow")
  streamRows (boundedIvfStreamChunkRows · rowBytes retainedIdBytes 1)
    (fun rowStart rows state => do
      let vectors ← self.readChunk rowBytes vectorOffset rowStart rows
      consume ((ids.drop rowStart).take rows) vectors state) entry.rows 0 state

end IVFFlatIndexReader

end PaimonVindex
