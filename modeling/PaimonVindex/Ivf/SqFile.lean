import PaimonVindex.Ivf.PqFile

/-! The IVF-SQ file: bounds of the scalar quantizers, then lists whose codes are
stored in blocks of 32 rows, each block column by column. -/

namespace PaimonVindex

open Checked

namespace F32

def negInfinity : F32 := ⟨0xFF800000⟩

/-- `f32::min`. -/
def minimum (x y : F32) : F32 := if x.isNan || (!y.isNan && decide (y.key < x.key)) then y else x

/-- `f32::max`. -/
def maximum (x y : F32) : F32 := if x.isNan || (!y.isNan && decide (x.key < y.key)) then y else x

end F32

namespace Sq

def magic : UInt32 := 0x49565351

def version : UInt32 := 1

def bits : UInt32 := 8

def requiredFlags : UInt32 := 3

def scanBlockSize : Nat := 32

end Sq

structure ScalarQuantizer (K : Type) where
  mins : List K
  maxs : List K
  deriving DecidableEq

def validateSqBounds (d : Nat) (mins maxs : List F32) : IoResult Unit := do
  rejectIf (mins.length ≠ d ∨ maxs.length ≠ d)
    (invalidData "IVF-SQ bounds length does not match dimension")
  match (mins.zip maxs).findIdx? fun bound =>
      !bound.1.isFinite || !bound.2.isFinite || bound.2.lt bound.1 with
  | some dimension => .error (invalidData s!"invalid IVF-SQ bounds at dimension {dimension}")
  | none => .ok ()

def sqGlobalBounds (mins maxs : List F32) : F32 × F32 :=
  let min := mins.foldl F32.minimum F32.infinity
  let max := maxs.foldl F32.maximum F32.negInfinity
  if min.isFinite ∧ max.isFinite then (min, max) else (F32.zero, F32.zero)

def sqListPayloadLen (count codeSize idBytesLen : Nat) : IoResult Nat :=
  okOr ((checkedAdd 12 idBytesLen).bind fun value =>
    (checkedMul count codeSize).bind (checkedAdd value ·)) (invalidData "IVF-SQ list size overflow")

/-- The stored byte of dimension `j` of sorted row `r`: blocks of `blockSize` rows,
the last one as long as it is, column by column. -/
def blockSortedSqCodes (rowMajor : List UInt8) (order : List Nat) (d blockSize : Nat) :
    List UInt8 :=
  (List.range ((order.length + blockSize - 1) / blockSize)).flatMap fun block =>
    let rows := (order.drop (block * blockSize)).take blockSize
    (List.range d).flatMap fun dimension =>
      rows.map fun sourceRow => rowMajor.getD (sourceRow * d + dimension) 0

structure IVFSQIndex where
  d : Nat
  nlist : Nat
  metric : MetricType
  quantizerCentroids : List F32
  sq : ScalarQuantizer F32
  listSqs : List (ScalarQuantizer F32)
  ids : List (List Int64)
  codes : List (List UInt8)

namespace IVFSQIndex

def sectionSize (a b : Nat) : IoResult Nat := checkedSectionSize "section size overflow" a b

def validateIndexShape (index : IVFSQIndex) : IoResult Unit := do
  rejectIf (index.d = 0 ∨ index.nlist = 0)
    (invalidInput "IVF-SQ dimension and nlist must be greater than zero")
  validateSqBounds index.d index.sq.mins index.sq.maxs
  rejectIf (index.listSqs.length ≠ index.nlist ∨ index.ids.length ≠ index.nlist ∨
      index.codes.length ≠ index.nlist)
    (invalidInput "IVF-SQ inverted-list state does not match nlist")
  let centroids ← sectionSize index.nlist index.d
  rejectIf (index.quantizerCentroids.length ≠ centroids)
    (invalidInput "IVF-SQ centroid storage does not match nlist * dimension")
  let _ ← (List.range index.nlist).mapM fun listId => do
    let sq := index.listSqs.getD listId ⟨[], []⟩
    validateSqBounds index.d sq.mins sq.maxs
    let expected ← checkedListBytes "list byte size overflow" (index.ids.getD listId []).length
      index.d
    rejectIf ((index.codes.getD listId []).length ≠ expected)
      (invalidInput s!"IVF-SQ code length mismatch at list {listId}")

def payload (index : IVFSQIndex) (list : SortedList) (codes : List UInt8) : List UInt8 :=
  if list.order = [] then []
  else blockSortedSqCodes codes list.order index.d Sq.scanBlockSize ++ list.idSection

def boundsBytes (sq : ScalarQuantizer F32) : List UInt8 :=
  f32SliceBytes sq.mins ++ f32SliceBytes sq.maxs

def payloadLen (index : IVFSQIndex) (list : SortedList) : IoResult Nat :=
  sqListPayloadLen list.order.length index.d list.idBytes.length

def writeIvfsqIndex (index : IVFSQIndex) : IoResult (List UInt8) := do
  index.validateIndexShape
  let total ← totalVectorCount index.ids
  let lists := index.ids.map sortedList
  let d ← usizeToI32 index.d "dimension"
  let nlist ← usizeToI32 index.nlist "nlist"
  let summary := sqGlobalBounds index.sq.mins index.sq.maxs
  let head := u32Bytes Sq.magic ++ u32Bytes Sq.version ++ i32Bytes d ++ i32Bytes nlist ++
    u32Bytes index.metric.code ++ i64Bytes total ++ u32Bytes Sq.bits ++ u32Bytes Sq.requiredFlags ++
    summary.1.toBytes ++ summary.2.toBytes ++ List.replicate 20 0
  let tables := boundsBytes index.sq ++ index.listSqs.flatMap boundsBytes ++
    f32SliceBytes index.quantizerCentroids
  let offsetTableSize ← okOr (checkedMul index.nlist 16)
    (invalidInput "IVF-SQ offset table size overflow")
  let dataStart ← okOr (checkedAdd (head ++ tables).length offsetTableSize)
    (invalidInput "IVF-SQ data offset overflow")
  let entries ← planEntries index.payloadLen (invalidInput "IVF-SQ list offset overflow") dataStart
    lists
  let payloads := (lists.zip index.codes).flatMap fun item => index.payload item.1 item.2
  return head ++ tables ++ entries.flatMap ListEntry.toBytes ++ payloads

end IVFSQIndex

structure IVFSQIndexReader (K : Type) where
  reader : SeekRead
  d : Nat
  nlist : Nat
  metric : MetricType
  totalVectors : Int64
  sq : ScalarQuantizer K
  listSqs : List (ScalarQuantizer K)
  quantizerCentroids : List K
  entries : List ListEntry

structure SqListData where
  listId : Nat
  ids : List Int64
  codes : List UInt8
  deriving DecidableEq

namespace Sq

def entryChecks : EntryChecks where
  before listId entry := do
    rejectIf (entry.count < 0 ∨ entry.idBytesLen < 0)
      (invalidData s!"negative IVF-SQ list metadata at list {listId}")
    rejectIf (0 < entry.count ∧ entry.idBytesLen = 0)
      (invalidData s!"missing delta ID bytes for non-empty IVF-SQ list {listId}")
  after _ _ := .ok ()
  overflow := invalidData "IVF-SQ vector count overflow"

/-- The next `count` values of the metadata, and what follows them. -/
def nextF32Section (count : Nat) (bytes : List UInt8) : IoResult (List F32 × List UInt8) := do
  let byteLen ← okOr (checkedMul count 4) (invalidData "IVF-SQ f32 size overflow")
  let values ← bytesToF32Vec (bytes.take byteLen)
  return (values, bytes.drop byteLen)

def readBounds (d : Nat) (bytes : List UInt8) : IoResult (ScalarQuantizer F32 × List UInt8) := do
  let (mins, bytes) ← nextF32Section d bytes
  let (maxs, bytes) ← nextF32Section d bytes
  validateSqBounds d mins maxs
  return (⟨mins, maxs⟩, bytes)

def readListBounds (d : Nat) : Nat → List UInt8 →
    IoResult (List (ScalarQuantizer F32) × List UInt8)
  | 0, bytes => .ok ([], bytes)
  | nlist + 1, bytes => do
    let (sq, bytes) ← readBounds d bytes
    let (sqs, bytes) ← readListBounds d nlist bytes
    return (sq :: sqs, bytes)

end Sq

namespace IVFSQIndexReader

variable {K : Type} [Scalar K]

def ofBounds (sq : ScalarQuantizer F32) : ScalarQuantizer K :=
  ⟨sq.mins.map Scalar.ofF32, sq.maxs.map Scalar.ofF32⟩

def metadataBytes (nlist d : Nat) : IoResult (Nat × Nat) := do
  let bounds ← IVFSQIndex.sectionSize (nlist + 1) d
  let boundsValues ← okOr (checkedMul bounds 2) (invalidData "IVF-SQ bounds size overflow")
  let boundsBytes ← okOr (checkedMul boundsValues 4)
    (invalidData "IVF-SQ bounds byte length overflow")
  let centroidValues ← IVFSQIndex.sectionSize nlist d
  let centroidBytes ← okOr (checkedMul centroidValues 4)
    (invalidData "IVF-SQ centroid byte length overflow")
  let offsetTableBytes ← okOr (checkedMul nlist 16)
    (invalidData "IVF-SQ offset table byte length overflow")
  let total ← okOr ((checkedAdd boundsBytes centroidBytes).bind (checkedAdd · offsetTableBytes))
    (invalidData "IVF-SQ metadata size overflow")
  return (centroidBytes, total)

def openWithHeader (reader : SeekRead) (header : List UInt8) : IoResult (IVFSQIndexReader K) := do
  let readU32 (offset : Nat) := u32OfBytes ((header.drop offset).take 4)
  let readI32 (offset : Nat) := i32OfBytes ((header.drop offset).take 4)
  let magicHex := hex8 (readU32 0)
  rejectIf (readU32 0 ≠ Sq.magic) (invalidData s!"Invalid IVF-SQ magic: 0x{magicHex}")
  let fileVersion := (readU32 4).toNat
  rejectIf (readU32 4 ≠ Sq.version) (invalidData s!"Unsupported IVF-SQ version: {fileVersion}")
  let d ← validatePositiveI32 (readI32 8) "d"
  let nlist ← validatePositiveI32 (readI32 12) "nlist"
  let metricCode := (readU32 16).toNat
  let metric ← okOr (MetricType.fromCode (readU32 16))
    (invalidData s!"Unknown metric type: {metricCode}")
  let totalVectors := i64OfBytes ((header.drop 20).take 8)
  rejectIf (totalVectors < 0) (invalidData "IVF-SQ total vector count must be non-negative")
  let bitWidth := (readU32 28).toNat
  rejectIf (readU32 28 ≠ Sq.bits) (invalidData s!"Unsupported IVF-SQ bit width: {bitWidth}")
  let flags := readU32 32
  validateReservedZero ((header.drop 44).take 20) "IVF-SQ"
  let unknownHex := hex8 (flags &&& ~~~Sq.requiredFlags)
  rejectIf (flags &&& ~~~Sq.requiredFlags ≠ 0)
    (invalidData s!"Unsupported IVF-SQ flags: 0x{unknownHex}")
  rejectIf (flags &&& Sq.requiredFlags ≠ Sq.requiredFlags)
    (invalidData "IVF-SQ v1 requires delta-varint IDs and 32-row blocked codes")
  let (centroidBytes, metadataLen) ← metadataBytes nlist d
  let metadata ← reader.pread 64 metadataLen
  let (sq, rest) ← Sq.readBounds d metadata
  let summary := sqGlobalBounds sq.mins sq.maxs
  rejectIf (summary.1 ≠ F32.ofBytes ((header.drop 36).take 4) ∨
      summary.2 ≠ F32.ofBytes ((header.drop 40).take 4))
    (invalidData "IVF-SQ bounds summary does not match global SQ bounds")
  let (listSqs, rest) ← Sq.readListBounds d nlist rest
  let centroids ← bytesToF32Vec (rest.take centroidBytes)
  let (entries, actualTotal) ← readOffsetTable Sq.entryChecks 0 0
    (Words.chunksExact 16 (rest.drop centroidBytes))
  checkVectorCount "IVF-SQ" totalVectors.toInt actualTotal
  return {
    reader, d, nlist, metric, totalVectors, entries
    sq := ofBounds sq
    listSqs := listSqs.map ofBounds
    quantizerCentroids := centroids.map Scalar.ofF32 }

def openReader (reader : SeekRead) : IoResult (IVFSQIndexReader K) := do
  openWithHeader reader (← reader.pread 0 64)

variable {σ : Type} (self : IVFSQIndexReader K)

def entry (listId : Nat) : ListEntry := self.entries.getD listId default

def planListRead (listId : Nat) : IoResult (Option ListRead) := do
  checkListId self.nlist listId
  let entry := self.entry listId
  if entry.rows = 0 then return none
  else do
    let payloadLen ← sqListPayloadLen entry.rows self.d entry.idBytes
    let offset ← checkedListOffset entry.offset listId
    return some ⟨listId, entry.rows, offset, entry.idBytes, payloadLen⟩

def decodeListPayload (d : Nat) (read : ListRead) (bytes : List UInt8) : IoResult SqListData := do
  let expected ← sqListPayloadLen read.count d read.idBytesLen
  rejectIf (bytes.length ≠ expected) ⟨.unexpectedEof, "IVF-SQ list payload length mismatch"⟩
  let codeBytes ← checkedListBytes "list byte size overflow" read.count d
  let idHeaderEnd ← okOr (checkedAdd codeBytes 12)
    (invalidData "IVF-SQ list ID header offset overflow")
  let baseId := i64OfBytes ((bytes.drop codeBytes).take 8)
  let storedIdBytesLen := i32OfBytes ((bytes.drop (codeBytes + 8)).take 4)
  rejectIf (storedIdBytesLen < 0 ∨ storedIdBytesLen.toInt.toNat ≠ read.idBytesLen)
    (invalidData "IVF-SQ list ID length does not match offset table")
  let ids ← decodeDeltaVarintIds baseId (bytes.drop idHeaderEnd) read.count
  return ⟨read.listId, ids, bytes.take codeBytes⟩

def readInvertedLists (listIds : List Nat) : IoResult (List SqListData) :=
  readPlannedLists self.reader self.planListRead (decodeListPayload self.d)
    (fun listId => ⟨listId, [], []⟩) (invalidData "missing batched IVF-SQ list read result") listIds

def listPayloadLen (listId : Nat) : IoResult Nat := do
  checkListId self.nlist listId
  let entry := self.entry listId
  if entry.rows = 0 then return 0
  else do
    sqListPayloadLen entry.rows self.d entry.idBytes

def batchReadEnd (listIds : List Nat) : IoResult Nat := do
  let payloadLengths ← listIds.mapM self.listPayloadLen
  boundedIvfPayloadBatchEnd payloadLengths self.reader.maxRangesPerPread

def readChunkCodes (listOffset rowStart rows : Nat) : IoResult (List UInt8) := do
  let chunkBytes ← okOr (checkedMul rows self.d) (invalidData "IVF-SQ chunk size overflow")
  let inside ← okOr (checkedMul rowStart self.d) (invalidData "IVF-SQ chunk offset overflow")
  let offset ← okOr (checkedAdd listOffset inside) (invalidData "IVF-SQ chunk offset overflow")
  self.reader.pread offset chunkBytes

def forEachStreamedListChunk (listId : Nat) (consume : List Int64 → List UInt8 → σ → IoResult σ)
    (state : σ) : IoResult σ := do
  let entry := self.entry listId
  let listOffset ← checkedListOffset entry.offset listId
  let codeBytes ← checkedListBytes "list byte size overflow" entry.rows self.d
  let idOffset ← okOr (checkedAdd listOffset codeBytes) (invalidData "IVF-SQ ID offset overflow")
  let ids ← readDeltaVarintIdsAt self.reader idOffset entry.rows entry.idBytes "IVF-SQ"
  let retainedIdBytes ← okOr (checkedMul ids.length 8)
    (invalidData "IVF-SQ decoded ID size overflow")
  streamRows (boundedIvfStreamChunkRows · self.d retainedIdBytes Sq.scanBlockSize)
    (fun rowStart rows state => do
      let codes ← self.readChunkCodes listOffset rowStart rows
      consume ((ids.drop rowStart).take rows) codes state) entry.rows 0 state

end IVFSQIndexReader

end PaimonVindex
