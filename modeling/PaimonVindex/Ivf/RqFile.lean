import PaimonVindex.Ivf.PqFile
import PaimonVindex.Lib.Blocks

/-! The IVF-RQ file: lists whose bit planes are stored in blocks of 32 rows, byte
by byte, and whose factors follow in blocks of the same rows, field by field. -/

namespace PaimonVindex

open Checked

def rqScanBlockSize : Nat := 32

namespace Rq

def magic : UInt32 := 0x49565251

def version : UInt32 := 1

def headerSize : Nat := 64

def rotationTypeBlockFht : UInt32 := 2

def factorLayoutCompactV1 : UInt32 := 3

/-- Delta ids, block-transposed codes and factors by field. -/
def requiredFlags : UInt32 := 1 ||| 2 ||| 4

def supportedFlags : UInt32 := requiredFlags

def factorBytes : Nat := 4

def defaultRotationRounds : UInt32 := 4

def rotationBlockSize : Nat := 64

def paddedDimension (d : Nat) : Nat :=
  (max d 1 + rotationBlockSize - 1) / rotationBlockSize * rotationBlockSize

def isSupportedRqBits (bits : Nat) : Bool := 1 ≤ bits ∧ bits ≤ 8

section Checks

def usizeToI32 (value : Nat) (field : String) : IoResult Int32 :=
  tryFrom 31 Int32.ofNat s!"{field} exceeds i32" value

/-- `usize_to_i64` and `u64_to_i64`, which report the same. -/
def toI64 (value : Nat) (field : String) : IoResult Int64 :=
  tryFrom 63 Int64.ofNat s!"{field} exceeds i64" value

def validatePositiveI32 (value : Int32) (field : String) : IoResult Nat := do
  let shown := value.toInt
  rejectIf (value ≤ 0) (invalidData s!"invalid IVF-RQ {field}: {shown}; expected positive")
  return value.toInt.toNat

def validateNonNegativeI32 (value : Int32) (field : String) : IoResult Int32 := do
  let shown := value.toInt
  rejectIf (value < 0) (invalidData s!"invalid IVF-RQ {field}: {shown}; expected non-negative")
  return value

def sectionSize (left right : Nat) : IoResult Nat :=
  okOr ((checkedMul left right).filter (· ≤ 2 ^ 30)) (invalidData "IVF-RQ section size overflow")

def listBytes (count bytesPerEntry : Nat) : IoResult Nat :=
  checkedListBytes "IVF-RQ list byte size overflow" count bytesPerEntry

def checkedListOffset (offset : Int64) (listId : Nat) : IoResult Nat := do
  let shown := offset.toInt
  rejectIf (offset < 0) (invalidData s!"negative IVF-RQ list offset {shown} for list {listId}")
  return offset.toInt.toNat

def bytesToF32Vec (bytes : List UInt8) : IoResult (List F32) := do
  rejectIf (bytes.length % 4 ≠ 0) (invalidData "IVF-RQ f32 section is not aligned")
  return (Words.chunksExact 4 bytes).map F32.ofBytes

end Checks

end Rq

/-- The shape of the codes. -/
structure RaBitQuantizer where
  d : Nat
  paddedD : Nat
  bits : Nat
  planeSize : Nat
  deriving DecidableEq

namespace RaBitQuantizer

def new (d bits : Nat) : RaBitQuantizer :=
  ⟨d, Rq.paddedDimension d, bits, Rq.paddedDimension d / 8⟩

def codeSize (quantizer : RaBitQuantizer) : Nat := quantizer.planeSize * quantizer.bits

def factorFields (quantizer : RaBitQuantizer) : Nat := if quantizer.bits = 1 then 2 else 5

end RaBitQuantizer

structure RQCodeFactors (K : Type) where
  fAdd : K
  fRescale : K
  fError : K
  deriving DecidableEq

structure RQVectorFactors (K : Type) where
  coarse : RQCodeFactors K
  full : RQCodeFactors K
  deriving DecidableEq

instance : Zero F32 := ⟨F32.zero⟩

section Blocked

variable {K : Type}

def indexFactorsFields (bits : Nat) : Nat := if bits = 1 then 2 else 5

/-- The fields of the full code are only asked for when there is more than one bit. -/
def factorValue (factors : RQVectorFactors K) : (field : Nat) → K
  | 0 => factors.coarse.fAdd
  | 1 => factors.coarse.fRescale
  | 2 => factors.coarse.fError
  | 3 => factors.full.fAdd
  | _ => factors.full.fRescale

def blockCodes (bits : Nat) (quantizer : RaBitQuantizer) (codes : List UInt8) (order : List Nat) :
    List UInt8 :=
  (Rows.chunks rqScanBlockSize order).flatMap fun block =>
    (List.range bits).flatMap fun plane =>
      (List.range quantizer.planeSize).flatMap fun byteIdx =>
        block.map fun position =>
          codes.getD (position * quantizer.codeSize + plane * quantizer.planeSize + byteIdx) 0

def blockFactors [Zero K] (bits : Nat) (factors : List (RQVectorFactors K))
    (order : List Nat) : List K :=
  (Rows.chunks rqScanBlockSize order).flatMap fun block =>
    (List.range (indexFactorsFields bits)).flatMap fun field =>
      block.map fun position =>
        factorValue (factors.getD position ⟨⟨0, 0, 0⟩, ⟨0, 0, 0⟩⟩) field

end Blocked

/-- The quantizer is made from the dimension and the bits of a new index; both are
public and may be changed beside it. -/
structure IVFRQIndex where
  d : Nat
  paddedD : Nat
  nlist : Nat
  bits : Nat
  metric : MetricType
  quantizerCentroids : List F32
  rotatedCentroids : List F32
  rotationSeed : UInt64
  rotationRounds : UInt32
  ids : List (List Int64)
  codes : List (List UInt8)
  factors : List (List (RQVectorFactors F32))
  quantizer : RaBitQuantizer

namespace IVFRQIndex

variable (index : IVFRQIndex)

def validateIndexShape : IoResult Unit := do
  rejectIf (index.d = 0 ∨ index.nlist = 0)
    (invalidInput "IVF-RQ dimension and nlist must be positive")
  rejectIf (¬Rq.isSupportedRqBits index.bits) (invalidInput "IVF-RQ bits must be in 1..=8")
  rejectIf (index.paddedD ≠ Rq.paddedDimension index.d)
    (invalidInput "IVF-RQ padded dimension mismatch")
  let rounds := Rq.defaultRotationRounds.toNat
  rejectIf (index.rotationRounds ≠ Rq.defaultRotationRounds)
    (invalidInput s!"IVF-RQ rotation rounds must be {rounds}")
  let centroids ← Rq.sectionSize index.nlist index.d
  rejectIf (index.quantizerCentroids.length ≠ centroids)
    (invalidInput "IVF-RQ centroid storage shape mismatch")
  let rotated ← Rq.sectionSize index.nlist index.paddedD
  rejectIf (index.rotatedCentroids.length ≠ rotated)
    (invalidInput "IVF-RQ centroid storage shape mismatch")
  rejectIf (index.ids.length ≠ index.nlist ∨ index.codes.length ≠ index.nlist ∨
      index.factors.length ≠ index.nlist)
    (invalidInput "IVF-RQ list storage does not match nlist")
  let _ ← (List.range index.nlist).mapM fun listId => do
    let count := (index.ids.getD listId []).length
    let expected ← Rq.listBytes count index.quantizer.codeSize
    rejectIf ((index.codes.getD listId []).length ≠ expected)
      (invalidInput s!"IVF-RQ list {listId} code length mismatch")
    rejectIf ((index.factors.getD listId []).length ≠ count)
      (invalidInput s!"IVF-RQ list {listId} factor count mismatch")

def totalVectors : IoResult Int64 :=
  index.ids.foldlM (fun sum list => do
    let count ← Rq.toI64 list.length "total vector count"
    rejectIf (2 ^ 63 - 1 < sum.toInt + count.toInt) (invalidInput "total vector count exceeds i64")
    return sum + count) 0

def listLen (list : SortedList) : IoResult Nat := do
  let codeBytes ← Rq.listBytes list.order.length index.quantizer.codeSize
  let factorValues ← Rq.listBytes list.order.length (indexFactorsFields index.bits)
  let factorBytes ← Rq.listBytes factorValues Rq.factorBytes
  okOr (((checkedAdd 16 list.idBytes.length).bind (checkedAdd · codeBytes)).bind
    (checkedAdd · factorBytes)) (invalidInput "IVF-RQ list size overflow")

def payload (listId : Nat) (list : SortedList) : IoResult (List UInt8) :=
  if list.order = [] then .ok []
  else do
    -- an index with more bits than its quantizer reads beyond the codes of its last row
    rejectIf (index.quantizer.codeSize < index.bits * index.quantizer.planeSize)
      (panicked "index out of bounds")
    let blockedCodes := blockCodes index.bits index.quantizer (index.codes.getD listId [])
      list.order
    let blockedFactors := blockFactors index.bits (index.factors.getD listId []) list.order
    let idBytesLen ← Rq.usizeToI32 list.idBytes.length "delta ID bytes"
    let codeBytesLen ← Rq.usizeToI32 blockedCodes.length "blocked code bytes"
    return i64Bytes list.baseId ++ i32Bytes idBytesLen ++ i32Bytes codeBytesLen ++ list.idBytes ++
      blockedCodes ++ f32SliceBytes blockedFactors

end IVFRQIndex

structure RQReadList (K : Type) where
  listId : Nat
  ids : List Int64
  /-- The part of the payload that `blocked_codes` returns. -/
  codes : List UInt8
  blockedFactors : List K

namespace RQReadList

variable {K : Type}

/-- Where the scans look for a byte of a plane: the rows of the block are `lanes`. -/
def codeAddress (quantizer : RaBitQuantizer) (blockStart lanes plane byteIdx lane : Nat) : Nat :=
  blockStart * quantizer.codeSize + plane * quantizer.planeSize * lanes + byteIdx * lanes + lane

/-- The rows of the block at `blockStart` that a scan up to `scanEnd` takes. -/
def blockLanes (scanEnd blockStart : Nat) : Nat := min (scanEnd - blockStart) rqScanBlockSize

def readBlockFactor [Zero K] (list : RQReadList K) (blockStart lanes firstField lane : Nat)
    (hasError : Bool) : Option (RQCodeFactors K) := do
  let fAdd ← list.blockedFactors[blockStart + firstField * lanes + lane]?
  let fRescale ← list.blockedFactors[blockStart + (firstField + 1) * lanes + lane]?
  let fError ← (if hasError then list.blockedFactors[blockStart + (firstField + 2) * lanes + lane]?
    else some 0 : Option K)
  return ⟨fAdd, fRescale, fError⟩

end RQReadList

/-- What a reader of the file holds, apart from what the search adds to it. -/
structure IVFRQFileReader (K : Type) where
  reader : SeekRead
  d : Nat
  paddedD : Nat
  nlist : Nat
  metric : MetricType
  totalVectors : Int64
  rotationSeed : UInt64
  rotationRounds : UInt32
  planeSize : Nat
  numBits : Nat
  rotationType : UInt32
  factorLayout : UInt32
  quantizerCentroids : List K
  entries : List ListEntry
  loaded : Bool

namespace IVFRQFileReader

variable {K : Type}

def openWithHeader (reader : SeekRead) (header : List UInt8) : IoResult (IVFRQFileReader K) := do
  let readU32 (offset : Nat) := u32OfBytes ((header.drop offset).take 4)
  let readI32 (offset : Nat) := i32OfBytes ((header.drop offset).take 4)
  let magicHex := hex8 (readU32 0)
  rejectIf (readU32 0 ≠ Rq.magic) (invalidData s!"invalid IVF-RQ magic: 0x{magicHex}")
  let fileVersion := (readU32 4).toNat
  rejectIf (readU32 4 ≠ Rq.version) (invalidData s!"unsupported IVF-RQ version: {fileVersion}")
  let d ← Rq.validatePositiveI32 (readI32 8) "dimension"
  let paddedD ← Rq.validatePositiveI32 (readI32 12) "padded_dimension"
  let derived := Rq.paddedDimension d
  rejectIf (paddedD ≠ Rq.paddedDimension d) (invalidData
    s!"IVF-RQ padded_dimension {paddedD} does not match dimension-derived {derived}")
  let nlist ← Rq.validatePositiveI32 (readI32 16) "nlist"
  let metricCode := (readU32 20).toNat
  let metric ← okOr (MetricType.fromCode (readU32 20))
    (invalidData s!"unknown metric type: {metricCode}")
  let flags := readU32 24
  let numBits := (readU32 28).toNat
  let totalVectors := i64OfBytes ((header.drop 32).take 8)
  let rotationSeed := u64OfBytes ((header.drop 40).take 8)
  let rotationRounds := readU32 48
  let planeSize ← Rq.validatePositiveI32 (readI32 52) "plane_size"
  let rotationType := readU32 56
  let factorLayout := readU32 60
  rejectIf (totalVectors < 0) (invalidData "negative IVF-RQ vector count")
  rejectIf (planeSize ≠ paddedD / 8) (invalidData
    s!"IVF-RQ plane size {planeSize} does not match padded dimension {paddedD}")
  rejectIf (¬Rq.isSupportedRqBits numBits)
    (invalidData s!"unsupported IVF-RQ bits {numBits}; expected 1..=8")
  let fileRounds := rotationRounds.toNat
  let rounds := Rq.defaultRotationRounds.toNat
  rejectIf (rotationRounds ≠ Rq.defaultRotationRounds) (invalidData
    s!"unsupported IVF-RQ rotation rounds {fileRounds}; expected {rounds}")
  let fileRotation := rotationType.toNat
  rejectIf (rotationType ≠ Rq.rotationTypeBlockFht)
    (invalidData s!"unsupported IVF-RQ rotation type {fileRotation}")
  let fileLayout := factorLayout.toNat
  rejectIf (factorLayout ≠ Rq.factorLayoutCompactV1)
    (invalidData s!"unsupported IVF-RQ factor layout {fileLayout}")
  let flagsHex := hex8 flags
  rejectIf (flags &&& ~~~Rq.supportedFlags ≠ 0 ∨ flags &&& Rq.requiredFlags ≠ Rq.requiredFlags)
    (invalidData s!"unsupported IVF-RQ flags 0x{flagsHex}")
  return {
    reader, d, paddedD, nlist, metric, totalVectors, rotationSeed, rotationRounds, planeSize
    numBits, rotationType, factorLayout
    quantizerCentroids := []
    entries := []
    loaded := false }

def openReader (reader : SeekRead) : IoResult (IVFRQFileReader K) := do
  openWithHeader reader (← reader.pread 0 Rq.headerSize)

section

variable (self : IVFRQFileReader K)

def quantizer : RaBitQuantizer :=
  RaBitQuantizer.new self.d self.numBits

def readEntry (bytes : List UInt8) : IoResult ListEntry := do
  let entry := ListEntry.ofBytes bytes
  let count ← Rq.validateNonNegativeI32 entry.count "list count"
  let idBytesLen ← Rq.validateNonNegativeI32 entry.idBytesLen "delta ID bytes"
  return ⟨entry.offset, count, idBytesLen⟩

def entry (listId : Nat) : ListEntry := self.entries.getD listId default

def listPayloadMeta (listId : Nat) : IoResult (Option ListRead) := do
  let nlist := self.nlist
  rejectIf (self.nlist ≤ listId)
    (invalidInput s!"list ID {listId} out of range for nlist={nlist}")
  let entry := self.entry listId
  if entry.rows = 0 then return none
  else do
    let codeBytesLen ← Rq.listBytes entry.rows self.quantizer.codeSize
    let factorValuesLen ← Rq.listBytes entry.rows self.quantizer.factorFields
    let payloadLen ← okOr (((checkedAdd 16 entry.idBytes).bind (checkedAdd · codeBytesLen)).bind
      (checkedAdd · (factorValuesLen * Rq.factorBytes)))
      (invalidData "IVF-RQ list payload overflow")
    let offset ← Rq.checkedListOffset entry.offset listId
    return some ⟨listId, entry.rows, offset, entry.idBytes, payloadLen⟩

end

variable [Scalar K] (self : IVFRQFileReader K)

def ensureLoaded : IoResult (IVFRQFileReader K) :=
  if self.loaded then .ok self
  else do
    let centroidValues ← Rq.sectionSize self.nlist self.d
    let centroidBytes ← Rq.listBytes centroidValues Rq.factorBytes
    let offsetTableBytes ← Rq.listBytes self.nlist 16
    let metadataBytes ← okOr (checkedAdd centroidBytes offsetTableBytes)
      (invalidData "IVF-RQ resident metadata size overflow")
    let metadata ← self.reader.pread Rq.headerSize metadataBytes
    let centroids ← Rq.bytesToF32Vec (metadata.take centroidBytes)
    let entries ← (Words.chunksExact 16 (metadata.drop centroidBytes)).mapM readEntry
    let actualTotal := (entries.map (·.count.toInt)).sum
    let headerTotal := self.totalVectors.toInt
    rejectIf (actualTotal ≠ self.totalVectors.toInt) (invalidData
      s!"IVF-RQ list counts total {actualTotal} does not match header {headerTotal}")
    return { self with
      quantizerCentroids := centroids.map Scalar.ofF32
      entries := entries
      loaded := true }

/-- The lengths of the codes and of the factors follow from the number of rows. -/
def decodeInvertedListPayload (read : ListRead) (payload : List UInt8) :
    IoResult (RQReadList K) := do
  let listId := read.listId
  let codeBytesLen := read.count * self.quantizer.codeSize
  let factorValuesLen := read.count * self.quantizer.factorFields
  rejectIf (payload.length ≠ read.payloadLen)
    (invalidData s!"IVF-RQ list {listId} payload length mismatch")
  let baseId := i64OfBytes (payload.take 8)
  let storedIdBytesLen := i32OfBytes ((payload.drop 8).take 4)
  let storedCodeBytesLen := i32OfBytes ((payload.drop 12).take 4)
  rejectIf (storedIdBytesLen < 0 ∨ storedIdBytesLen.toInt.toNat ≠ read.idBytesLen)
    (invalidData "IVF-RQ delta ID length mismatch")
  rejectIf (storedCodeBytesLen < 0 ∨ storedCodeBytesLen.toInt.toNat ≠ codeBytesLen)
    (invalidData "IVF-RQ code length mismatch")
  let ids ← decodeDeltaVarintIds baseId ((payload.drop 16).take read.idBytesLen) read.count
  let codeStart := 16 + read.idBytesLen
  let factorStart := codeStart + codeBytesLen
  let factors ← Rq.bytesToF32Vec (payload.drop factorStart)
  rejectIf (factors.length ≠ factorValuesLen) (invalidData "IVF-RQ factor count mismatch")
  return ⟨listId, ids, (payload.drop codeStart).take codeBytesLen, factors.map Scalar.ofF32⟩

def readInvertedLists (listIds : List Nat) : IoResult (List (RQReadList K)) := do
  let self ← self.ensureLoaded
  readPlannedLists self.reader self.listPayloadMeta self.decodeInvertedListPayload
    (fun listId => ⟨listId, [], [], []⟩) (invalidData "missing IVF-RQ list result") listIds

end IVFRQFileReader

end PaimonVindex
