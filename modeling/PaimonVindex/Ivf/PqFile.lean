import PaimonVindex.Ivf.Lists
import PaimonVindex.Scalar

/-! The IVF-PQ file: its writer, and a reader that opens the header, loads the
tables on demand and reads inverted lists at once or in chunks. -/

namespace PaimonVindex

open Checked

def hexDigit (n : Nat) : Char := "0123456789ABCDEF".toList.getD n '0'

/-- Eight hexadecimal digits, as `{:08X}` prints them. -/
def hex8 (x : UInt32) : String :=
  String.ofList ((List.range 8).map fun i => hexDigit (x.toNat / 16 ^ (7 - i) % 16))

def magic : UInt32 := 0x49565051

def version : UInt32 := 1

def headerSize : Nat := 64

def flagHasOpq : UInt32 := 1

def flagByResidual : UInt32 := 2

def flagDeltaIds : UInt32 := 4

def flagTransposedCodes : UInt32 := 8

def requiredFlags : UInt32 := flagDeltaIds ||| flagTransposedCodes

def supportedFlags : UInt32 := flagHasOpq ||| flagByResidual ||| requiredFlags

structure ProductQuantizer (K : Type) where
  d : Nat
  m : Nat
  nbits : Nat
  centroids : List K

namespace ProductQuantizer

variable {K : Type}

def ksub (pq : ProductQuantizer K) : Nat := 2 ^ pq.nbits

def dsub (pq : ProductQuantizer K) : Nat := pq.d / pq.m

def codeSize (pq : ProductQuantizer K) : Nat :=
  if pq.nbits = 4 then (pq.m + 1) / 2 else pq.m

end ProductQuantizer

structure IVFPQIndex where
  d : Nat
  nlist : Nat
  metric : MetricType
  byResidual : Bool
  quantizerCentroids : List F32
  pq : ProductQuantizer F32
  rotation : Option (List F32)
  ids : List (List Int64)
  codes : List (List UInt8)
  d_pos : 0 < d
  nlist_pos : 0 < nlist
  pq_d : pq.d = d
  m_dvd : pq.m ∣ d
  nbits_eq : pq.nbits = 4 ∨ pq.nbits = 8
  centroids_length : quantizerCentroids.length = nlist * d
  pq_centroids_length : pq.centroids.length = d * pq.ksub
  rotation_length : ∀ r, rotation = some r → r.length = d * d
  ids_length : ids.length = nlist
  codes_length : codes.length = nlist

/-- The stored byte of column `c` of sorted row `r` is at `c * count + r`; both
indices run through tiles of 32. -/
def transposeSortedPqCodes (codes : List UInt8) (order : List Nat) (codeSize : Nat) :
    List UInt8 :=
  let count := order.length
  let tiles (n : Nat) := (List.range ((n + 31) / 32)).map fun tile =>
    (List.range (min (tile * 32 + 32) n - tile * 32)).map (tile * 32 + ·)
  let cells := (tiles count).flatMap fun rows => (tiles codeSize).flatMap fun columns =>
    rows.flatMap fun row => columns.map fun column => (row, column)
  cells.foldl (fun transposed cell => transposed.set (cell.2 * count + cell.1)
    (codes.getD (order.getD cell.1 0 * codeSize + cell.2) 0)) (List.replicate (count * codeSize) 0)

namespace IVFPQIndex

variable (index : IVFPQIndex)

def flags : UInt32 :=
  requiredFlags ||| (if index.rotation.isSome then flagHasOpq else 0) |||
    (if index.byResidual then flagByResidual else 0)

def payloadLen (list : SortedList) : IoResult Nat := do
  let codeBytes ← checkedListBytes "inverted list byte size overflow" list.order.length
    index.pq.codeSize
  okOr ((checkedAdd 12 list.idBytes.length).bind (checkedAdd · codeBytes))
    (invalidInput "IVFPQ list size overflow")

def sortLists : IoResult (List SortedList) :=
  (List.range index.nlist).mapM fun i => do
    let ids := index.ids.getD i []
    let expected ← checkedListBytes "inverted list byte size overflow" ids.length index.pq.codeSize
    rejectIf ((index.codes.getD i []).length ≠ expected)
      (invalidInput s!"IVFPQ code length mismatch at list {i}")
    return sortedList ids

def payload (list : SortedList) (codes : List UInt8) : List UInt8 :=
  if list.order = [] then []
  else list.idSection ++ transposeSortedPqCodes codes list.order index.pq.codeSize

def writeIndex : IoResult (List UInt8) := do
  let m := index.pq.m
  rejectIf (index.pq.ksub = 16 ∧ m % 2 ≠ 0)
    (invalidInput s!"4-bit IVF-PQ requires even m, got {m}")
  let d ← usizeToI32 index.d "dimension"
  let nlist ← usizeToI32 index.nlist "nlist"
  let m ← usizeToI32 index.pq.m "pq m"
  let ksub ← usizeToI32 index.pq.ksub "pq ksub"
  let dsub ← usizeToI32 index.pq.dsub "pq dsub"
  let total ← totalVectorCount index.ids
  let lists ← index.sortLists
  let head := u32Bytes magic ++ u32Bytes version ++ i32Bytes d ++ i32Bytes nlist ++ i32Bytes m ++
    i32Bytes ksub ++ i32Bytes dsub ++ u32Bytes index.metric.code ++ i64Bytes total ++
    u32Bytes index.flags ++ List.replicate 20 0
  let tables := (index.rotation.elim [] f32SliceBytes) ++ f32SliceBytes index.quantizerCentroids ++
    f32SliceBytes index.pq.centroids
  let offsetTableSize ← okOr (checkedMul index.nlist 16)
    (invalidInput "IVFPQ offset table size overflow")
  let dataStart ← okOr (checkedAdd (head ++ tables).length offsetTableSize)
    (invalidInput "IVFPQ data start offset overflow")
  let entries ← planEntries index.payloadLen (invalidInput "IVFPQ offset overflow") dataStart lists
  let payloads := (lists.zip index.codes).flatMap fun item => index.payload item.1 item.2
  return head ++ tables ++ entries.flatMap ListEntry.toBytes ++ payloads

end IVFPQIndex

structure IVFPQIndexReader (K : Type) where
  reader : SeekRead
  d : Nat
  nlist : Nat
  m : Nat
  ksub : Nat
  dsub : Nat
  metric : MetricType
  byResidual : Bool
  totalVectors : Int64
  rotation : Option (List K)
  quantizerCentroids : List K
  pq : ProductQuantizer K
  entries : List ListEntry
  /-- By list, chunk and code; absent until it is built. -/
  precomputedTable : Option (Nat → Nat → Nat → K)
  transposedCodes : Bool
  loaded : Bool
  hasOpq : Bool

structure InvertedListPayload where
  listId : Nat
  ids : List Int64
  codes : List UInt8

def pqEntryChecks : EntryChecks where
  before listId entry :=
    let count := entry.count.toInt
    rejectIf (entry.count < 0) (invalidData s!"negative list count {count} at list {listId}")
  after listId entry :=
    let len := entry.idBytesLen.toInt
    rejectIf (entry.idBytesLen < 0) (invalidData s!"negative id_bytes_len {len} at list {listId}")
  overflow := invalidData "IVFPQ vector count overflow"

namespace IVFPQIndexReader

variable {K : Type} [Scalar K]

def openWithHeader (reader : SeekRead) (header : List UInt8) : IoResult (IVFPQIndexReader K) := do
  let readU32 (offset : Nat) := u32OfBytes ((header.drop offset).take 4)
  let readI32 (offset : Nat) := i32OfBytes ((header.drop offset).take 4)
  let magicHex := hex8 (readU32 0)
  rejectIf (readU32 0 ≠ magic) (invalidData s!"Invalid IVFPQ magic: 0x{magicHex}")
  let fileVersion := (readU32 4).toNat
  rejectIf (readU32 4 ≠ version) (invalidData s!"Unsupported IVFPQ version: {fileVersion}")
  let d ← validatePositiveI32 (readI32 8) "d"
  let nlist ← validatePositiveI32 (readI32 12) "nlist"
  let m ← validatePositiveI32 (readI32 16) "m"
  let ksub ← validatePositiveI32 (readI32 20) "ksub"
  let dsub ← validatePositiveI32 (readI32 24) "dsub"
  rejectIf (ksub ≠ 16 ∧ ksub ≠ 256)
    (invalidData s!"unsupported ksub {ksub} (must be 16 or 256)")
  let product := m * dsub
  rejectIf (d ≠ m * dsub)
    (invalidData s!"PQ invariant violated: d={d} != m*dsub={m}*{dsub}={product}")
  rejectIf (ksub = 16 ∧ m % 2 ≠ 0) (invalidData s!"4-bit PQ requires even m, got {m}")
  let metricCode := (readU32 28).toNat
  let metric ← okOr (MetricType.fromCode (readU32 28))
    (invalidData s!"Unknown metric type: {metricCode}")
  let totalVectors := i64OfBytes ((header.drop 32).take 8)
  rejectIf (totalVectors < 0) (invalidData "IVFPQ total vector count must be non-negative")
  let flags := readU32 40
  validateReservedZero ((header.drop 44).take 20) "IVFPQ"
  let unknownHex := hex8 (flags &&& ~~~supportedFlags)
  rejectIf (flags &&& ~~~supportedFlags ≠ 0)
    (invalidData s!"Unsupported IVFPQ flags: 0x{unknownHex}")
  rejectIf (flags &&& requiredFlags ≠ requiredFlags)
    (invalidData "IVFPQ v1 requires delta IDs and transposed codes")
  return {
    reader, d, nlist, m, ksub, dsub, metric, totalVectors
    byResidual := flags &&& flagByResidual ≠ 0
    rotation := none
    quantizerCentroids := []
    pq := ⟨d, m, ksub.log2, []⟩
    entries := []
    precomputedTable := none
    transposedCodes := flags &&& flagTransposedCodes ≠ 0
    loaded := false
    hasOpq := flags &&& flagHasOpq ≠ 0 }

def openReader (reader : SeekRead) : IoResult (IVFPQIndexReader K) := do
  openWithHeader reader (← reader.pread 0 headerSize)

def sectionSize (a b : Nat) : IoResult Nat :=
  checkedSectionSize "section size overflow in index header" a b

variable {σ : Type} (self : IVFPQIndexReader K)

def rotationBytes (rotationCount : Nat) : IoResult Nat :=
  if self.hasOpq then okOr (checkedMul rotationCount 4) (invalidData "OPQ byte length overflow")
  else .ok 0

def ensureLoaded : IoResult (IVFPQIndexReader K) :=
  if self.loaded then .ok self
  else do
    let rotationCount ← sectionSize self.d self.d
    let centroidsCount ← sectionSize self.nlist self.d
    let mk ← okOr (checkedMul self.m self.ksub) (invalidData "m*ksub overflow")
    let pqCentroidsCount ← sectionSize mk self.dsub
    let rotationBytes ← self.rotationBytes rotationCount
    let centroidBytes ← okOr (checkedMul centroidsCount 4)
      (invalidData "centroid byte length overflow")
    let pqCentroidBytes ← okOr (checkedMul pqCentroidsCount 4)
      (invalidData "PQ centroid byte length overflow")
    let offsetTableBytes ← okOr (checkedMul self.nlist 16)
      (invalidData "IVFPQ offset table byte length overflow")
    let metadataBytes ← okOr (((checkedAdd rotationBytes centroidBytes).bind
        (checkedAdd · pqCentroidBytes)).bind (checkedAdd · offsetTableBytes))
      (invalidData "IVFPQ metadata size overflow")
    let metadata ← self.reader.pread headerSize metadataBytes
    let rotation ← bytesToF32Vec (metadata.take rotationBytes)
    let rest := metadata.drop rotationBytes
    let centroids ← bytesToF32Vec (rest.take centroidBytes)
    let rest := rest.drop centroidBytes
    let pqCentroids ← bytesToF32Vec (rest.take pqCentroidBytes)
    rejectIf (pqCentroids.length ≠ self.pq.d * self.pq.ksub)
      (panicked "PQ centroids must hold d * ksub values")
    let (entries, actualTotal) ← readOffsetTable pqEntryChecks 0 0
      (Words.chunksExact 16 (rest.drop pqCentroidBytes))
    checkVectorCount "IVFPQ" self.totalVectors.toInt actualTotal
    return { self with
      rotation := if self.hasOpq then some (rotation.map Scalar.ofF32) else self.rotation
      quantizerCentroids := centroids.map Scalar.ofF32
      pq := { self.pq with centroids := pqCentroids.map Scalar.ofF32 }
      entries := entries
      loaded := true }

def entry (listId : Nat) : ListEntry := self.entries.getD listId default

def codeSize (self : IVFPQIndexReader K) : Nat := self.pq.codeSize

def planListRead (listId : Nat) : IoResult (Option ListRead) := do
  checkListId self.nlist listId
  let entry := self.entry listId
  if entry.rows = 0 then return none
  else do
    let offset ← checkedListOffset entry.offset listId
    let codeBytes ← checkedListBytes "inverted list byte size overflow" entry.rows self.codeSize
    rejectIf (entry.idBytesLen = 0)
      (invalidData s!"missing id_bytes_len for non-empty IVFPQ list {listId}")
    let payloadLen ← okOr ((checkedAdd 12 entry.idBytes).bind (checkedAdd · codeBytes))
      (invalidData "inverted list payload size overflow")
    -- The buffer starts so that the codes behind the ids are 16-byte aligned.
    let readStart := (16 - (12 + entry.idBytes) % 16) % 16
    let _ ← okOr (checkedAdd readStart payloadLen) (invalidData "IVFPQ aligned payload overflow")
    return some ⟨listId, entry.rows, offset, entry.idBytes, payloadLen⟩

def decodeDeltaListPayload (read : ListRead) (bytes : List UInt8) :
    IoResult InvertedListPayload := do
  let headerLen ← okOr (checkedAdd 12 read.idBytesLen)
    (invalidData "inverted list payload size overflow")
  rejectIf (bytes.length < headerLen) ⟨.unexpectedEof, "truncated delta inverted list payload"⟩
  let baseId := i64OfBytes (bytes.take 8)
  let expected := read.idBytesLen
  let encoded := (i32OfBytes ((bytes.drop 8).take 4)).toInt
  rejectIf (encoded ≠ read.idBytesLen)
    (invalidData s!"offset table id_bytes_len {expected} does not match list header {encoded}")
  let ids ← decodeDeltaVarintIds baseId ((bytes.drop 12).take read.idBytesLen) read.count
  return ⟨read.listId, ids, bytes.drop headerLen⟩

def readInvertedListPayloads (listIds : List Nat) : IoResult (List InvertedListPayload) := do
  let self ← self.ensureLoaded
  readPlannedLists self.reader self.planListRead decodeDeltaListPayload
    (fun listId => ⟨listId, [], []⟩)
    (invalidData "missing batched inverted list read result") listIds

def listPayloadLen (listId : Nat) : IoResult Nat := do
  checkListId self.nlist listId
  let entry := self.entry listId
  if entry.rows = 0 then return 0
  else do
    let codeBytes ← checkedListBytes "inverted list byte size overflow" entry.rows self.codeSize
    okOr ((checkedAdd 12 entry.idBytes).bind (checkedAdd · codeBytes))
      (invalidData "inverted list payload size overflow")

def batchReadEnd (listIds : List Nat) : IoResult Nat := do
  let payloadLengths ← listIds.mapM self.listPayloadLen
  boundedIvfPayloadBatchEnd payloadLengths self.reader.maxRangesPerPread

/-- The codes of `rows` rows from `rowStart` on, in the layout of the file. -/
def readChunkCodes (codeOffset count rowStart rows : Nat) : IoResult (List UInt8) := do
  let codeBytes ← okOr (checkedMul rows self.codeSize) (invalidData "IVFPQ chunk size overflow")
  if self.transposedCodes then do
    let overflow := invalidData "IVFPQ transposed chunk offset overflow"
    let offsets ← (List.range self.codeSize).mapM fun column => do
      let inside ← okOr ((checkedMul column count).bind (checkedAdd · rowStart)) overflow
      okOr (checkedAdd codeOffset inside) overflow
    let columns ← preadBatchedSlices self.reader (offsets.map fun offset => (offset, rows))
    return columns.flatten
  else do
    let overflow := invalidData "IVFPQ row-major chunk offset overflow"
    let inside ← okOr (checkedMul rowStart self.codeSize) overflow
    let offset ← okOr (checkedAdd codeOffset inside) overflow
    self.reader.pread offset codeBytes

def tryForEachStreamedListChunk (listId : Nat)
    (consume : List Int64 → List UInt8 → σ → IoResult σ) (state : σ) : IoResult σ := do
  let self ← self.ensureLoaded
  let entry := self.entry listId
  let listOffset ← checkedListOffset entry.offset listId
  let ids ← readDeltaVarintIdsAt self.reader listOffset entry.rows entry.idBytes "IVFPQ"
  let codeOffset ← okOr (checkedAdd listOffset (12 + entry.idBytes))
    (invalidData "IVFPQ code offset overflow")
  let retainedIdBytes ← okOr (checkedMul ids.length 8)
    (invalidData "IVFPQ decoded ID size overflow")
  streamRows (boundedIvfStreamChunkRows · self.codeSize retainedIdBytes 1)
    (fun rowStart rows state => do
      let codes ← self.readChunkCodes codeOffset entry.rows rowStart rows
      consume ((ids.drop rowStart).take rows) codes state) entry.rows 0 state

variable {self : IVFPQIndexReader K}

theorem ensureLoaded_of_loaded (h : self.loaded = true) : self.ensureLoaded = .ok self := by
  rw [ensureLoaded, if_pos h]

theorem ensureLoaded_loaded {loaded : IVFPQIndexReader K} (h : self.ensureLoaded = .ok loaded) :
    loaded.loaded = true := by
  by_cases hloaded : self.loaded = true
  · rw [ensureLoaded_of_loaded hloaded] at h
    cases h
    exact hloaded
  · rw [ensureLoaded, if_neg hloaded] at h
    refine (?_ : Returns (fun r : IVFPQIndexReader K => r.loaded = true) _) _ h
    -- Every check before the last step may fail; the last step sets the mark.
    iterate 16 refine returns_bind fun _ => ?_
    exact returns_ok rfl

theorem tryForEachStreamedListChunk_simulates {σ τ : Type} {R : σ → τ → Prop} {listId : Nat}
    {consume : List Int64 → List UInt8 → σ → IoResult σ}
    (consume' : List Int64 → List UInt8 → τ → IoResult τ)
    (hstep : ∀ ids codes s t s', R s t → consume ids codes s = .ok s' →
      ∃ t', consume' ids codes t = .ok t' ∧ R s' t') {s s' : σ} {t : τ} (hR : R s t)
    (h : self.tryForEachStreamedListChunk listId consume s = .ok s') :
    ∃ t', self.tryForEachStreamedListChunk listId consume' t = .ok t' ∧ R s' t' := by
  simp only [tryForEachStreamedListChunk, bind_eq_ok] at h ⊢
  obtain ⟨self, hself, offset, hoffset, ids, hids, codeOffset, hcodes, retained, hretained, h⟩ := h
  obtain ⟨t', ht', hR'⟩ := streamRows_simulates (R := R) (fun rowStart rows s t s' hR hs => by
    obtain ⟨codes, hcodes, hs⟩ := bind_eq_ok.mp hs
    obtain ⟨t', ht', hR'⟩ := hstep _ _ _ _ _ hR hs
    exact ⟨t', bind_eq_ok.mpr ⟨codes, hcodes, ht'⟩, hR'⟩) hR h
  exact ⟨t', ⟨self, hself, offset, hoffset, ids, hids, codeOffset, hcodes, retained, hretained,
    ht'⟩, hR'⟩

end IVFPQIndexReader

end PaimonVindex
