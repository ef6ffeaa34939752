import PaimonVindex.DiskAnn.Header
import PaimonVindex.Scalar

/-! The header of a DiskANN file as it is stored: its words, the reader that
checks them, and the layout of the seven sections they describe. -/

namespace PaimonVindex

open Checked Words SectionRange DiskAnnHeader

def diskannMagic : UInt32 := 0x4E4E4144

def diskannVersion : UInt32 := 1

def diskannHeaderSize : Nat := 256

def flagBfsLayout : UInt32 := 1

def flagSeparateAdjacencyAndVectors : UInt32 := 2

def flagAdaptiveAdjacency : UInt32 := 4

def flagPqCodes : UInt32 := 8

def flagRowIdOrder : UInt32 := 16

def flagInterleavedAdjacencyAndVectors : UInt32 := 32

def diskannRequiredFlags : UInt32 :=
  flagBfsLayout ||| flagAdaptiveAdjacency ||| flagPqCodes ||| flagRowIdOrder

def diskannSupportedFlags : UInt32 :=
  diskannRequiredFlags ||| flagSeparateAdjacencyAndVectors ||| flagInterleavedAdjacencyAndVectors

def sectionCount : UInt32 := 7

def adjacencyLocatorSize : UInt32 := 4

def adjacencyLocatorEncoding : UInt32 := 3

def DiskAnnStorageLayout.flag : DiskAnnStorageLayout → UInt32
  | .compact => flagSeparateAdjacencyAndVectors
  | .interleaved => flagInterleavedAdjacencyAndVectors

theorem DiskAnnStorageLayout.flag_accepted (layout : DiskAnnStorageLayout) :
    ¬((diskannRequiredFlags ||| layout.flag) &&& diskannRequiredFlags ≠ diskannRequiredFlags ∨
      (diskannRequiredFlags ||| layout.flag) &&& ~~~diskannSupportedFlags ≠ 0 ∨
      ((diskannRequiredFlags ||| layout.flag) &&& flagSeparateAdjacencyAndVectors ≠ 0 ↔
        (diskannRequiredFlags ||| layout.flag) &&& flagInterleavedAdjacencyAndVectors ≠ 0)) ∧
    ((diskannRequiredFlags ||| layout.flag) &&& flagInterleavedAdjacencyAndVectors ≠ 0 ↔
      layout = .interleaved) := by
  cases layout <;> decide

namespace DiskAnnRawVectorEncoding

def code : DiskAnnRawVectorEncoding → UInt32
  | f32 => 1
  | f16 => 2

def fromCode (code : UInt32) : Option DiskAnnRawVectorEncoding :=
  if code = 1 then some f32 else if code = 2 then some f16 else none

@[simp] theorem fromCode_code (encoding : DiskAnnRawVectorEncoding) :
    fromCode encoding.code = some encoding := by
  cases encoding <;> rfl

end DiskAnnRawVectorEncoding

section Layout

theorem and_align {value : Nat} (h : value < wordSize) :
    value &&& (wordSize - 1 - 4095) = value / 4096 * 4096 := by
  apply Nat.eq_of_testBit_eq
  intro i
  have hmask : wordSize - 1 - 4095 = (2 ^ 52 - 1) * 2 ^ 12 := by decide
  have hpage : value / 4096 * 4096 = value / 2 ^ 12 * 2 ^ 12 := rfl
  rw [hmask, hpage, Nat.testBit_and, Nat.testBit_mul_two_pow, Nat.testBit_mul_two_pow,
    Nat.testBit_two_pow_sub_one, Nat.testBit_div_two_pow]
  by_cases hi : 12 ≤ i
  · have hsub : i - 12 + 12 = i := by omega
    by_cases hhigh : i - 12 < 52
    · simp [hi, hhigh, hsub]
    · have hzero : value.testBit i = false := by
        apply Nat.testBit_lt_two_pow
        exact Nat.lt_of_lt_of_le h (Nat.pow_le_pow_right (by decide) (by omega))
      simp [hi, hsub, hzero]
  · simp [hi]

theorem alignUp_page {value aligned : Nat} (h : alignUp value diskannPageSize = .ok aligned) :
    value ≤ aligned ∧ aligned < value + 4096 ∧ aligned % diskannPageSize = 0 := by
  have hpage : diskannPageSize - 1 = 4095 := rfl
  simp only [alignUp, hpage, okOr_eq_ok, Option.map_eq_some_iff, checkedAdd_eq_some] at h
  obtain ⟨sum, ⟨rfl, hlt⟩, rfl⟩ := h
  rw [and_align hlt, diskannPageSize]
  omega

def pqCodeBytes (pqM pqBits : Nat) : Nat := if pqBits = 4 then (pqM + 1) / 2 else pqM

/-- What the constructor of the layout accepts, and the numbers it computes. -/
structure DiskAnnHeader.LaidOut (header : DiskAnnHeader) (dimension vectorCount : Nat)
    (entryNode : UInt32) (pqM pqBits : Nat) (build : DiskAnnBuildParams)
    (rowIdsLen adjacencyPages : Nat) : Prop where
  storageLayout : header.storageLayout = build.storageLayout
  dimension_eq : header.dimension = dimension
  vectorCount_eq : header.vectorCount = vectorCount
  entryNode_eq : header.entryNode = entryNode
  maxDegree : header.maxDegree = build.maxDegree
  buildSearchListSize : header.buildSearchListSize = build.buildSearchListSize
  pqM_eq : header.pqM = pqM
  pqBits_eq : header.pqBits = pqBits
  rawVectorEncoding : header.rawVectorEncoding = build.rawVectorEncoding
  vectorRecordSize : header.vectorRecordSize = dimension * build.rawVectorEncoding.elementSize
  dimension_pos : 0 < dimension
  dimension_lt : dimension < 2 ^ 32
  vectorCount_pos : 0 < vectorCount
  vectorCount_lt : vectorCount < 2 ^ 32
  entryNode_lt : entryNode.toNat < vectorCount
  adjacencyPages_pos : 0 < adjacencyPages
  pqM_pos : 0 < pqM
  pqM_le : pqM ≤ dimension
  pqBits_supported : pqBits = 4 ∨ pqBits = 8
  maxDegree_pos : 0 < build.maxDegree
  maxDegree_le : build.maxDegree ≤ 1023
  buildSearchListSize_le : build.maxDegree ≤ build.buildSearchListSize
  buildSearchListSize_lt : build.buildSearchListSize < 2 ^ 32
  alpha_finite : build.alpha.isFinite = true
  alpha_ge : build.alpha.lt F32.one = false
  vectorRecordSize_lt : header.vectorRecordSize < 2 ^ 32
  codebook : header.sections.codebook =
    ⟨diskannPageSize, 32 + (pqM + 1) * 4 + dimension * 2 ^ pqBits * 4⟩
  rowIds : header.sections.rowIds =
    ⟨header.sections.codebook.offset + header.sections.codebook.length, rowIdsLen⟩
  pqCodes : header.sections.pqCodes =
    ⟨header.sections.rowIds.offset + header.sections.rowIds.length,
      vectorCount * pqCodeBytes pqM pqBits⟩
  rowIdOrder : header.sections.rowIdOrder =
    ⟨header.sections.pqCodes.offset + header.sections.pqCodes.length, vectorCount * 4⟩
  adjacencyIndex : header.sections.adjacencyIndex =
    ⟨header.sections.rowIdOrder.offset + header.sections.rowIdOrder.length,
      (vectorCount + 15) / adjacencyLocatorBlockNodes * 8 + vectorCount * 4⟩
  adjacency_after : header.sections.adjacencyIndex.offset + header.sections.adjacencyIndex.length ≤
    header.sections.adjacency.offset
  adjacency_aligned : header.sections.adjacency.offset % diskannPageSize = 0
  adjacency_length : header.sections.adjacency.length = adjacencyPages * diskannPageSize
  vectors : header.sections.vectors =
    ⟨header.sections.adjacency.offset + header.sections.adjacency.length,
      if build.storageLayout = .interleaved then 0 else vectorCount * header.vectorRecordSize⟩
  fileLen : header.fileLen = header.sections.vectors.offset + header.sections.vectors.length
  fileLen_lt : header.fileLen < wordSize

variable {vectorCount : Nat}

theorem rawVectorsLen_eq_ok {build : DiskAnnBuildParams} {vectorRecordSize len : Nat}
    (h : rawVectorsLen build vectorCount vectorRecordSize = .ok len) :
    len = if build.storageLayout = .interleaved then 0 else vectorCount * vectorRecordSize := by
  unfold rawVectorsLen at h
  split at h
  · rename_i hlayout
    rw [checkedMulU64, okOr_eq_ok, checkedMul_eq_some] at h
    rw [hlayout, if_neg (by decide), h.1]
  · rename_i hlayout
    rw [hlayout, if_pos rfl]
    exact (Except.ok.inj h).symm

theorem diskannPqKsub_eq_ok {pqBits ksub : Nat} (h : diskannPqKsub pqBits = .ok ksub) :
    ksub = 2 ^ pqBits := by
  unfold diskannPqKsub at h
  split at h
  · exact (Except.ok.inj h).symm
  · exact (Except.ok.inj h).symm
  · cases h

theorem diskannPqCodeSize_eq_ok {pqM pqBits size : Nat}
    (h : diskannPqCodeSize pqM pqBits = .ok size) : size = pqCodeBytes pqM pqBits := by
  unfold diskannPqCodeSize at h
  split at h
  · exact (Except.ok.inj h).symm
  · exact (Except.ok.inj h).symm
  · cases h

theorem pqCodebookSerializedLen_eq_ok {dimension pqM ksub len : Nat}
    (h : pqCodebookSerializedLen dimension pqM ksub = .ok len) :
    len = 32 + (pqM + 1) * 4 + dimension * ksub * 4 := by
  simp only [pqCodebookSerializedLen, accepted, Option.bind_eq_bind, Option.bind_eq_some_iff] at h
  obtain ⟨_, ⟨_, ⟨rfl, -⟩, rfl, -⟩, _, ⟨_, ⟨rfl, -⟩, rfl, -⟩, _, ⟨rfl, -⟩, rfl, -⟩ := h
  rfl

theorem adjacencyIndexSerializedLen_eq_ok {len : Nat}
    (h : adjacencyIndexSerializedLen vectorCount = .ok len) :
    len = (vectorCount + 15) / adjacencyLocatorBlockNodes * 8 + vectorCount * 4 := by
  simp only [adjacencyIndexSerializedLen, accepted] at h
  obtain ⟨_, ⟨rfl, -⟩, _, ⟨rfl, -⟩, rfl, -⟩ := h
  rfl

theorem sectionEnd_eq_ok {range : SectionRange} {stop : Nat} :
    sectionEnd range = .ok stop ↔
      range.offset + range.length = stop ∧ range.offset + range.length < wordSize := by
  rw [sectionEnd, okOr_eq_ok, checkedAdd_eq_some]

theorem DiskAnnHeader.forLayout_laidOut {dimension : Nat} {entryNode : UInt32} {pqM pqBits : Nat}
    {build : DiskAnnBuildParams} {rowIdsLen adjacencyPages : Nat} {header : DiskAnnHeader}
    (h : forLayout dimension vectorCount entryNode pqM pqBits build rowIdsLen adjacencyPages =
      .ok header) : header.LaidOut dimension vectorCount entryNode pqM pqBits build rowIdsLen
        adjacencyPages := by
  simp only [forLayout, validateDiskannFormatConfiguration, accepted, fitsIn_eq_some, checkedMulU64,
    sectionEnd_eq_ok] at h
  obtain ⟨⟨hdim, hm, hmd, hbits, hdegree, hdegree', hlist, hlist', halpha, -⟩, hcount, hentry,
    hpages, h⟩ := h
  obtain ⟨_, -, -, hdim', -, -, ksub, hksub, size, hsize, -, -, -, h⟩ := h
  obtain ⟨_, ⟨rfl, hrecord⟩, _, -, codebookLen, hcodebook, _, ⟨rfl, -⟩, _, ⟨rfl, -⟩, h⟩ := h
  obtain ⟨indexLen, hindex, _, ⟨rfl, -⟩, vectorsLen, hvectors, h⟩ := h
  obtain ⟨_, ⟨rfl, -⟩, _, ⟨rfl, -⟩, _, ⟨rfl, -⟩, _, ⟨rfl, -⟩, _, ⟨rfl, -⟩,
    aligned, haligned, h⟩ := h
  obtain ⟨_, ⟨rfl, -⟩, _, ⟨rfl, hend⟩, rfl⟩ := h
  cases diskannPqKsub_eq_ok hksub
  cases diskannPqCodeSize_eq_ok hsize
  cases pqCodebookSerializedLen_eq_ok hcodebook
  cases adjacencyIndexSerializedLen_eq_ok hindex
  obtain ⟨hafter, -, hpage⟩ := alignUp_page haligned
  exact {
    storageLayout := rfl
    dimension_eq := rfl
    vectorCount_eq := rfl
    entryNode_eq := rfl
    maxDegree := rfl
    buildSearchListSize := rfl
    pqM_eq := rfl
    pqBits_eq := rfl
    rawVectorEncoding := rfl
    vectorRecordSize := rfl
    dimension_pos := by omega
    dimension_lt := by omega
    vectorCount_pos := by omega
    vectorCount_lt := by omega
    entryNode_lt := by omega
    adjacencyPages_pos := by omega
    pqM_pos := by omega
    pqM_le := by omega
    pqBits_supported := not_not.mp hbits
    maxDegree_pos := by omega
    maxDegree_le := by omega
    buildSearchListSize_le := by omega
    buildSearchListSize_lt := not_not.mp hlist'
    alpha_finite := Bool.not_eq_false _ ▸ (not_or.mp halpha).1
    alpha_ge := Bool.not_eq_true _ ▸ (not_or.mp halpha).2
    vectorRecordSize_lt := hrecord
    codebook := rfl
    rowIds := rfl
    pqCodes := rfl
    rowIdOrder := rfl
    adjacencyIndex := rfl
    adjacency_after := hafter
    adjacency_aligned := hpage
    adjacency_length := rfl
    vectors := by rw [rawVectorsLen_eq_ok hvectors]
    fileLen := rfl
    fileLen_lt := hend }

/-- The sections in the order of the file. -/
def DiskAnnSections.ranges (sections : DiskAnnSections) : List SectionRange :=
  [sections.codebook, sections.rowIds, sections.pqCodes, sections.rowIdOrder,
    sections.adjacencyIndex, sections.adjacency, sections.vectors]

namespace DiskAnnHeader.LaidOut

variable {header : DiskAnnHeader} {dimension vectorCount : Nat} {entryNode : UInt32}
  {pqM pqBits rowIdsLen adjacencyPages : Nat} {build : DiskAnnBuildParams}

theorem tiled
    (h : header.LaidOut dimension vectorCount entryNode pqM pqBits build rowIdsLen adjacencyPages) :
    (header.sections.ranges.Pairwise fun a b => a.offset + a.length ≤ b.offset) ∧
      ∀ range ∈ header.sections.ranges,
        diskannPageSize ≤ range.offset ∧ range.offset + range.length ≤ header.fileLen := by
  have hcodebook := congrArg offset h.codebook
  have hrowIds := congrArg offset h.rowIds
  have hpqCodes := congrArg offset h.pqCodes
  have hrowIdOrder := congrArg offset h.rowIdOrder
  have hindex := congrArg offset h.adjacencyIndex
  have hadjacency := h.adjacency_after
  have hvectors := congrArg offset h.vectors
  have hend := h.fileLen
  dsimp only at hcodebook hrowIds hpqCodes hrowIdOrder hindex hvectors
  simp only [DiskAnnSections.ranges, List.pairwise_cons, List.mem_cons, List.not_mem_nil, or_false,
    forall_eq_or_imp, forall_eq, List.Pairwise.nil, and_true, false_implies, implies_true]
  omega

end DiskAnnHeader.LaidOut

end Layout

/-- A section as two words of the header. -/
structure FileRange where
  offset : UInt64
  length : UInt64
  deriving DecidableEq, Repr

namespace FileRange

def ofRange (range : SectionRange) : FileRange :=
  ⟨UInt64.ofNat range.offset, UInt64.ofNat range.length⟩

def toRange (range : FileRange) : SectionRange := ⟨range.offset.toNat, range.length.toNat⟩

theorem toRange_ofRange {range : SectionRange} (hoffset : range.offset < wordSize)
    (hlength : range.length < wordSize) : (ofRange range).toRange = range := by
  have hword : wordSize = 2 ^ 64 := rfl
  rw [hword] at hoffset hlength
  simp only [toRange, ofRange, UInt64.toNat_ofNat', Nat.mod_eq_of_lt hoffset,
    Nat.mod_eq_of_lt hlength]

end FileRange

structure FileSections where
  codebook : FileRange
  rowIds : FileRange
  pqCodes : FileRange
  rowIdOrder : FileRange
  adjacencyIndex : FileRange
  adjacency : FileRange
  vectors : FileRange
  deriving DecidableEq, Repr

namespace FileSections

def asArray (sections : FileSections) : List FileRange :=
  [sections.codebook, sections.rowIds, sections.pqCodes, sections.rowIdOrder,
    sections.adjacencyIndex, sections.adjacency, sections.vectors]

def ofSections (sections : DiskAnnSections) : FileSections :=
  ⟨.ofRange sections.codebook, .ofRange sections.rowIds, .ofRange sections.pqCodes,
    .ofRange sections.rowIdOrder, .ofRange sections.adjacencyIndex, .ofRange sections.adjacency,
    .ofRange sections.vectors⟩

end FileSections

open FileSections

structure DiskAnnFileHeader where
  flags : UInt32
  dimension : UInt32
  metric : UInt32
  vectorCount : UInt64
  entryNode : UInt32
  maxDegree : UInt32
  buildSearchListSize : UInt32
  alpha : F32
  seed : UInt64
  pqM : UInt32
  pqBits : UInt32
  pageSize : UInt32
  adjacencyLocatorSize : UInt32
  adjacencyLocatorEncoding : UInt32
  rawVectorEncoding : UInt32
  vectorRecordSize : UInt32
  fileLen : UInt64
  sections : FileSections
  deriving DecidableEq, Repr

namespace DiskAnnFileHeader

/-- The stored form of a constructed header. Every number fits its word. -/
def ofHeader (header : DiskAnnHeader) (metric : MetricType) (alpha : F32) (seed : UInt64) :
    DiskAnnFileHeader where
  flags := diskannRequiredFlags ||| header.storageLayout.flag
  dimension := UInt32.ofNat header.dimension
  metric := metric.code
  vectorCount := UInt64.ofNat header.vectorCount
  entryNode := header.entryNode
  maxDegree := UInt32.ofNat header.maxDegree
  buildSearchListSize := UInt32.ofNat header.buildSearchListSize
  alpha := alpha
  seed := seed
  pqM := UInt32.ofNat header.pqM
  pqBits := UInt32.ofNat header.pqBits
  pageSize := UInt32.ofNat diskannPageSize
  adjacencyLocatorSize := PaimonVindex.adjacencyLocatorSize
  adjacencyLocatorEncoding := PaimonVindex.adjacencyLocatorEncoding
  rawVectorEncoding := header.rawVectorEncoding.code
  vectorRecordSize := UInt32.ofNat header.vectorRecordSize
  fileLen := UInt64.ofNat header.fileLen
  sections := .ofSections header.sections

def forLayoutWithAdjacencyPagesAndPqBits (dimension vectorCount : Nat) (entryNode : UInt32)
    (pqM pqBits : Nat) (metric : MetricType) (build : DiskAnnBuildParams) (seed : UInt64)
    (rowIdsLen adjacencyPages : Nat) : IoResult DiskAnnFileHeader := do
  let header ← forLayout dimension vectorCount entryNode pqM pqBits build rowIdsLen
    adjacencyPages
  return ofHeader header metric build.alpha seed

section

variable (header : DiskAnnFileHeader)

def words : List (List UInt8) :=
  [u32Bytes diskannMagic, u32Bytes diskannVersion, u32Bytes (UInt32.ofNat diskannHeaderSize),
    u32Bytes header.flags, u32Bytes header.dimension, u32Bytes header.metric,
    u64Bytes header.vectorCount, u32Bytes header.entryNode, u32Bytes header.maxDegree,
    u32Bytes header.buildSearchListSize, u32Bytes header.alpha.bits, u64Bytes header.seed,
    u32Bytes header.pqM, u32Bytes header.pqBits, u32Bytes header.pageSize,
    u32Bytes header.adjacencyLocatorSize, u32Bytes header.adjacencyLocatorEncoding,
    u32Bytes header.rawVectorEncoding, u32Bytes header.vectorRecordSize, u32Bytes sectionCount,
    u64Bytes header.fileLen] ++
  (header.sections.asArray.flatMap fun range => [u64Bytes range.offset, u64Bytes range.length]) ++
  [List.replicate 48 0]

def encode : List UInt8 := header.words.flatten

def getU32 (bytes : List UInt8) (offset : Nat) : UInt32 := u32OfBytes ((bytes.drop offset).take 4)

def getU64 (bytes : List UInt8) (offset : Nat) : UInt64 := u64OfBytes ((bytes.drop offset).take 8)

def getRange (bytes : List UInt8) (index : Nat) : FileRange :=
  ⟨getU64 bytes (96 + index * 16), getU64 bytes (96 + index * 16 + 8)⟩

def storageLayout : DiskAnnStorageLayout :=
  if header.flags &&& flagInterleavedAdjacencyAndVectors ≠ 0 then .interleaved else .compact

/-- The parameters from which the layout is computed once more. -/
def buildParams (encoding : DiskAnnRawVectorEncoding) :
    DiskAnnBuildParams where
  maxDegree := header.maxDegree.toNat
  buildSearchListSize := header.buildSearchListSize.toNat
  alpha := header.alpha
  storageLayout := header.storageLayout
  rawVectorEncoding := encoding

def validateLayout : IoResult Unit := do
  rejectIf (header.dimension = 0) (invalidData "invalid DiskANN dimension")
  rejectIf (header.vectorCount = 0 ∨ ¬header.vectorCount.toNat < 2 ^ 32)
    (invalidData "invalid DiskANN vector count")
  rejectIf (header.vectorCount.toNat ≤ header.entryNode.toNat)
    (invalidData "invalid DiskANN entry node")
  rejectIf (header.pqM = 0 ∨ header.dimension < header.pqM) (invalidData "invalid DiskANN PQ shape")
  rejectIf (header.maxDegree = 0 ∨ header.maxDegree > 1023 ∨
      header.buildSearchListSize < header.maxDegree)
    (invalidData "invalid DiskANN build parameters")
  rejectIf (header.alpha.lt F32.one = true) (invalidData "invalid DiskANN alpha")
  let adjacencyLen := header.sections.adjacency.length.toNat
  let adjacencyPages := adjacencyLen / diskannPageSize
  rejectIf (adjacencyPages = 0 ∨ adjacencyLen % diskannPageSize ≠ 0)
    (invalidData "invalid DiskANN adjacency section length")
  let metric ← okOr (MetricType.fromCode header.metric) (panicked "validated DiskANN metric")
  let encoding ← okOr (DiskAnnRawVectorEncoding.fromCode header.rawVectorEncoding)
    (panicked "validated DiskANN raw-vector encoding")
  let expected ← (forLayoutWithAdjacencyPagesAndPqBits header.dimension.toNat
      header.vectorCount.toNat header.entryNode header.pqM.toNat header.pqBits.toNat metric
      (header.buildParams encoding) header.seed header.sections.rowIds.length.toNat
      adjacencyPages).mapError fun error =>
    let message := error.message
    invalidData s!"invalid DiskANN layout: {message}"
  rejectIf (header.adjacencyLocatorSize ≠ expected.adjacencyLocatorSize ∨
      header.adjacencyLocatorEncoding ≠ expected.adjacencyLocatorEncoding ∨
      header.rawVectorEncoding ≠ expected.rawVectorEncoding ∨
      header.vectorRecordSize ≠ expected.vectorRecordSize ∨
      header.sections ≠ expected.sections ∨ header.fileLen ≠ expected.fileLen)
    (invalidData "invalid DiskANN section layout")

end

def parse (bytes : List UInt8) : DiskAnnFileHeader where
  flags := getU32 bytes 12
  dimension := getU32 bytes 16
  metric := getU32 bytes 20
  vectorCount := getU64 bytes 24
  entryNode := getU32 bytes 32
  maxDegree := getU32 bytes 36
  buildSearchListSize := getU32 bytes 40
  alpha := ⟨getU32 bytes 44⟩
  seed := getU64 bytes 48
  pqM := getU32 bytes 56
  pqBits := getU32 bytes 60
  pageSize := getU32 bytes 64
  adjacencyLocatorSize := getU32 bytes 68
  adjacencyLocatorEncoding := getU32 bytes 72
  rawVectorEncoding := getU32 bytes 76
  vectorRecordSize := getU32 bytes 80
  fileLen := getU64 bytes 88
  sections := ⟨getRange bytes 0, getRange bytes 1, getRange bytes 2, getRange bytes 3,
    getRange bytes 4, getRange bytes 5, getRange bytes 6⟩

def decode (bytes : List UInt8) : IoResult DiskAnnFileHeader := do
  let len := bytes.length
  rejectIf (len < diskannHeaderSize) (invalidData s!"DiskANN header is truncated: {len} bytes")
  rejectIf (getU32 bytes 0 ≠ diskannMagic) (invalidData "invalid DiskANN magic")
  rejectIf (getU32 bytes 4 ≠ diskannVersion) (invalidData "unsupported DiskANN version")
  rejectIf (getU32 bytes 8 ≠ UInt32.ofNat diskannHeaderSize)
    (invalidData "invalid DiskANN header size")
  let flags := getU32 bytes 12
  rejectIf (flags &&& diskannRequiredFlags ≠ diskannRequiredFlags ∨
      flags &&& ~~~diskannSupportedFlags ≠ 0 ∨
      (flags &&& flagSeparateAdjacencyAndVectors ≠ 0 ↔
        flags &&& flagInterleavedAdjacencyAndVectors ≠ 0))
    (invalidData "invalid DiskANN required flags")
  rejectIf (getU32 bytes 84 ≠ sectionCount) (invalidData "invalid DiskANN section count")
  rejectIf (((bytes.drop 208).take 48).any (· ≠ 0) = true)
    (invalidData "DiskANN reserved header bytes must be zero")
  let header := parse bytes
  rejectIf (MetricType.fromCode header.metric = none ∨ ¬(header.pqBits = 4 ∨ header.pqBits = 8) ∨
      header.pageSize ≠ UInt32.ofNat diskannPageSize ∨
      DiskAnnRawVectorEncoding.fromCode header.rawVectorEncoding = none)
    (invalidData "unsupported DiskANN v1 layout")
  rejectIf (header.alpha.isFinite = false) (invalidData "DiskANN alpha must be finite")
  header.validateLayout
  return header

section Words

def widths : List Nat :=
  [4, 4, 4, 4, 4, 4, 8, 4, 4, 4, 4, 8, 4, 4, 4, 4, 4, 4, 4, 4, 8, 8, 8, 8, 8, 8, 8, 8, 8, 8, 8, 8,
    8, 8, 8, 48]

variable (header : DiskAnnFileHeader)

theorem words_length : header.words.map List.length = widths := by
  simp [words, widths, asArray]

theorem encode_length : header.encode.length = diskannHeaderSize := by
  rw [encode, List.length_flatten, words_length]
  rfl

variable {bytes : List UInt8}

theorem u32Bytes_getU32 {offset : Nat} (h : offset + 4 ≤ bytes.length) :
    u32Bytes (getU32 bytes offset) = (bytes.drop offset).take 4 := by
  apply u32Bytes_u32OfBytes
  rw [List.length_take, List.length_drop]
  omega

theorem u64Bytes_getU64 {offset : Nat} (h : offset + 8 ≤ bytes.length) :
    u64Bytes (getU64 bytes offset) = (bytes.drop offset).take 8 := by
  apply u64Bytes_u64OfBytes
  rw [List.length_take, List.length_drop]
  omega

theorem words_parse (hlength : diskannHeaderSize ≤ bytes.length)
    (hmagic : getU32 bytes 0 = diskannMagic) (hversion : getU32 bytes 4 = diskannVersion)
    (hsize : getU32 bytes 8 = UInt32.ofNat diskannHeaderSize)
    (hcount : getU32 bytes 84 = sectionCount)
    (hreserved : (bytes.drop 208).take 48 = List.replicate 48 0) :
    (parse bytes).words = cut widths bytes := by
  have hlen : 256 ≤ bytes.length := hlength
  rw [words, ← hmagic, ← hversion, ← hsize, ← hcount, ← hreserved]
  simp (disch := omega) [parse, asArray, getRange, u32Bytes_getU32,
    u64Bytes_getU64, cut, widths]

theorem cut_encode : cut widths header.encode = header.words := by
  rw [← header.words_length, encode, cut_flatten]

theorem encode_reads :
    parse header.encode = header ∧
      getU32 header.encode 0 = diskannMagic ∧ getU32 header.encode 4 = diskannVersion ∧
      getU32 header.encode 8 = UInt32.ofNat diskannHeaderSize ∧
      getU32 header.encode 84 = sectionCount ∧
      (header.encode.drop 208).take 48 = List.replicate 48 0 := by
  have hcut := header.cut_encode
  simp only [widths, cut, List.drop_drop, words, asArray, List.flatMap_cons,
    List.flatMap_nil, List.cons_append, List.nil_append, List.append_nil, List.cons.injEq,
    Nat.reduceAdd] at hcut
  obtain ⟨h0, h4, h8, h12, h16, h20, h24, h32, h36, h40, h44, h48, h56, h60, h64, h68, h72, h76,
    h80, h84, h88, h96, h104, h112, h120, h128, h136, h144, h152, h160, h168, h176, h184, h192,
    h200, h208, -⟩ := hcut
  refine ⟨?_, ?_, ?_, ?_, ?_, h208⟩
  · simp only [parse, getRange, getU32, getU64, Nat.reduceAdd, Nat.reduceMul, h12, h16, h20, h24,
      h32, h36, h40, h44, h48, h56, h60, h64, h68, h72, h76, h80, h88, h96, h104, h112, h120, h128,
      h136, h144, h152, h160, h168, h176, h184, h192, h200, u32OfBytes_u32Bytes,
      u64OfBytes_u64Bytes]
  · rw [getU32, List.drop_zero, h0, u32OfBytes_u32Bytes]
  · rw [getU32, h4, u32OfBytes_u32Bytes]
  · rw [getU32, h8, u32OfBytes_u32Bytes]
  · rw [getU32, h84, u32OfBytes_u32Bytes]

end Words

section Stored

variable {nested : DiskAnnHeader} {dimension vectorCount : Nat} {entryNode : UInt32}
  {pqM pqBits rowIdsLen adjacencyPages : Nat} {build : DiskAnnBuildParams} {metric : MetricType}
  {alpha : F32} {seed : UInt64}

theorem ofSections_toRange
    (h : nested.LaidOut dimension vectorCount entryNode pqM pqBits build rowIdsLen adjacencyPages) :
    (ofSections nested.sections).asArray.map FileRange.toRange = nested.sections.ranges := by
  have hlt := h.fileLen_lt
  change (nested.sections.ranges.map FileRange.ofRange).map FileRange.toRange = _
  rw [List.map_map, List.map_congr_left, List.map_id]
  intro range hrange
  obtain ⟨-, hend⟩ := h.tiled.2 range hrange
  exact FileRange.toRange_ofRange (by omega) (by omega)

theorem storageLayout_ofHeader :
    (ofHeader nested metric alpha seed).storageLayout = nested.storageLayout := by
  have hflag := nested.storageLayout.flag_accepted.2
  by_cases hlayout : nested.storageLayout = .interleaved
  · rw [storageLayout, ofHeader, if_pos (hflag.mpr hlayout), hlayout]
  · rw [storageLayout, ofHeader, if_neg fun h => hlayout (hflag.mp h)]
    cases hother : nested.storageLayout with
    | compact => rfl
    | interleaved => exact absurd hother hlayout

variable (metric alpha seed) in
theorem ofHeader_toNat
    (h : nested.LaidOut dimension vectorCount entryNode pqM pqBits build rowIdsLen adjacencyPages) :
    (ofHeader nested metric alpha seed).dimension.toNat = dimension ∧
      (ofHeader nested metric alpha seed).vectorCount.toNat = vectorCount ∧
      (ofHeader nested metric alpha seed).maxDegree.toNat = build.maxDegree ∧
      (ofHeader nested metric alpha seed).buildSearchListSize.toNat = build.buildSearchListSize ∧
      (ofHeader nested metric alpha seed).pqM.toNat = pqM ∧
      (ofHeader nested metric alpha seed).pqBits.toNat = pqBits ∧
      (ofHeader nested metric alpha seed).sections.rowIds.length.toNat = rowIdsLen ∧
      (ofHeader nested metric alpha seed).sections.adjacency.length.toNat =
        adjacencyPages * diskannPageSize := by
  have hranges := ofSections_toRange h
  simp only [asArray, DiskAnnSections.ranges, List.map_cons, List.map_nil, List.cons.injEq]
    at hranges
  obtain ⟨-, hrowIds, -, -, -, hadjacency, -⟩ := hranges
  have hbits : pqBits < 2 ^ 32 := by
    have := h.pqBits_supported
    omega
  have hdegree := Nat.lt_of_le_of_lt h.maxDegree_le (by decide : 1023 < 2 ^ 32)
  have hcount := h.vectorCount_lt.trans (by decide : 2 ^ 32 < 2 ^ 64)
  refine ⟨?_, ?_, ?_, ?_, ?_, ?_, ?_, ?_⟩
  · exact (UInt32.toNat_ofNat_of_lt' (h.dimension_eq ▸ h.dimension_lt)).trans h.dimension_eq
  · exact (UInt64.toNat_ofNat_of_lt' (h.vectorCount_eq ▸ hcount)).trans h.vectorCount_eq
  · exact (UInt32.toNat_ofNat_of_lt' (h.maxDegree ▸ hdegree)).trans h.maxDegree
  · exact (UInt32.toNat_ofNat_of_lt' (h.buildSearchListSize ▸ h.buildSearchListSize_lt)).trans
      h.buildSearchListSize
  · have hlt := Nat.lt_of_le_of_lt h.pqM_le h.dimension_lt
    exact (UInt32.toNat_ofNat_of_lt' (h.pqM_eq ▸ hlt)).trans h.pqM_eq
  · exact (UInt32.toNat_ofNat_of_lt' (h.pqBits_eq ▸ hbits)).trans h.pqBits_eq
  · exact congrArg length (hrowIds.trans h.rowIds)
  · exact (congrArg length hadjacency).trans h.adjacency_length

variable (metric seed) in
theorem validateLayout_ofHeader
    (h : forLayout dimension vectorCount entryNode pqM pqBits build rowIdsLen adjacencyPages =
      .ok nested) :
    (ofHeader nested metric build.alpha seed).validateLayout = .ok () := by
  have hlaid := forLayout_laidOut h
  obtain ⟨hdimension, hcount, hdegree, hlist, hpqM, hpqBits, hrowIds, hadjacency⟩ :=
    ofHeader_toNat metric build.alpha seed hlaid
  have hentry : (ofHeader nested metric build.alpha seed).entryNode = entryNode :=
    hlaid.entryNode_eq
  have hparams : (ofHeader nested metric build.alpha seed).buildParams build.rawVectorEncoding =
      build := by
    rw [buildParams, storageLayout_ofHeader, hlaid.storageLayout, hdegree, hlist]
    rfl
  have hpages : adjacencyPages * diskannPageSize / diskannPageSize = adjacencyPages :=
    Nat.mul_div_cancel _ (by decide)
  have hexpected : forLayoutWithAdjacencyPagesAndPqBits dimension vectorCount entryNode pqM pqBits
      metric build seed rowIdsLen adjacencyPages =
        .ok (ofHeader nested metric build.alpha seed) := by
    rw [forLayoutWithAdjacencyPagesAndPqBits, h, ok_bind, pure_eq_ok]
  have hzero : (0 : UInt32).toNat = 0 := rfl
  have hzero64 : (0 : UInt64).toNat = 0 := rfl
  have hlimit : (1023 : UInt32).toNat = 1023 := rfl
  simp only [validateLayout, accepted, mapError_eq_ok, ← UInt32.toNat_inj, ← UInt64.toNat_inj,
    UInt32.lt_iff_toNat_lt, gt_iff_lt, hdimension, hcount, hdegree, hlist, hpqM, hpqBits, hrowIds,
    hadjacency, hentry, hpages, hzero, hzero64, hlimit]
  have hdim := hlaid.dimension_pos
  have hn := hlaid.vectorCount_pos
  have hnlt := hlaid.vectorCount_lt
  have hentryLt := hlaid.entryNode_lt
  have hm := hlaid.pqM_pos
  have hmle := hlaid.pqM_le
  have hr := hlaid.maxDegree_pos
  have hrle := hlaid.maxDegree_le
  have hl := hlaid.buildSearchListSize_le
  have hp := hlaid.adjacencyPages_pos
  have halpha := hlaid.alpha_ge
  have hencoding : (ofHeader nested metric build.alpha seed).rawVectorEncoding =
      build.rawVectorEncoding.code := by
    rw [← hlaid.rawVectorEncoding]
    rfl
  refine ⟨by omega, by omega, by omega, by omega, by omega, ?_, ?_, metric,
    MetricType.fromCode_code metric, build.rawVectorEncoding, ?_,
    ofHeader nested metric build.alpha seed, ?_, by simp⟩
  · rw [Bool.not_eq_true]
    exact halpha
  · rw [Nat.mul_mod_left]
    omega
  · rw [hencoding, DiskAnnRawVectorEncoding.fromCode_code]
  · rw [hparams]
    exact hexpected

theorem decode_encode_ofHeader
    (h : forLayout dimension vectorCount entryNode pqM pqBits build rowIdsLen adjacencyPages =
      .ok nested) :
    decode (ofHeader nested metric build.alpha seed).encode =
      .ok (ofHeader nested metric build.alpha seed) := by
  have hlaid := forLayout_laidOut h
  obtain ⟨hparse, hmagic, hversion, hsize, hcount, hreserved⟩ :=
    (ofHeader nested metric build.alpha seed).encode_reads
  have hflags : getU32 (ofHeader nested metric build.alpha seed).encode 12 =
      diskannRequiredFlags ||| nested.storageLayout.flag := congrArg flags hparse
  have hpqBits : UInt32.ofNat nested.pqBits = 4 ∨ UInt32.ofNat nested.pqBits = 8 := by
    rw [hlaid.pqBits_eq]
    rcases hlaid.pqBits_supported with rfl | rfl
    · exact .inl rfl
    · exact .inr rfl
  simp only [decode, accepted, pure_eq_ok, hmagic, hversion, hsize, hcount, hreserved, hflags,
    hparse, encode_length]
  refine ⟨by simp, by simp, by simp, by simp, nested.storageLayout.flag_accepted.1, by simp,
    by simp, ?_, ?_, (), validateLayout_ofHeader metric seed h, trivial⟩
  · simp [ofHeader, hpqBits]
  · simp [ofHeader, hlaid.alpha_finite]

end Stored

section Accepted

/-- The sections follow the page of the header in order, without overlap and
without a wrap, up to the recorded end of the file. -/
structure Tiles (header : DiskAnnFileHeader) : Prop where
  ordered : (header.sections.asArray.map FileRange.toRange).Pairwise fun a b =>
    a.offset + a.length ≤ b.offset
  behind_header : ∀ range ∈ header.sections.asArray, diskannPageSize ≤ range.offset.toNat
  adjacency_aligned : header.sections.adjacency.offset.toNat % diskannPageSize = 0
  last_end : header.sections.vectors.offset.toNat + header.sections.vectors.length.toNat =
    header.fileLen.toNat
  codebook_length : header.sections.codebook.length.toNat =
    32 + (header.pqM.toNat + 1) * 4 + header.dimension.toNat * 2 ^ header.pqBits.toNat * 4
  pqCodes_length : header.sections.pqCodes.length.toNat =
    header.vectorCount.toNat * pqCodeBytes header.pqM.toNat header.pqBits.toNat
  rowIdOrder_length : header.sections.rowIdOrder.length.toNat = header.vectorCount.toNat * 4
  adjacencyIndex_length : header.sections.adjacencyIndex.length.toNat =
    (header.vectorCount.toNat + 15) / adjacencyLocatorBlockNodes * 8 +
      header.vectorCount.toNat * 4
  vectors_length : header.sections.vectors.length.toNat =
    if header.storageLayout = .interleaved then 0
    else header.vectorCount.toNat * header.vectorRecordSize.toNat

theorem tiles_of_validateLayout {header : DiskAnnFileHeader}
    (h : header.validateLayout = .ok ()) : header.Tiles := by
  simp only [validateLayout, accepted, mapError_eq_ok, forLayoutWithAdjacencyPagesAndPqBits] at h
  obtain ⟨-, -, -, -, -, -, -, metric, -, encoding, -, _, ⟨nested, hnested, rfl⟩, hsame⟩ := h
  simp only [not_or, not_not] at hsame
  obtain ⟨-, -, -, hrecord, hsections, hfileLen⟩ := hsame
  have hlaid := forLayout_laidOut hnested
  have hranges :=
    (congrArg (fun sections => sections.asArray.map FileRange.toRange) hsections).trans
    (ofSections_toRange hlaid)
  obtain ⟨hordered, hbehind⟩ := hlaid.tiled
  rw [← hranges] at hordered hbehind
  simp only [asArray, DiskAnnSections.ranges, List.map_cons, List.map_nil, List.cons.injEq]
    at hranges
  obtain ⟨hcodebook, -, hpqCodes, hrowIdOrder, hindex, hadjacency, hvectors, -⟩ := hranges
  have hrecordSize : header.vectorRecordSize.toNat = nested.vectorRecordSize := by
    rw [hrecord]
    exact UInt32.toNat_ofNat_of_lt' hlaid.vectorRecordSize_lt
  have hfileEnd : header.fileLen.toNat = nested.fileLen := by
    rw [hfileLen]
    exact UInt64.toNat_ofNat_of_lt' hlaid.fileLen_lt
  exact {
    ordered := hordered
    behind_header := fun range hrange => (hbehind _ (List.mem_map_of_mem hrange)).1
    adjacency_aligned := (congrArg (offset · % diskannPageSize) hadjacency).trans
      hlaid.adjacency_aligned
    last_end := by
      rw [hfileEnd, hlaid.fileLen, ← hvectors]
      rfl
    codebook_length := congrArg length (hcodebook.trans hlaid.codebook)
    pqCodes_length := congrArg length (hpqCodes.trans hlaid.pqCodes)
    rowIdOrder_length := congrArg length (hrowIdOrder.trans hlaid.rowIdOrder)
    adjacencyIndex_length := congrArg length (hindex.trans hlaid.adjacencyIndex)
    vectors_length := by
      rw [hrecordSize]
      exact congrArg length (hvectors.trans hlaid.vectors) }

/-- The header of a DiskANN file is a codec in both directions: what the
constructor of the layout returns is read back, and what the reader accepts is
written back byte for byte and describes sections that tile the file. -/
theorem header_codec :
    (∀ dimension vectorCount entryNode pqM pqBits metric build seed rowIdsLen adjacencyPages header,
      forLayoutWithAdjacencyPagesAndPqBits dimension vectorCount entryNode pqM pqBits metric build
        seed rowIdsLen adjacencyPages = .ok header →
      decode header.encode = .ok header) ∧
    ∀ bytes header, decode bytes = .ok header →
      header.encode = bytes.take diskannHeaderSize ∧ header.Tiles := by
  constructor
  · intro dimension vectorCount entryNode pqM pqBits metric build seed rowIdsLen adjacencyPages
      header h
    simp only [forLayoutWithAdjacencyPagesAndPqBits, accepted] at h
    obtain ⟨nested, hnested, rfl⟩ := h
    exact decode_encode_ofHeader hnested
  · intro bytes header h
    simp only [decode, accepted] at h
    obtain ⟨hlength, hmagic, hversion, hsize, -, hcount, hreserved, -, -, _, hlayout, rfl⟩ := h
    have hlen : 256 ≤ bytes.length := Nat.not_lt.mp hlength
    have hzeros : (bytes.drop 208).take 48 = List.replicate 48 0 := by
      apply List.eq_replicate_iff.mpr
      constructor
      · rw [List.length_take, List.length_drop]
        omega
      · simpa using hreserved
    refine ⟨?_, tiles_of_validateLayout hlayout⟩
    rw [encode, words_parse hlen (not_not.mp hmagic) (not_not.mp hversion)
      (not_not.mp hsize) (not_not.mp hcount) hzeros, flatten_cut]
    rfl

/-- A single node of dimension one, in one page. -/
def smallestBuild : DiskAnnBuildParams where
  maxDegree := 1
  buildSearchListSize := 1
  alpha := F32.one
  storageLayout := .compact
  rawVectorEncoding := .f16

def smallestHeader : IoResult DiskAnnFileHeader :=
  forLayoutWithAdjacencyPagesAndPqBits 1 1 0 1 8 .l2 smallestBuild 42 40 1

theorem header_codec_smallest :
    ∃ header, smallestHeader = .ok header ∧ decode header.encode = .ok header ∧
      header.encode = header.encode.take diskannHeaderSize ∧ header.Tiles := by
  have hok : smallestHeader.isOk = true := by decide +kernel
  obtain ⟨header, hheader⟩ := exists_ok_of_isOk hok
  have hdecode := header_codec.1 1 1 0 1 8 .l2 smallestBuild 42 40 1 header hheader
  have haccepted := header_codec.2 header.encode header hdecode
  exact ⟨header, hheader, hdecode, haccepted.1, haccepted.2⟩

end Accepted

end DiskAnnFileHeader

end PaimonVindex
