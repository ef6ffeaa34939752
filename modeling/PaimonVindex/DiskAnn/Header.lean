import PaimonVindex.Float32

/-! The DiskANN build configuration and the header that its sections follow. -/

namespace PaimonVindex

open Checked

inductive DiskAnnStorageLayout where
  | compact
  | interleaved
  deriving DecidableEq, Repr

inductive DiskAnnRawVectorEncoding where
  | f32
  | f16
  deriving DecidableEq, Repr

def DiskAnnRawVectorEncoding.elementSize : DiskAnnRawVectorEncoding → Nat
  | .f32 => 4
  | .f16 => 2

structure DiskAnnBuildParams where
  maxDegree : Nat
  buildSearchListSize : Nat
  alpha : F32
  storageLayout : DiskAnnStorageLayout
  rawVectorEncoding : DiskAnnRawVectorEncoding

structure SectionRange where
  offset : Nat
  length : Nat
  deriving DecidableEq, Repr

structure DiskAnnSections where
  codebook : SectionRange
  rowIds : SectionRange
  pqCodes : SectionRange
  rowIdOrder : SectionRange
  adjacencyIndex : SectionRange
  adjacency : SectionRange
  vectors : SectionRange

structure DiskAnnHeader where
  storageLayout : DiskAnnStorageLayout
  dimension : Nat
  vectorCount : Nat
  entryNode : UInt32
  maxDegree : Nat
  buildSearchListSize : Nat
  pqM : Nat
  pqBits : Nat
  rawVectorEncoding : DiskAnnRawVectorEncoding
  vectorRecordSize : Nat
  fileLen : Nat
  sections : DiskAnnSections

def DiskAnnHeader.isInterleaved (header : DiskAnnHeader) : Bool :=
  header.storageLayout = .interleaved

/-- Bytes of the raw vector in front of every adjacency list. -/
def DiskAnnHeader.recordPrefix (header : DiskAnnHeader) : Nat :=
  if header.isInterleaved then header.vectorRecordSize else 0

def diskannPageSize : Nat := 4096

def adjacencyLocatorBlockNodes : Nat := 16

def rowIdSectionHeaderSize : Nat := 32

def pqCodebookHeaderSize : Nat := 32

def validateDiskannFormatConfiguration (dimension pqM pqBits : Nat)
    (build : DiskAnnBuildParams) : IoResult Unit := do
  rejectIf (dimension = 0) (invalidInput "DiskANN dimension must be greater than 0")
  rejectIf (pqM = 0) (invalidInput "DiskANN pq.m must be greater than 0")
  rejectIf (dimension < pqM)
    (invalidInput s!"DiskANN pq.m {pqM} must not exceed dimension {dimension}")
  rejectIf (¬(pqBits = 4 ∨ pqBits = 8)) (invalidInput "DiskANN pq.bits must be 4 or 8")
  rejectIf (build.maxDegree = 0) (invalidInput "DiskANN maximum degree must be greater than 0")
  rejectIf (build.maxDegree > 1023)
    (invalidInput ("DiskANN adjacency list size " ++
      toString (min (build.maxDegree * 4) (wordSize - 1)) ++
      " exceeds the v1 1023-neighbor page limit"))
  rejectIf (build.buildSearchListSize < build.maxDegree)
    (invalidInput ("DiskANN build search-list size " ++ toString build.buildSearchListSize ++
      " must be at least maximum degree " ++ toString build.maxDegree))
  rejectIf (¬build.buildSearchListSize < 2 ^ 32)
    (invalidInput "DiskANN build search-list size exceeds u32")
  rejectIf (build.alpha.isFinite = false ∨ build.alpha.lt F32.one = true)
    (invalidInput "DiskANN alpha must be at least 1 and finite")
  let interleavedRecordBytes := do
    let vectorBytes ← checkedMul dimension build.rawVectorEncoding.elementSize
    let adjacencyBytes ← checkedMul build.maxDegree 4
    checkedAdd vectorBytes adjacencyBytes
  rejectIf (build.storageLayout = .interleaved ∧
      interleavedRecordBytes.all (fun recordBytes => recordBytes > diskannPageSize))
    (invalidInput "DiskANN interleaved raw vector and maximum adjacency list must fit in one page")

def rawRowIdSectionLen (count : Nat) : IoResult Nat :=
  okOr (do checkedAdd (← checkedMul count 8) rowIdSectionHeaderSize)
    (invalidInput "DiskANN raw row-ID section length overflows usize")

def diskannPqKsub (pqBits : Nat) : IoResult Nat :=
  match pqBits with
  | 4 => .ok 16
  | 8 => .ok 256
  | _ => .error (invalidInput "DiskANN pq.bits must be 4 or 8")

def diskannPqCodeSize (pqM pqBits : Nat) : IoResult Nat :=
  match pqBits with
  | 4 => .ok ((pqM + 1) / 2)
  | 8 => .ok pqM
  | _ => .error (invalidInput "DiskANN pq.bits must be 4 or 8")

def pqCodebookSerializedLen (dimension pqM ksub : Nat) : IoResult Nat := do
  let offsets ← okOr (do checkedMul (← checkedAdd pqM 1) 4)
    (invalidInput "DiskANN PQ chunk-offset size overflows usize")
  let centroids ← okOr (do checkedMul (← checkedMul dimension ksub) 4)
    (invalidInput "DiskANN PQ centroid size overflows usize")
  okOr (do checkedAdd (← checkedAdd pqCodebookHeaderSize offsets) centroids)
    (invalidInput "DiskANN PQ codebook size overflows usize")

def adjacencyIndexSerializedLen (vectorCount : Nat) : IoResult Nat := do
  let blockCount := (vectorCount + 15) / adjacencyLocatorBlockNodes
  let blockBytes ← okOr (checkedMul blockCount 8)
    (invalidInput "DiskANN adjacency block-offset size overflows usize")
  let locatorBytes ← okOr (checkedMul vectorCount 4)
    (invalidInput "DiskANN adjacency locator size overflows usize")
  okOr (checkedAdd blockBytes locatorBytes)
    (invalidInput "DiskANN adjacency index size overflows usize")

def checkedMulU64 (left right : Nat) (name : String) : IoResult Nat :=
  okOr (checkedMul left right) (invalidInput s!"DiskANN {name} length overflows u64")

def sectionEnd (range : SectionRange) : IoResult Nat :=
  okOr (checkedAdd range.offset range.length) (invalidInput "DiskANN section end overflows u64")

def alignUp (value alignment : Nat) : IoResult Nat :=
  let mask := alignment - 1
  okOr ((checkedAdd value mask).map fun value => value &&& (wordSize - 1 - mask))
    (invalidInput "DiskANN section alignment overflows u64")

def checkInterleavedRecord (build : DiskAnnBuildParams) (vectorRecordSize : Nat) :
    IoResult Unit :=
  match build.storageLayout with
  | .compact => .ok ()
  | .interleaved => do
    let maximumAdjacencyBytes ← okOr (fitsIn (2 ^ 32) (build.maxDegree * 4))
      (invalidInput "DiskANN adjacency record size overflows u32")
    rejectIf ((fitsIn (2 ^ 32) (vectorRecordSize + maximumAdjacencyBytes)).all
        fun recordSize => recordSize > diskannPageSize)
      (invalidInput
        "DiskANN interleaved raw vector and maximum adjacency list do not fit in one page")

def rawVectorsLen (build : DiskAnnBuildParams) (vectorCount vectorRecordSize : Nat) :
    IoResult Nat :=
  match build.storageLayout with
  | .compact => checkedMulU64 vectorCount vectorRecordSize "raw vector records"
  | .interleaved => .ok 0

/-- The header for a graph of `vectorCount` nodes packed into
`adjacencyPages` pages. -/
def DiskAnnHeader.forLayout (dimension vectorCount : Nat) (entryNode : UInt32)
    (pqM pqBits : Nat) (build : DiskAnnBuildParams) (rowIdsLen adjacencyPages : Nat) :
    IoResult DiskAnnHeader := do
  validateDiskannFormatConfiguration dimension pqM pqBits build
  rejectIf (vectorCount = 0 ∨ ¬vectorCount < 2 ^ 32)
    (invalidInput "DiskANN vector count must be between 1 and u32::MAX")
  rejectIf (entryNode.toNat ≥ vectorCount) (invalidInput "DiskANN entry node is out of range")
  rejectIf (adjacencyPages = 0 ∨ ¬adjacencyPages < 2 ^ 32)
    (invalidInput "DiskANN adjacency page count must be between 1 and u32::MAX")
  let maximumRowIdsLen ← rawRowIdSectionLen vectorCount
  rejectIf (¬(rowIdSectionHeaderSize ≤ rowIdsLen ∧ rowIdsLen ≤ maximumRowIdsLen))
    (invalidInput "invalid DiskANN row-ID section length")
  rejectIf (¬dimension < 2 ^ 32) (invalidInput "DiskANN dimension exceeds u32")
  rejectIf (¬pqM < 2 ^ 32) (invalidInput "DiskANN pq.m exceeds u32")
  rejectIf (¬pqBits < 2 ^ 32) (invalidInput "DiskANN pq.bits exceeds u32")
  let pqKsub ← diskannPqKsub pqBits
  let pqCodeSize ← diskannPqCodeSize pqM pqBits
  rejectIf (¬build.maxDegree < 2 ^ 32) (invalidInput "DiskANN maximum degree exceeds u32")
  rejectIf (build.maxDegree = 0 ∨ build.maxDegree > 1023)
    (invalidInput "DiskANN maximum degree must be between 1 and 1023")
  rejectIf (¬build.buildSearchListSize < 2 ^ 32)
    (invalidInput "DiskANN build search-list size exceeds u32")
  let vectorRecordSize ← okOr (fitsIn (2 ^ 32) (dimension * build.rawVectorEncoding.elementSize))
    (invalidInput "DiskANN vector record size overflows u32")
  checkInterleavedRecord build vectorRecordSize
  let codebookLen ← pqCodebookSerializedLen dimension pqM pqKsub
  let pqCodesLen ← checkedMulU64 vectorCount pqCodeSize "PQ codes"
  let rowIdOrderLen ← checkedMulU64 vectorCount 4 "row-ID order"
  let adjacencyIndexLen ← adjacencyIndexSerializedLen vectorCount
  let adjacencyLen ← checkedMulU64 adjacencyPages diskannPageSize "adjacency pages"
  let vectorsLen ← rawVectorsLen build vectorCount vectorRecordSize
  let codebook : SectionRange := ⟨diskannPageSize, codebookLen⟩
  let rowIds : SectionRange := ⟨← sectionEnd codebook, rowIdsLen⟩
  let pqCodes : SectionRange := ⟨← sectionEnd rowIds, pqCodesLen⟩
  let rowIdOrder : SectionRange := ⟨← sectionEnd pqCodes, rowIdOrderLen⟩
  let adjacencyIndex : SectionRange := ⟨← sectionEnd rowIdOrder, adjacencyIndexLen⟩
  let adjacency : SectionRange :=
    ⟨← alignUp (← sectionEnd adjacencyIndex) diskannPageSize, adjacencyLen⟩
  let vectors : SectionRange := ⟨← sectionEnd adjacency, vectorsLen⟩
  let fileLen ← sectionEnd vectors
  return {
    storageLayout := build.storageLayout
    dimension := dimension
    vectorCount := vectorCount
    entryNode := entryNode
    maxDegree := build.maxDegree
    buildSearchListSize := build.buildSearchListSize
    pqM := pqM
    pqBits := pqBits
    rawVectorEncoding := build.rawVectorEncoding
    vectorRecordSize := vectorRecordSize
    fileLen := fileLen
    sections := ⟨codebook, rowIds, pqCodes, rowIdOrder, adjacencyIndex, adjacency, vectors⟩ }

/-- What a constructed header says about its inputs. -/
structure DiskAnnHeader.Describes (header : DiskAnnHeader) (d n : Nat)
    (build : DiskAnnBuildParams) (pages : Nat) : Prop where
  storageLayout : header.storageLayout = build.storageLayout
  vectorCount : header.vectorCount = n
  maxDegree : header.maxDegree = build.maxDegree
  rawVectorEncoding : header.rawVectorEncoding = build.rawVectorEncoding
  vectorRecordSize : header.vectorRecordSize = d * build.rawVectorEncoding.elementSize
  adjacencyIndexLen : adjacencyIndexSerializedLen n = .ok header.sections.adjacencyIndex.length
  adjacencyLen : header.sections.adjacency.length = pages * diskannPageSize
  vectorCount_pos : 0 < n
  vectorCount_lt : n < 2 ^ 32
  pages_lt : pages < 2 ^ 32
  dimension_pos : 0 < d

theorem DiskAnnHeader.forLayout_describes {dimension vectorCount : Nat} {entryNode : UInt32}
    {pqM pqBits : Nat} {build : DiskAnnBuildParams} {rowIdsLen adjacencyPages : Nat}
    {header : DiskAnnHeader}
    (h : forLayout dimension vectorCount entryNode pqM pqBits build rowIdsLen adjacencyPages =
      .ok header) : header.Describes dimension vectorCount build adjacencyPages := by
  simp only [forLayout, validateDiskannFormatConfiguration, accepted, fitsIn_eq_some,
    checkedMulU64] at h
  obtain ⟨⟨hdim, -⟩, hcount, -, hpages, _, -, -, -, -, -, _, -, _, -, -, -, -, h⟩ := h
  obtain ⟨_, ⟨rfl, -⟩, _, -, _, -, _, -, _, -, _, hindex, _, ⟨rfl, -⟩, h⟩ := h
  obtain ⟨_, -, _, -, _, -, _, -, _, -, _, -, _, -, _, -, _, -, hheader⟩ := h
  cases hheader
  exact {
    storageLayout := rfl
    vectorCount := rfl
    maxDegree := rfl
    rawVectorEncoding := rfl
    vectorRecordSize := rfl
    adjacencyIndexLen := hindex
    adjacencyLen := rfl
    vectorCount_pos := by omega
    vectorCount_lt := by omega
    pages_lt := by omega
    dimension_pos := by omega }

end PaimonVindex
