import PaimonVindex.DiskAnn.Layout

/-! Decoding the adjacency index and validating the pages it points into. -/

namespace PaimonVindex

open Checked Words

/-- What the index validation remembers of the node before. -/
structure PreviousLocator where
  page : Nat
  offset : Nat
  degree : Nat
  encoding : AdjacencyListEncoding

def validateFollowing (recordPrefix node : Nat) (previous : PreviousLocator)
    (locator : AdjacencyLocator) : IoResult Unit :=
  let offset := locator.byteOffset.toNat
  if locator.pageIndex.toNat = previous.page then
    if node ≠ 0 then
      match previous.encoding with
      | .deltaVarint =>
        rejectIf (offset < previous.offset + (if previous.degree ≠ 0 then 1 else 0) + recordPrefix)
          (invalidData "DiskANN adjacency locator ranges overlap")
      | .rawU32 =>
        rejectIf (offset ≠ previous.offset + previous.degree * 4 + recordPrefix)
          (invalidData "DiskANN adjacency locator ranges must be contiguous")
    else .ok ()
  else rejectIf (offset ≠ recordPrefix)
    (invalidData "DiskANN adjacency page has an invalid first record offset")

variable (header : DiskAnnHeader)

def validateLocator (pageCount node : Nat) (relativeOffset : UInt16) (previous : PreviousLocator)
    (locator? : Option AdjacencyLocator) : IoResult PreviousLocator := do
  rejectIf (node % adjacencyLocatorBlockNodes = 0 ∧ relativeOffset ≠ 0)
    (invalidData "DiskANN adjacency locator block must start at relative offset zero")
  let locator ← okOr locator? (invalidData "DiskANN adjacency locator offset is invalid")
  let page := locator.pageIndex.toNat
  let offset := locator.byteOffset.toNat
  rejectIf (page ≥ pageCount) (invalidData "DiskANN adjacency locator page is out of range")
  rejectIf (node = 0 ∧ page ≠ 0) (invalidData "DiskANN adjacency locator must start on page zero")
  rejectIf (page < previous.page ∨ page > previous.page + if node ≠ 0 then 1 else 0)
    (invalidData "DiskANN adjacency locator pages are not monotonic")
  rejectIf (locator.degree > header.maxDegree)
    (invalidData "DiskANN adjacency degree exceeds maximum")
  rejectIf (offset < header.recordPrefix ∨ offset > diskannPageSize)
    (invalidData "DiskANN adjacency locator offset exceeds its page")
  rejectIf (locator.encoding = .rawU32 ∧ offset + locator.degree * 4 > diskannPageSize)
    (invalidData "DiskANN adjacency locator crosses a page")
  rejectIf (node = 0 ∧ offset ≠ header.recordPrefix)
    (invalidData "DiskANN adjacency index has an invalid first record offset")
  validateFollowing header.recordPrefix node previous locator
  return ⟨page, offset, locator.degree, locator.encoding⟩

def validateLocatorsFrom (header : DiskAnnHeader) (index : AdjacencyIndex) (pageCount : Nat) :
    Nat → List UInt16 → PreviousLocator → IoResult PreviousLocator
  | _, [], previous => .ok previous
  | node, relativeOffset :: rest, previous => do
    let previous ← validateLocator header pageCount node relativeOffset previous
      (index.locator node)
    validateLocatorsFrom header index pageCount (node + 1) rest previous

def validateAdjacencyIndex (index : AdjacencyIndex) : IoResult Unit := do
  rejectIf (index.len ≠ header.vectorCount ∨ index.degreeAndFlags.length ≠ index.len ∨
      index.blockOffsets.length ≠ (index.len + 15) / adjacencyLocatorBlockNodes)
    (invalidData "DiskANN adjacency index has an invalid locator count")
  let pageCount ← okOr (fitsIn (2 ^ 32) (header.sections.adjacency.length / diskannPageSize))
    (invalidData "DiskANN adjacency page count exceeds u32")
  let last ← validateLocatorsFrom header index pageCount 0 index.relativeOffsets
    ⟨0, 0, 0, .deltaVarint⟩
  rejectIf (fitsIn (2 ^ 32) (last.page + 1) ≠ some pageCount)
    (invalidData "DiskANN adjacency pages are not fully indexed")

def decodeAdjacencyIndex (bytes : List UInt8) (header : DiskAnnHeader) :
    IoResult AdjacencyIndex := do
  let sectionLen := header.sections.adjacencyIndex.length
  let locatorCount := header.vectorCount
  let expectedLen ← adjacencyIndexSerializedLen locatorCount
  rejectIf (sectionLen ≠ expectedLen)
    (invalidData "DiskANN adjacency index has an invalid byte length")
  let blockCount := (locatorCount + 15) / adjacencyLocatorBlockNodes
  let blockBytes ← okOr (checkedMul blockCount 8)
    (invalidData "DiskANN adjacency block-offset size overflows usize")
  let relativeBytes ← okOr (checkedMul locatorCount 2)
    (invalidData "DiskANN adjacency relative-offset size overflows usize")
  rejectIf (bytes.length ≠ sectionLen)
    (invalidData "DiskANN adjacency index payload is truncated")
  let metadataOffset ← okOr (checkedAdd blockBytes relativeBytes)
    (invalidData "DiskANN adjacency metadata position overflows")
  let index : AdjacencyIndex := {
    blockOffsets := (chunksExact 8 (bytes.take blockBytes)).map u64OfBytes
    relativeOffsets :=
      (chunksExact 2 ((bytes.take metadataOffset).drop blockBytes)).map u16OfBytes
    degreeAndFlags := (chunksExact 2 (bytes.drop metadataOffset)).map u16OfBytes }
  validateAdjacencyIndex header index
  return index

def validateRawVectorBytes (vector : List UInt8) (encoding : DiskAnnRawVectorEncoding) :
    IoResult Unit :=
  let hasNonFinite : Bool := match encoding with
    | .f32 => (chunksExact 4 vector).any fun value => !(F32.ofBytes value).isFinite
    | .f16 => (chunksExact 2 vector).any fun value => !f16IsFinite (u16OfBytes value)
  rejectIf (vector.length % encoding.elementSize ≠ 0 ∨ hasNonFinite = true)
    (invalidData "DiskANN interleaved raw vector contains a non-finite or malformed component")

def validateNeighbors (vectorCount source : Nat) :
    Option UInt32 → List UInt32 → IoResult Unit
  | _, [] => .ok ()
  | previous, neighbor :: rest => do
    rejectIf (neighbor.toNat ≥ vectorCount)
      (invalidData "DiskANN adjacency neighbor is out of range")
    rejectIf (neighbor.toNat = source) (invalidData "DiskANN adjacency contains a self edge")
    rejectIf (previous.any fun previous => neighbor ≤ previous)
      (invalidData "DiskANN adjacency neighbors must be strictly increasing")
    validateNeighbors vectorCount source (some neighbor) rest

def validateInterleavedVector (page : List UInt8) (recordStart start : Nat) : IoResult Unit :=
  if header.isInterleaved then do
    let vector ← okOr (getRange page recordStart start)
      (invalidData "DiskANN interleaved raw vector is truncated")
    validateRawVectorBytes vector header.rawVectorEncoding
  else .ok ()

def minimalEncoding (neighbors : List UInt32) : IoResult AdjacencyListEncoding := do
  let rawLen ← okOr (checkedMul neighbors.length 4)
    (invalidData "DiskANN adjacency list size overflows usize")
  let deltaLen ← okOr (adjacencyDeltaVarintLen neighbors)
    (panicked "validated DiskANN adjacency neighbors are strictly increasing")
  return if neighbors.isEmpty ∨ deltaLen < rawLen then .deltaVarint else .rawU32

def validateRecord (locators : AdjacencyIndex) (page : List UInt8) (source usedEnd : Nat) :
    IoResult Nat := do
  let locator ← okOr (locators.locator source)
    (invalidData "DiskANN adjacency index is truncated")
  let start := locator.byteOffset.toNat
  let recordStart ← okOr (checkedSub start header.recordPrefix)
    (invalidData "DiskANN interleaved vector offset underflows")
  rejectIf (recordStart ≠ usedEnd)
    (invalidData "DiskANN adjacency page records must be contiguous")
  validateInterleavedVector header page recordStart start
  let bytes ← okOr (getRange page start page.length)
    (invalidData "DiskANN adjacency list is truncated")
  let (neighbors, consumed) ← decodeAdjacencyList bytes locator.degree locator.encoding
  let listEnd ← okOr (checkedAdd start consumed)
    (invalidData "DiskANN adjacency locator range overflows")
  rejectIf ((locators.locator (source + 1)).any fun next =>
      next.pageIndex = locator.pageIndex ∧
        checkedAdd listEnd header.recordPrefix ≠ some next.byteOffset.toNat)
    (invalidData "DiskANN adjacency locator ranges must be contiguous")
  validateNeighbors header.vectorCount source none neighbors
  rejectIf (locator.encoding ≠ (← minimalEncoding neighbors))
    (invalidData "DiskANN adjacency list does not use its minimal encoding")
  return listEnd

def validateRecordsFrom (header : DiskAnnHeader) (locators : AdjacencyIndex)
    (page : List UInt8) : (remaining source usedEnd : Nat) → IoResult Nat
  | 0, _, usedEnd => .ok usedEnd
  | remaining + 1, source, usedEnd => do
    let listEnd ← validateRecord header locators page source usedEnd
    validateRecordsFrom header locators page remaining (source + 1) listEnd

def validateAdjacencyPagePayload (locators : AdjacencyIndex) (pageIndex : Nat) (page : List UInt8) :
    IoResult Unit := do
  rejectIf (page.length ≠ diskannPageSize) (invalidData "DiskANN adjacency page is truncated")
  let first ← locators.partitionPoint fun locator => locator.pageIndex.toNat < pageIndex
  let finish ← locators.partitionPoint fun locator => locator.pageIndex.toNat ≤ pageIndex
  rejectIf (first = finish) (invalidData "DiskANN adjacency page has no indexed nodes")
  let usedEnd ← validateRecordsFrom header locators page (finish - first) first 0
  rejectIf (usedEnd > page.length) (panicked "range start index out of range")
  rejectIf ((page.drop usedEnd).any fun byte => byte ≠ 0)
    (invalidData "DiskANN adjacency page tail must be zero")

end PaimonVindex
