import PaimonVindex.DiskAnn.AdjacencyList
import PaimonVindex.DiskAnn.Header

/-! Adjacency lists in pages: the planner, the writers of the index and of the
pages, and the readers that validate both. -/

namespace PaimonVindex

open Checked Words

def adjacencyRawU32Flag : UInt16 := 0x8000

def adjacencyDegreeMask : UInt16 := 0x7fff

structure AdjacencyLocator where
  pageIndex : UInt32
  byteOffset : UInt16
  degreeAndFlags : UInt16
  deriving DecidableEq, Repr

namespace AdjacencyLocator

def new (pageIndex : UInt32) (byteOffset : UInt16) (degree : Nat)
    (encoding : AdjacencyListEncoding) : IoResult AdjacencyLocator := do
  let degree ← okOr (toU16 degree) (invalidInput "DiskANN adjacency degree exceeds u16")
  rejectIf (degree > adjacencyDegreeMask)
    (invalidInput "DiskANN adjacency degree exceeds locator capacity")
  let encodingFlag := match encoding with
    | .deltaVarint => 0
    | .rawU32 => adjacencyRawU32Flag
  return ⟨pageIndex, byteOffset, degree ||| encodingFlag⟩

def degree (locator : AdjacencyLocator) : Nat :=
  (locator.degreeAndFlags &&& adjacencyDegreeMask).toNat

def encoding (locator : AdjacencyLocator) : AdjacencyListEncoding :=
  if locator.degreeAndFlags &&& adjacencyRawU32Flag = 0 then .deltaVarint else .rawU32

end AdjacencyLocator

structure AdjacencyIndex where
  blockOffsets : List UInt64
  relativeOffsets : List UInt16
  degreeAndFlags : List UInt16

namespace AdjacencyIndex

def len (index : AdjacencyIndex) : Nat := index.relativeOffsets.length

def locator (index : AdjacencyIndex) (node : Nat) : Option AdjacencyLocator := do
  let relativeOffset ← index.relativeOffsets[node]?
  let degreeAndFlags ← index.degreeAndFlags[node]?
  let blockOffset ← index.blockOffsets[node / adjacencyLocatorBlockNodes]?
  let absoluteOffset ← checkedAdd blockOffset.toNat relativeOffset.toNat
  let pageIndex ← toU32 (absoluteOffset / diskannPageSize)
  let byteOffset ← toU16 (absoluteOffset % diskannPageSize)
  return ⟨pageIndex, byteOffset, degreeAndFlags⟩

/-- The binary search between `left` and `right`, of at most `fuel` rounds. -/
def partitionPointFrom (index : AdjacencyIndex) (predicate : AdjacencyLocator → Bool) :
    (fuel left right : Nat) → IoResult Nat
  | 0, left, _ => .ok left
  | fuel + 1, left, right =>
    if left < right then do
      let middle := left + (right - left) / 2
      let locator ← okOr (index.locator middle) (panicked "validated DiskANN adjacency index")
      if predicate locator then partitionPointFrom index predicate fuel (middle + 1) right
      else partitionPointFrom index predicate fuel left middle
    else .ok left

def partitionPoint (index : AdjacencyIndex) (predicate : AdjacencyLocator → Bool) :
    IoResult Nat :=
  index.partitionPointFrom predicate index.len 0 index.len

end AdjacencyIndex

def adjacencyLocatorAbsoluteOffset (locator : AdjacencyLocator) : IoResult Nat :=
  okOr (do
      let offset ← checkedMul locator.pageIndex.toNat diskannPageSize
      checkedAdd offset locator.byteOffset.toNat)
    (invalidData "DiskANN adjacency locator offset overflows")

structure AdjacencyLayout where
  locators : List AdjacencyLocator
  pageCount : Nat

/-- The page and offset of the next record, which never crosses a page. -/
def advancePage (pageIndex : UInt32) (byteOffset recordBytes : Nat) : IoResult (UInt32 × Nat) :=
  if byteOffset + recordBytes > diskannPageSize then do
    let pageIndex ← okOr (toU32 (pageIndex.toNat + 1))
      (invalidInput "DiskANN adjacency page count exceeds u32")
    return (pageIndex, 0)
  else .ok (pageIndex, byteOffset)

def planLocatorsFrom (interleavedVectorBytes : Nat) :
    UInt32 → Nat → List (List UInt32) → IoResult (List AdjacencyLocator × UInt32)
  | pageIndex, _, [] => .ok ([], pageIndex)
  | pageIndex, byteOffset, neighbors :: rest => do
    let (encoding, listBytes) ← planAdjacencyList neighbors
    let recordBytes ← okOr (checkedAdd interleavedVectorBytes listBytes)
      (invalidInput "DiskANN interleaved record size overflows usize")
    rejectIf (recordBytes > diskannPageSize)
      (invalidInput "DiskANN vector and adjacency list do not fit in a logical page")
    let (pageIndex, byteOffset) ← advancePage pageIndex byteOffset recordBytes
    let start ← okOr (toU16 (byteOffset + interleavedVectorBytes))
      (invalidInput "DiskANN adjacency byte offset exceeds u16")
    let locator ← AdjacencyLocator.new pageIndex start neighbors.length encoding
    let (locators, last) ← planLocatorsFrom interleavedVectorBytes pageIndex
      (byteOffset + recordBytes) rest
    return (locator :: locators, last)

def planAdjacencyLayout (adjacency : List (List UInt32)) (interleavedVectorBytes : Nat) :
    IoResult AdjacencyLayout := do
  let (locators, last) ← planLocatorsFrom interleavedVectorBytes 0 0 adjacency
  return ⟨locators, last.toNat + 1⟩

def locatorOffset (locators : List AdjacencyLocator) (node : Nat) : IoResult Nat := do
  let locator ← okOr locators[node]? (panicked "index out of bounds")
  adjacencyLocatorAbsoluteOffset locator

def relativeOffset (locators : List AdjacencyLocator) (node : Nat) : IoResult UInt16 := do
  let blockStart := node / adjacencyLocatorBlockNodes * adjacencyLocatorBlockNodes
  let blockOffset ← locatorOffset locators blockStart
  let offset ← locatorOffset locators node
  okOr (do toU16 (← checkedSub offset blockOffset))
    (invalidInput "DiskANN adjacency locator exceeds its block offset range")

def writeAdjacencyIndex (layout : AdjacencyLayout) : IoResult (List UInt8) := do
  let blocks := (layout.locators.length + 15) / adjacencyLocatorBlockNodes
  let blockOffsets ← (List.range blocks).mapM fun block =>
    locatorOffset layout.locators (block * adjacencyLocatorBlockNodes)
  let relativeOffsets ← (List.range layout.locators.length).mapM (relativeOffset layout.locators)
  return blockOffsets.flatMap (fun offset => u64Bytes (UInt64.ofNat offset)) ++
    relativeOffsets.flatMap u16Bytes ++
    layout.locators.flatMap fun locator => u16Bytes locator.degreeAndFlags

/-- The lists and vectors of a build in their final node order. Rows have the
index dimension and hold finite components. -/
structure PreparedDiskAnn (d : Nat) where
  adjacency : List (List UInt32)
  vectors : List (List F32)
  vectors_length : vectors.length = adjacency.length
  vector_dimension : ∀ vector ∈ vectors, vector.length = d
  vector_finite : ∀ vector ∈ vectors, ∀ x ∈ vector, x.isFinite

/-- Rounding to half precision is left to the caller. -/
def encodeRawVector (f16FromF32 : F32 → UInt16) (vector : List F32) :
    DiskAnnRawVectorEncoding → IoResult (List UInt8)
  | .f32 => .ok (vector.flatMap F32.toBytes)
  | .f16 => do
    rejectIf (vector.any fun value => !f16IsFinite (f16FromF32 value))
      (invalidInput "DiskANN vector value is outside the finite f16 range")
    return vector.flatMap fun value => u16Bytes (f16FromF32 value)

def zeroPage : List UInt8 := List.replicate diskannPageSize 0

/-- The pages completed before the buffer stands for a page `skipped` later. -/
def flushPages : Nat → List UInt8 → List (List UInt8) × List UInt8
  | 0, page => ([], page)
  | skipped + 1, page =>
    let (flushed, current) := flushPages skipped zeroPage
    (page :: flushed, current)

/-- Copying `bytes` over the page from `start` on. -/
def copyInto (page : List UInt8) (start : Nat) (bytes : List UInt8) : List UInt8 :=
  page.take start ++ bytes ++ page.drop (start + bytes.length)

def copyVector (f16FromF32 : F32 → UInt16) (build : DiskAnnBuildParams) (vector : List F32)
    (start : Nat) (page : List UInt8) : IoResult (List UInt8) :=
  match build.storageLayout with
  | .compact => .ok page
  | .interleaved => do
    let encodedVector ← encodeRawVector f16FromF32 vector build.rawVectorEncoding
    let vectorStart ← okOr (checkedSub start encodedVector.length)
      (invalidInput "DiskANN interleaved vector offset underflows")
    rejectIf (start > page.length) (panicked "range end index out of range")
    return copyInto page vectorStart encodedVector

def writePagesFrom (f16FromF32 : F32 → UInt16) (build : DiskAnnBuildParams) :
    (current : UInt32) → (page : List UInt8) →
      List (AdjacencyLocator × List UInt32 × List F32) → IoResult (List (List UInt8))
  | _, page, [] => .ok [page]
  | current, page, (locator, neighbors, vector) :: rest => do
    let (flushed, page) := flushPages (locator.pageIndex.toNat - current.toNat) page
    let (encoding, encoded) ← encodeAdjacencyList neighbors
    rejectIf (encoding ≠ locator.encoding)
      (invalidInput "DiskANN adjacency encoding changed after layout planning")
    let start := locator.byteOffset.toNat
    let page ← copyVector f16FromF32 build vector start page
    rejectIf (start + encoded.length > page.length)
      (invalidInput "DiskANN adjacency list crosses a logical page")
    let pages ← writePagesFrom f16FromF32 build (max current locator.pageIndex)
      (copyInto page start encoded) rest
    return flushed ++ pages

def writeAdjacencyPages {d : Nat} (f16FromF32 : F32 → UInt16) (build : DiskAnnBuildParams)
    (prepared : PreparedDiskAnn d) (layout : AdjacencyLayout) :
    IoResult (List (List UInt8)) := do
  rejectIf (layout.locators.length > prepared.adjacency.length) (panicked "index out of bounds")
  writePagesFrom f16FromF32 build 0 zeroPage
    (layout.locators.zip (prepared.adjacency.zip prepared.vectors))

end PaimonVindex
