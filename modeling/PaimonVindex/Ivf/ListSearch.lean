import PaimonVindex.Ivf.FlatFile
import PaimonVindex.Ivf.PqSearch
import PaimonVindex.Ivf.RqFile
import PaimonVindex.Ivf.SqFile

/-! The searches of the IVF-FLAT, IVF-SQ and IVF-RQ readers. They end by filling
the result up to `k` rows. -/

namespace PaimonVindex

open Checked VectorKernels

variable {K : Type} [Scalar K] [VectorKernels K]

def passes (filter : Option RowIdFilter) (id : Int64) : Bool := filter.elim true (· id)

def preparedQuery (metric : MetricType) (query : List K) : List K :=
  if metric = .cosine then normalize query else query

section Flat

def parallelFlatScanMinComponents : Nat := 1024 * 1024

def scanFlatRow {k : Nat} (query : List K) (metric : MetricType) (id : Int64) (vector : List K)
    (heap : ReaderTopKHeap K k) : ReaderTopKHeap K k :=
  if metric = .l2 then
    match l2sqrUnlessExceeds query vector heap.cutoff with
    | some distance => heap.push (distance, id)
    | none => heap
  else heap.push (distanceTo metric query vector, id)

def scanFlatRows {k : Nat} (query : List K) (d : Nat) (metric : MetricType)
    (filter : Option RowIdFilter) (ids : List Int64) (vectors : List K)
    (heap : ReaderTopKHeap K k) : ReaderTopKHeap K k :=
  (List.range ids.length).foldl (fun heap position =>
    if passes filter (ids.getD position 0) then
      scanFlatRow query metric (ids.getD position 0) (row vectors d position) heap
    else heap) heap

namespace IVFFlatIndexReader

def scanBatch (self : IVFFlatIndexReader K) (q : List K) (filter : Option RowIdFilter)
    (listIds : List Nat) (heap : ReaderTopKHeap K k) : IoResult (ReaderTopKHeap K k) := do
  let lists ← self.readInvertedLists listIds
  let scan (list : FlatListData K) (heap : ReaderTopKHeap K k) :=
    scanFlatRows q self.d self.metric filter list.ids list.vectors heap
  let scanComponents := (lists.map (·.ids.length)).sum * self.d
  if 1 < lists.length ∧ parallelFlatScanMinComponents ≤ scanComponents then
    let perListResults := lists.map fun list => (scan list (ReaderTopKHeap.new k)).intoSorted
    return perListResults.foldl (fun heap results => results.foldl ReaderTopKHeap.push heap) heap
  else return lists.foldl (fun heap list => scan list heap) heap

def searchWithFilter (self : IVFFlatIndexReader K) (query : List K) (k nprobe : Nat)
    (filter : Option RowIdFilter) : IoResult (List Int64 × List K) := do
  let self ← self.ensureLoaded
  queryChecks query.length self.d k nprobe
  let q := preparedQuery self.metric query
  let probes := (findTopk q self.quantizerCentroids self.nlist self.d nprobe).map Prod.snd
  let heap ← scanListBatches
    (fun listId => do return ivfPayloadIsOversized (← self.listPayloadLen listId))
    self.batchReadEnd
    (fun listId heap => self.forEachStreamedListChunk listId (fun ids vectors heap =>
      .ok (scanFlatRows q self.d self.metric filter ids vectors heap)) heap)
    (self.scanBatch q filter) probes (ReaderTopKHeap.new k)
  return paddedResults k heap.intoSorted

end IVFFlatIndexReader

end Flat

section Sq

def parallelSqScanMinCandidates : Nat := 8 * 1024

/-- The cutoff of the scan is taken once, before its first row. -/
def scanSqRows {k : Nat} (query centroid : List K) (sq : ScalarQuantizer K) (metric : MetricType)
    (filter : Option RowIdFilter) (ids : List Int64) (codes : List UInt8)
    (heap : Topk.TopKHeap K k) : Topk.TopKHeap K k :=
  let cutoff := heap.distanceLimit
  (List.range ids.length).foldl (fun heap position =>
    if passes filter (ids.getD position 0) then
      let distance := sqDistance query codes ids.length centroid sq.mins sq.maxs metric
        cutoff position
      if Scalar.isFinite distance ∧ Scalar.ge distance cutoff then heap
      else heap.collect (distance, ids.getD position 0)
    else heap) heap

namespace IVFSQIndexReader

def scanList {k : Nat} (self : IVFSQIndexReader K) (q : List K) (filter : Option RowIdFilter)
    (listId : Nat) (ids : List Int64) (codes : List UInt8) (heap : Topk.TopKHeap K k) :
    Topk.TopKHeap K k :=
  scanSqRows q (row self.quantizerCentroids self.d listId) (self.listSqs.getD listId self.sq)
    self.metric filter ids codes heap

/-- A large batch scans its first list into the heap and the others, bounded by
the distance reached, into heaps of their own. -/
def scanBatch (self : IVFSQIndexReader K) (q : List K) (filter : Option RowIdFilter)
    (listIds : List Nat) (heap : Topk.TopKHeap K k) : IoResult (Topk.TopKHeap K k) := do
  let lists ← self.readInvertedLists listIds
  let scan (list : SqListData) (heap : Topk.TopKHeap K k) :=
    self.scanList q filter list.listId list.ids list.codes heap
  match lists with
  | [] => return heap
  | first :: rest =>
    if parallelSqScanMinCandidates ≤ (lists.map (·.ids.length)).sum then
      let heap := scan first heap
      let cutoff := heap.distanceLimit
      let perListResults := rest.map fun list =>
        (scan list (Topk.TopKHeap.withMaxDistance k cutoff)).intoSorted
      return perListResults.foldl (fun heap results => results.foldl Topk.TopKHeap.push heap) heap
    else return lists.foldl (fun heap list => scan list heap) heap

def searchWithFilter (self : IVFSQIndexReader K) (query : List K) (k nprobe : Nat)
    (filter : Option RowIdFilter) : IoResult (List Int64 × List K) := do
  validateSearchInputs query.length 1 self.d k nprobe
  let q := preparedQuery self.metric query
  let probes := (findTopk q self.quantizerCentroids self.nlist self.d nprobe).map Prod.snd
  let heap ← scanListBatches
    (fun listId => do return ivfPayloadIsOversized (← self.listPayloadLen listId))
    self.batchReadEnd
    (fun listId heap => self.forEachStreamedListChunk listId (fun ids codes heap =>
      .ok (self.scanList q filter listId ids codes heap)) heap)
    (self.scanBatch q filter) probes (Topk.TopKHeap.new k)
  return paddedResults k heap.intoSorted

end IVFSQIndexReader

end Sq

section Rq

def parallelRqScanMinCandidates : Nat := 8 * 1024

def fastscanMinPaddedDimension : Nat := 256

def maxRqBatchReadBytes : Nat := 64 * 1024 * 1024

/-- The estimates of the rows of a list for a query. -/
structure RqEstimates (K : Type) where
  oneBit : (position : Nat) → K
  lowerBound : (fastscan : Bool) → (position : Nat) → K
  full : (position : Nat) → K
  /-- The full estimate of a fast scan less its error. -/
  fullLess : (position : Nat) → K
  exact : (position : Nat) → K

/-- The reader of the file; the estimates are taken as given. -/
structure IVFRQIndexReader (K : Type) extends IVFRQFileReader K where
  estimates : (query : List K) → (coarseDistance : K) → RQReadList K → RqEstimates K

namespace IVFRQIndexReader

def collectRow {k : Nat} (heap : Topk.TopKHeap K k) (distance : K) (id : Int64) :
    Topk.TopKHeap K k :=
  if heap.shouldConsider distance then heap.push (distance, id) else heap

variable {k : Nat} (self : IVFRQIndexReader K)

/-- Which rows of a block are refined is decided before any of them is pushed. -/
def scanBlock (estimates : RqEstimates K) (filter : Option RowIdFilter) (ids : List Int64)
    (blockStart lanes : Nat) (heap : Topk.TopKHeap K k) : Topk.TopKHeap K k :=
  let positions := (List.range lanes).map (blockStart + ·)
  let allowed := positions.filter fun position => passes filter (ids.getD position 0)
  let fastscan := decide (1 < self.numBits ∧ fastscanMinPaddedDimension ≤ self.paddedD ∧
    filter.isNone ∧ lanes = rqScanBlockSize)
  if self.numBits = 1 then
    allowed.foldl (fun heap position =>
      collectRow heap (estimates.oneBit position) (ids.getD position 0)) heap
  else
    let refined := allowed.filter fun position =>
      heap.shouldConsider (estimates.lowerBound fastscan position)
    refined.foldl (fun heap position =>
      if fastscan then
        if heap.shouldConsider (estimates.fullLess position) then
          collectRow heap (estimates.exact position) (ids.getD position 0)
        else heap
      else collectRow heap (estimates.full position) (ids.getD position 0)) heap

def scanBlockedList (estimates : RqEstimates K) (filter : Option RowIdFilter) (ids : List Int64)
    (vectorLimit : Nat) (heap : Topk.TopKHeap K k) : Topk.TopKHeap K k :=
  let scanEnd := min ids.length vectorLimit
  (List.range ((scanEnd + rqScanBlockSize - 1) / rqScanBlockSize)).foldl (fun heap block =>
    self.scanBlock estimates filter ids (block * rqScanBlockSize)
      (min (scanEnd - block * rqScanBlockSize) rqScanBlockSize) heap) heap

/-- Empty lists count neither as a range nor as bytes. -/
def batchReadEndFrom (self : IVFRQIndexReader K) : (index payloadBytes requestCount : Nat) →
    List Nat → IoResult Nat
  | index, _, _, [] => .ok index
  | index, payloadBytes, requestCount, listId :: rest => do
    match ← self.listPayloadMeta listId with
    | none => self.batchReadEndFrom (index + 1) payloadBytes requestCount rest
    | some read =>
      if rangeLimit self.reader.maxRangesPerPread ≤ requestCount then return index
      else do
        let next ← okOr (checkedAdd payloadBytes read.payloadLen)
          (invalidData "IVF-RQ batch payload overflow")
        if 0 < index ∧ maxRqBatchReadBytes < next then return index
        else self.batchReadEndFrom (index + 1) next (requestCount + 1) rest

def loadedList (lists : List (RQReadList K)) (listId : Nat) : Option (RQReadList K) :=
  (lists.filter (·.listId = listId)).getLast?

def listEstimates (q : List K) (probes : List (K × Nat)) (list : RQReadList K) : RqEstimates K :=
  self.estimates q (((probes.find? (·.2 = list.listId)).map Prod.fst).getD Scalar.maxValue) list

/-- A large batch first scans the start of one list to have a threshold. -/
def scanBatch (q : List K) (probes : List (K × Nat)) (filter : Option RowIdFilter)
    (listIds : List Nat) (heap : Topk.TopKHeap K k) : IoResult (Topk.TopKHeap K k) := do
  let lists ← self.readInvertedLists listIds
  let scan (list : RQReadList K) (limit : Nat) (heap : Topk.TopKHeap K k) :=
    self.scanBlockedList (self.listEstimates q probes list) filter list.ids limit heap
  if parallelRqScanMinCandidates ≤ (lists.map (·.ids.length)).sum then
    let seeds := (lists.filter (·.ids ≠ [])).take 1
    let heap := seeds.foldl (fun heap list => scan list rqScanBlockSize heap) heap
    let threshold := heap.worstDistance.getD Scalar.infinity
    let perListResults := lists.map fun list =>
      (scan list list.ids.length (Topk.TopKHeap.withMaxDistance k threshold)).intoSorted
    return perListResults.foldl (fun heap results => results.foldl Topk.TopKHeap.push heap) heap
  else
    return probes.foldl (fun heap probe =>
      match loadedList lists probe.2 with
      | none => heap
      | some list => scan list list.ids.length heap) heap

def searchWithFilter (query : List K) (k nprobe : Nat) (filter : Option RowIdFilter) :
    IoResult (List Int64 × List K) := do
  let loaded ← self.ensureLoaded
  let self := { self with toIVFRQFileReader := loaded }
  validateSearchInputs query.length 1 self.d k nprobe
  let q := preparedQuery self.metric query
  let probes := findTopk q self.quantizerCentroids self.nlist self.d nprobe
  let uniqueLists := probes.foldl (fun seen probe =>
    if probe.2 ∈ seen then seen else seen ++ [probe.2]) []
  let heap ← scanListBatches (fun _ => .ok false) (self.batchReadEndFrom 0 0 0)
    (fun _ heap => .ok heap) (self.scanBatch q probes filter) uniqueLists (Topk.TopKHeap.new k)
  -- The result starts as missing rows and is overwritten from the front.
  return (heap.intoSorted.zipIdx.foldl (fun ids row => ids.set row.2 row.1.2)
      (List.replicate k (-1)),
    heap.intoSorted.zipIdx.foldl (fun distances row => distances.set row.2 row.1.1)
      (List.replicate k Scalar.maxValue))

end IVFRQIndexReader

end Rq

section Padding

variable {query : List K} {k nprobe : Nat} {filter : Option RowIdFilter}
  {result : List Int64 × List K}

theorem IVFFlatIndexReader.searchWithFilter_padded {self : IVFFlatIndexReader K}
    (h : self.searchWithFilter query k nprobe filter = .ok result) : Padded k result := by
  simp only [searchWithFilter, accepted] at h
  obtain ⟨_, -, _, -, heap, -, rfl⟩ := h
  exact ⟨heap.intoSorted, (sortedCandidates_length _).trans_le heap.bounded, rfl⟩

theorem IVFSQIndexReader.searchWithFilter_padded {self : IVFSQIndexReader K}
    (h : self.searchWithFilter query k nprobe filter = .ok result) : Padded k result := by
  simp only [searchWithFilter, accepted] at h
  obtain ⟨_, -, heap, -, rfl⟩ := h
  exact ⟨heap.intoSorted, (sortedCandidates_length _).trans_le heap.bounded, rfl⟩

theorem IVFRQIndexReader.searchWithFilter_padded {self : IVFRQIndexReader K}
    (h : self.searchWithFilter query k nprobe filter = .ok result) : Padded k result := by
  simp only [searchWithFilter, accepted] at h
  obtain ⟨_, -, _, -, heap, -, rfl⟩ := h
  have hbound : heap.intoSorted.length ≤ k := (sortedCandidates_length _).trans_le heap.bounded
  refine ⟨heap.intoSorted, hbound, ?_⟩
  rw [paddedResults, foldl_set_eq_resize Prod.snd _ _ _ hbound,
    foldl_set_eq_resize Prod.fst _ _ _ hbound]

end Padding

end PaimonVindex
