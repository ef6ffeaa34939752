import Mathlib.Algebra.Order.BigOperators.Group.List
import PaimonVindex.Ivf.PqScan

/-! The search of an IVF-PQ reader, and how many rows it returns: never more
than it finds, and nothing is added to a short result. -/

namespace PaimonVindex

open Checked VectorKernels TopKHeap List

/-- A list that a query reads, with the start value of its distances. -/
structure ProbedList (K : Type) where
  listId : Nat
  count : Nat
  dis0 : K

def queryChecks (queryLen d k nprobe : Nat) : IoResult Unit := do
  rejectIf (queryLen ≠ d)
    (invalidInput s!"query length {queryLen} does not match index dimension {d}")
  rejectIf (k = 0) (invalidInput "k must be greater than 0")
  rejectIf (nprobe = 0) (invalidInput "nprobe must be greater than 0")

namespace IVFPQIndexReader

variable {K : Type}

def listIsOversized (self : IVFPQIndexReader K) (list : ProbedList K) : IoResult Bool := do
  return ivfPayloadIsOversized (← self.listPayloadLen list.listId)

theorem batch_not_oversized {self : IVFPQIndexReader K} {first : ProbedList K}
    {rest : List (ProbedList K)} {taken : Nat} (hfirst : self.listIsOversized first = .ok false)
    (h : self.batchReadEnd ((first :: rest).map (·.listId)) = .ok taken) :
    ∀ list ∈ (first :: rest).take (max taken 1), self.listIsOversized list = .ok false := by
  simp only [batchReadEnd, listIsOversized, accepted] at h hfirst
  obtain ⟨lens, hlens, hend⟩ := h
  obtain ⟨len, hlen, hsmall⟩ := hfirst
  have hall := forall₂_map_left_iff.mp (mapM_eq_ok.mp hlens)
  obtain ⟨len', rest', hlen', -, rfl⟩ := forall₂_cons_left_iff.mp hall
  cases hlen.symm.trans hlen'
  obtain ⟨hpos, -, hbytes⟩ := boundedIvfPayloadBatchEnd_within hend
  rw [Nat.max_eq_left hpos]
  intro list hlist
  obtain ⟨other, hother, hfits⟩ := fits_of_sum_le (forall₂_take taken hall)
    (hbytes hsmall) list hlist
  rw [listIsOversized, hother, ok_bind, hfits, pure_eq_ok]

def checkReadList (item : ProbedList K × InvertedListPayload) :
    IoResult (ProbedList K × InvertedListPayload) := do
  rejectIf (item.1.listId ≠ item.2.listId)
    (invalidData "batched inverted list read returned lists out of order")
  rejectIf (item.1.count ≠ item.2.ids.length)
    (invalidData "batched inverted list read returned an unexpected row count")
  return item

theorem checkReadList_eq {item item' : ProbedList K × InvertedListPayload}
    (h : checkReadList item = .ok item') : item' = item := by
  simp only [checkReadList, accepted] at h
  exact h.2.2.symm

theorem mapM_checkReadList_eq {items items' : List (ProbedList K × InvertedListPayload)}
    (h : items.mapM checkReadList = .ok items') : items' = items := by
  have hall := mapM_eq_ok.mp h
  exact (forall₂_eq_eq_eq ▸ hall.imp fun _ _ hx => (checkReadList_eq hx).symm).symm

variable [Add K] [Sub K] [Mul K] [Neg K] [Zero K] [One K] [Scalar K] [VectorKernels K]

def rotate (rotation : List K) (d : Nat) (x : List K) : List K :=
  (List.range d).map fun i => innerProduct (row rotation d i) x

section

variable {k : Nat} (self : IVFPQIndexReader K)

def prepareQuery (query : List K) : List K :=
  let q := if self.metric = .cosine then normalize query else query
  match self.rotation with
  | none => q
  | some rotation => rotate rotation self.d q

def probe (q : List K) (nprobe : Nat) : List (K × Nat) :=
  findTopk q self.quantizerCentroids self.nlist self.d nprobe

def probedList (probe : K × Nat) : Option (ProbedList K) :=
  let count := (self.entry probe.2).rows
  if count = 0 then none
  else some ⟨probe.2, count, if self.usablePrecomputedTable.isSome then probe.1 else 0⟩

def listsToRead (q : List K) (nprobe : Nat) : List (ProbedList K) :=
  ((self.probe q nprobe).filterMap self.probedList).mergeSort fun a b =>
    (self.entry a.listId).offset ≤ (self.entry b.listId).offset

def scannedRows (q : List K) (filter : Option RowIdFilter) (list : ProbedList K)
    (ids : List Int64) (codes : List UInt8) : List (Candidate K) :=
  self.scanReaderCodes (self.fillReaderSimTable q list.listId) codes ids list.dis0
    (matchingRows ids filter)

def scanStreamedList (q : List K) (filter : Option RowIdFilter) (list : ProbedList K)
    (heap : TopKHeap K k) : IoResult (TopKHeap K k) :=
  self.tryForEachStreamedListChunk list.listId
    (fun ids codes heap => .ok (heap.pushAll (self.scannedRows q filter list ids codes))) heap

def scanBatch (q : List K) (filter : Option RowIdFilter) (lists : List (ProbedList K))
    (heap : TopKHeap K k) : IoResult (TopKHeap K k) := do
  let readLists ← self.readInvertedListPayloads (lists.map (·.listId))
  let listData ← (lists.zip readLists).mapM checkReadList
  let perListResults := listData.map fun item =>
    ((new k).pushAll (self.scannedRows q filter item.1 item.2.ids item.2.codes)).intoSorted
  return perListResults.foldl pushAll heap

def searchHeap (query : List K) (k nprobe : Nat) (filter : Option RowIdFilter) :
    IoResult (TopKHeap K k) := do
  let self ← self.ensureLoaded
  queryChecks query.length self.d k nprobe
  let q := self.prepareQuery query
  scanListBatches self.listIsOversized (fun lists => self.batchReadEnd (lists.map (·.listId)))
    (self.scanStreamedList q filter) (self.scanBatch q filter) (self.listsToRead q nprobe)
    (new k)

def searchWithReaderFilter (query : List K) (k nprobe : Nat) (filter : Option RowIdFilter) :
    IoResult (List Int64 × List K) := do
  let heap ← self.searchHeap query k nprobe filter
  return (heap.intoSorted.map Prod.snd, heap.intoSorted.map Prod.fst)

def listRows (q : List K) (filter : Option RowIdFilter) (list : ProbedList K) :
    IoResult (List (Candidate K)) := do
  if ← self.listIsOversized list then
    self.tryForEachStreamedListChunk list.listId
      (fun ids codes rows => .ok (rows ++ self.scannedRows q filter list ids codes)) []
  else do
    let read ← readPlannedList self.reader self.planListRead decodeDeltaListPayload
      (fun listId => ⟨listId, [], []⟩) list.listId
    return self.scannedRows q filter list read.ids read.codes

def candidates (query : List K) (nprobe : Nat) (filter : Option RowIdFilter) :
    IoResult (List (Candidate K)) := do
  let self ← self.ensureLoaded
  let q := self.prepareQuery query
  let found ← (self.listsToRead q nprobe).mapM (self.listRows q filter)
  return found.flatten

end

section Candidates

variable {self : IVFPQIndexReader K} {q : List K} {filter : Option RowIdFilter} {k : Nat}

theorem scanStreamedList_rows {list : ProbedList K} {heap heap' : TopKHeap K k}
    (hlarge : self.listIsOversized list = .ok true)
    (h : self.scanStreamedList q filter list heap = .ok heap') :
    ∃ rows, self.listRows q filter list = .ok rows ∧ heap' = heap.pushAll rows := by
  obtain ⟨rows, hrows, hheap⟩ := tryForEachStreamedListChunk_simulates
    (R := fun current rows => current = heap.pushAll rows)
    (fun ids codes rows => .ok (rows ++ self.scannedRows q filter list ids codes))
    (by
      rintro ids codes current rows next rfl hnext
      cases hnext
      exact ⟨_, rfl, (pushAll_append _ _ _).symm⟩)
    (show heap = heap.pushAll [] from rfl) h
  refine ⟨rows, ?_, hheap⟩
  rw [listRows, hlarge, ok_bind, if_pos rfl, hrows]

theorem scanBatch_rows (hloaded : self.loaded = true) {lists : List (ProbedList K)}
    (hsmall : ∀ list ∈ lists, self.listIsOversized list = .ok false)
    {heap heap' : TopKHeap K k} (h : self.scanBatch q filter lists heap = .ok heap') :
    ∃ found, lists.mapM (self.listRows q filter) = .ok found ∧
      heap.Absorbs found.flatten heap' := by
  simp only [scanBatch, accepted] at h
  obtain ⟨readLists, hread, items, hitems, rfl⟩ := h
  rw [readInvertedListPayloads, ensureLoaded_of_loaded hloaded, ok_bind] at hread
  have heach := forall₂_map_left_iff.mp (readPlannedLists_ok hread)
  rw [mapM_checkReadList_eq hitems]
  refine ⟨(lists.zip readLists).map fun item =>
    self.scannedRows q filter item.1 item.2.ids item.2.codes, ?_, ?_⟩
  · rw [mapM_eq_ok]
    clear hread hitems
    induction heach with
    | nil => exact List.Forall₂.nil
    | @cons list read lists readLists hlist _ ih =>
      refine List.Forall₂.cons ?_ (ih fun l hl => hsmall l (mem_cons_of_mem _ hl))
      rw [listRows, hsmall list mem_cons_self, ok_bind, if_neg Bool.false_ne_true, hlist,
        ok_bind]
      rfl
  · have hfold := foldl_absorbs_local ((lists.zip readLists).map fun item =>
      self.scannedRows q filter item.1 item.2.ids item.2.codes) heap
    rwa [map_map] at hfold

variable {nprobe : Nat} {query : List K}

theorem searchHeap_absorbs {heap : TopKHeap K k}
    (h : self.searchHeap query k nprobe filter = .ok heap) :
    ∃ rows, self.candidates query nprobe filter = .ok rows ∧
      (new k).Absorbs rows heap := by
  simp only [searchHeap, bind_eq_ok] at h
  obtain ⟨loaded, hload, -, -, h⟩ := h
  have hloaded := ensureLoaded_loaded hload
  obtain ⟨found, hfound, habsorbs⟩ := scanListBatches_steps Absorbs
    (loaded.listRows (loaded.prepareQuery query) filter) Absorbs.refl
    (fun hxs hys => hxs.append hys)
    (by
      intro list heap heap' hlarge hstream
      obtain ⟨rows, hrows, rfl⟩ := scanStreamedList_rows hlarge hstream
      exact ⟨rows, hrows, absorbs_pushAll heap rows⟩)
    (by
      intro first rest taken heap heap' hfirst hend hbatch
      exact scanBatch_rows hloaded (batch_not_oversized hfirst hend) hbatch) h
  refine ⟨found.flatten, ?_, habsorbs⟩
  simp only [candidates, hload, ok_bind, hfound, pure_eq_ok]

omit [Add K] [Sub K] [Mul K] [Neg K] [One K] in
theorem listsToRead_subperm (self : IVFPQIndexReader K) (q : List K) {wider : Nat}
    (h : nprobe ≤ wider) : (self.listsToRead q nprobe).Subperm (self.listsToRead q wider) := by
  have hprobe : (self.probe q nprobe).Sublist (self.probe q wider) := by
    rw [probe, probe, ← findTopk_take h]
    exact take_sublist _ _
  have hlists := (hprobe.filterMap self.probedList).subperm
  exact (mergeSort_perm _ _).subperm.trans
    (hlists.trans (mergeSort_perm _ _).symm.subperm)

/-- The number of candidates of a list that are not NaN. -/
def eligibleRows (self : IVFPQIndexReader K) (q : List K) (filter : Option RowIdFilter)
    (list : ProbedList K) : Nat :=
  match self.listRows q filter list with
  | .ok rows => (eligible rows).length
  | .error _ => 0

theorem eligible_flatten_length {lists : List (ProbedList K)} {found : List (List (Candidate K))}
    (h : lists.mapM (self.listRows q filter) = .ok found) :
    (eligible found.flatten).length = (lists.map (self.eligibleRows q filter)).sum := by
  have hall := mapM_eq_ok.mp h
  clear h
  induction hall with
  | nil => rfl
  | cons hlist _ ih =>
    rw [flatten_cons, eligible_append, length_append, map_cons, sum_cons, ih,
      eligibleRows, hlist]

theorem candidates_eq_ok {rows : List (Candidate K)} :
    self.candidates query nprobe filter = .ok rows ↔
      ∃ loaded found, self.ensureLoaded = .ok loaded ∧
        (loaded.listsToRead (loaded.prepareQuery query) nprobe).mapM
          (loaded.listRows (loaded.prepareQuery query) filter) = .ok found ∧
            found.flatten = rows := by
  simp only [candidates, accepted]
  constructor
  · rintro ⟨loaded, hload, found, hfound, hrows⟩
    exact ⟨loaded, found, hload, hfound, hrows⟩
  · rintro ⟨loaded, found, hload, hfound, hrows⟩
    exact ⟨loaded, hload, found, hfound, hrows⟩

theorem eligible_candidates_mono {wider : Nat} {rows rows' : List (Candidate K)}
    (hle : nprobe ≤ wider) (h : self.candidates query nprobe filter = .ok rows)
    (h' : self.candidates query wider filter = .ok rows') :
    (eligible rows).length ≤ (eligible rows').length := by
  obtain ⟨loaded, found, hload, hfound, rfl⟩ := candidates_eq_ok.mp h
  obtain ⟨loaded', found', hload', hfound', rfl⟩ := candidates_eq_ok.mp h'
  rw [hload] at hload'
  cases hload'
  rw [eligible_flatten_length hfound, eligible_flatten_length hfound']
  obtain ⟨lists, hperm, hsub⟩ := listsToRead_subperm loaded (loaded.prepareQuery query) hle
  rw [← (hperm.map _).sum_eq]
  exact (hsub.map _).sum_le_sum fun _ _ => Nat.zero_le _

/-- The candidates that the heap of a search can keep. -/
def probedRows (self : IVFPQIndexReader K) (query : List K) (nprobe : Nat)
    (filter : Option RowIdFilter) : List (Candidate K) :=
  match self.candidates query nprobe filter with
  | .ok rows => eligible rows
  | .error _ => []

theorem searchWithReaderFilter_rows {result : List Int64 × List K}
    (h : self.searchWithReaderFilter query k nprobe filter = .ok result) :
    ∃ found : List (Candidate K), result = (found.map Prod.snd, found.map Prod.fst) ∧
      found.length = min k (self.probedRows query nprobe filter).length ∧
      ((self.probedRows query nprobe filter).length ≤ k →
        found.Perm (self.probedRows query nprobe filter)) := by
  simp only [searchWithReaderFilter, accepted] at h
  obtain ⟨heap, hheap, rfl⟩ := h
  obtain ⟨rows, hrows, habsorbs⟩ := searchHeap_absorbs hheap
  have hprobed : self.probedRows query nprobe filter = eligible rows := by
    rw [probedRows, hrows]
  have hempty : (new k : TopKHeap K k).data = [] := rfl
  have hlen := habsorbs.length
  have hperm := habsorbs.perm
  rw [hempty, length_nil, Nat.zero_add] at hlen hperm
  rw [hprobed]
  refine ⟨heap.intoSorted, rfl, (sortedCandidates_length _).trans hlen, fun hroom => ?_⟩
  exact (sortedCandidates_perm _).trans (hperm hroom)

theorem probedRows_length_mono {wider : Nat} {result : List Int64 × List K} (hle : nprobe ≤ wider)
    (h : self.searchWithReaderFilter query k wider filter = .ok result) :
    (self.probedRows query nprobe filter).length ≤ (self.probedRows query wider filter).length := by
  simp only [searchWithReaderFilter, bind_eq_ok] at h
  obtain ⟨heap, hheap, -⟩ := h
  obtain ⟨rows', hrows', -⟩ := searchHeap_absorbs hheap
  cases hrows : self.candidates query nprobe filter with
  | error e => simp [probedRows, hrows]
  | ok rows =>
    rw [probedRows, hrows, probedRows, hrows']
    exact eligible_candidates_mono hle hrows hrows'

end Candidates

end IVFPQIndexReader

end PaimonVindex
