import PaimonVindex.Ivf.PqSearch

/-! How a search cuts the lists it probes into reads: every list once, in
order, in batches within the limits, and an oversized list on its own. -/

namespace PaimonVindex

open Checked List TopKHeap

/-- One turn of the search loop. -/
inductive ListVisit (L : Type) where
  | streamed (list : L)
  | batch (lists : List L)

namespace ListVisit

variable {L H : Type}

def lists : ListVisit L → List L
  | streamed list => [list]
  | batch lists => lists

def run (stream : L → H → IoResult H) (scan : List L → H → IoResult H) (heap : H) :
    ListVisit L → IoResult H
  | streamed list => stream list heap
  | batch lists => scan lists heap

/-- A turn streams one oversized list, or reads a batch of small ones within the limits. -/
def Within (payloadLen : L → IoResult Nat) (maxRangesPerPread : Nat) : ListVisit L → Prop
  | streamed list => ∃ len, payloadLen list = .ok len ∧ ivfPayloadIsOversized len = true
  | batch lists => lists ≠ [] ∧
      (∀ list ∈ lists, ∃ len, payloadLen list = .ok len ∧ ivfPayloadIsOversized len = false) ∧
      ∃ lens, lists.mapM payloadLen = .ok lens ∧
        lens.countP (· ≠ 0) ≤ rangeLimit maxRangesPerPread ∧ lens.sum ≤ maxIvfBatchReadBytes

end ListVisit

/-- The search loop, over the lengths of the payloads. -/
def scanPayloadBatches {L H : Type} (payloadLen : L → IoResult Nat) (maxRangesPerPread : Nat)
    (stream : L → H → IoResult H) (batch : List L → H → IoResult H) : List L → H → IoResult H :=
  scanListBatches (fun list => do return ivfPayloadIsOversized (← payloadLen list))
    (fun lists => do boundedIvfPayloadBatchEnd (← lists.mapM payloadLen) maxRangesPerPread)
    stream batch

/-- The turns of the loop over `lists`, whatever the turns do. -/
structure VisitPlan {L : Type} (payloadLen : L → IoResult Nat) (maxRangesPerPread : Nat)
    (lists : List L) (visits : List (ListVisit L)) : Prop where
  covers : visits.flatMap ListVisit.lists = lists
  within : ∀ visit ∈ visits, visit.Within payloadLen maxRangesPerPread
  runs : ∀ {H : Type} (stream : L → H → IoResult H) (batch : List L → H → IoResult H) (heap : H),
    scanPayloadBatches payloadLen maxRangesPerPread stream batch lists heap =
      visits.foldlM (ListVisit.run stream batch) heap

theorem exists_visitPlan {L : Type} {payloadLen : L → IoResult Nat}
    (maxRangesPerPread : Nat) {lists : List L} {lens : List Nat}
    (hlens : List.Forall₂ (fun list len => payloadLen list = .ok len) lists lens)
    (hsum : lens.sum < wordSize) :
    ∃ visits, VisitPlan payloadLen maxRangesPerPread lists visits := by
  -- a turn takes at least one list, so what is left is shorter
  induction hn : lists.length using Nat.strong_induction_on generalizing lists lens with
  | _ n ih =>
    cases hlens with
    | nil => exact ⟨[], rfl, by simp, fun _ _ _ => by rw [scanPayloadBatches, scanListBatches]; rfl⟩
    | @cons first len rest restLens hfirst hrest =>
      have hall : List.Forall₂ (fun list len => payloadLen list = .ok len) (first :: rest)
        (len :: restLens) := .cons hfirst hrest
      cases hover : ivfPayloadIsOversized len with
      | true =>
        obtain ⟨visits, hplan⟩ := ih rest.length (by simp [← hn]) hrest
          (by rw [sum_cons] at hsum; omega) rfl
        refine ⟨.streamed first :: visits, by simp [ListVisit.lists, hplan.covers],
          forall_mem_cons.mpr ⟨⟨len, hfirst, hover⟩, hplan.within⟩, ?_⟩
        intro H stream batch heap
        simp only [foldlM_cons, ← hplan.runs, ListVisit.run]
        rw [scanPayloadBatches, scanListBatches, hfirst, ok_bind, hover]
        rfl
      | false =>
        obtain ⟨taken, htaken⟩ := payloadBatchEnd_ok (rangeLimit maxRangesPerPread) 0 0 0
          (len :: restLens) (by simpa using hsum)
        obtain ⟨hpos, hranges, hbytes⟩ := boundedIvfPayloadBatchEnd_within htaken
        have hbatch := forall₂_take taken hall
        have hdrop : rest.drop (max taken 1 - 1) = (first :: rest).drop taken := by
          rw [← drop_succ_cons, Nat.max_eq_left hpos, Nat.sub_add_cancel hpos]
        have hsplit := congrArg sum (take_append_drop taken (len :: restLens))
        rw [sum_append] at hsplit
        obtain ⟨visits, hplan⟩ := ih _ (by simp [← hn]; omega) (forall₂_drop taken hall)
          (by omega) rfl
        refine ⟨.batch ((first :: rest).take taken) :: visits, ?_, forall_mem_cons.mpr ⟨⟨?_,
          fits_of_sum_le hbatch (hbytes hover), _, mapM_eq_ok.mpr hbatch, hranges, hbytes hover⟩,
          hplan.within⟩, ?_⟩
        · rw [flatMap_cons, hplan.covers]
          exact take_append_drop taken _
        · simpa using Nat.ne_of_gt hpos
        · intro H stream batch heap
          simp only [foldlM_cons, ← hplan.runs, ListVisit.run]
          rw [scanPayloadBatches, scanListBatches, hfirst, ok_bind, hover, pure_eq_ok, ok_bind,
            if_neg Bool.false_ne_true, mapM_eq_ok.mpr hall, ok_bind, boundedIvfPayloadBatchEnd,
            htaken, ok_bind]
          dsimp only
          rw [hdrop, Nat.max_eq_left hpos]

variable {K : Type} [Add K] [Sub K] [Mul K] [Neg K] [Zero K] [One K] [Scalar K] [VectorKernels K]

theorem batched_reads_partition :
    (∀ {L : Type} (payloadLen : L → IoResult Nat) (maxRangesPerPread : Nat) (lists : List L)
      (lens : List Nat), lists.mapM payloadLen = .ok lens → lens.sum < wordSize →
      ∃ visits, VisitPlan payloadLen maxRangesPerPread lists visits) ∧
    (∀ (self : IVFPQIndexReader K) (query : List K) (k nprobe : Nat) (filter : Option RowIdFilter),
      self.searchHeap query k nprobe filter = (do
        let self ← self.ensureLoaded
        queryChecks query.length self.d k nprobe
        let q := self.prepareQuery query
        scanPayloadBatches (fun list => self.listPayloadLen list.listId)
          self.reader.maxRangesPerPread (self.scanStreamedList q filter) (self.scanBatch q filter)
          (self.listsToRead q nprobe) (new k))) ∧
    ∀ (maxRangesPerPread maxBatchBytes : Nat) (ranges : List (Nat × Nat)),
      (ranges.map Prod.snd).sum < wordSize →
      (∃ groups, ReadGroups maxRangesPerPread maxBatchBytes ranges groups) ∧
      ∀ reader : SeekRead, preadBatchedSlicesWithLimit maxRangesPerPread maxBatchBytes
        reader.fillSlices ranges [] = ranges.mapM fun r => reader.pread r.1 r.2 := by
  refine ⟨fun payloadLen maxRangesPerPread lists lens hlens hsum =>
    exists_visitPlan maxRangesPerPread (mapM_eq_ok.mp hlens) hsum, ?_,
    fun maxRangesPerPread maxBatchBytes ranges hsum =>
      ⟨exists_readGroups maxRangesPerPread maxBatchBytes hsum,
        fun reader => batched_fillSlices reader maxRangesPerPread maxBatchBytes hsum⟩⟩
  intro self query k nprobe filter
  simp only [IVFPQIndexReader.searchHeap, scanPayloadBatches,
    IVFPQIndexReader.batchReadEnd, mapM_map]
  rfl

end PaimonVindex
