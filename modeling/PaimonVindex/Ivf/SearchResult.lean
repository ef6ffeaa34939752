import PaimonVindex.Ivf.Search

/-! How many rows a search returns, and when its retry loop stops. The searches
of three families fill their result up; that of IVF-PQ returns what it finds,
and the retry loop takes a short result for a complete one. -/

namespace PaimonVindex

open Checked IVFPQIndexReader

namespace VectorIndexReader

variable {K : Type}

/-- What is settled before the first round. -/
structure Start where
  filter : Option RowIdFilter
  nprobe : Nat
  available : Nat

def optionalMatchingCount (deserialize : List UInt8 → Except String RoaringTreemap)
    (params : VectorSearchParams) : Option (List UInt8) → IoResult (Option Nat)
  | none => .ok none
  | some bytes => automaticMatchingCount deserialize params bytes

def optionalFilter (deserialize : List UInt8 → Except String RoaringTreemap) :
    Option (List UInt8) → IoResult (Option RowIdFilter)
  | none => .ok none
  | some bytes => do return some (← decodeRoaringFilter deserialize bytes).contains

def start [Scalar K] (deserialize : List UInt8 → Except String RoaringTreemap)
    (reader : VectorIndexReader K) (query : List K) (params : VectorSearchParams)
    (filterBytes : Option (List UInt8)) : IoResult Start := do
  validateQuery query reader.dimension
  params.validate
  let matchingCount ← optionalMatchingCount deserialize params filterBytes
  let (nprobe, available) ← reader.initialWidth params matchingCount
  let filter ← optionalFilter deserialize filterBytes
  return ⟨filter, nprobe, available⟩

variable {deserialize : List UInt8 → Except String RoaringTreemap} {reader : VectorIndexReader K}
  {query : List K} {params : VectorSearchParams} {filterBytes : Option (List UInt8)}

theorem topK_pos_of_validate {u : Unit} (h : params.validate = .ok u) : 0 < params.topK := by
  simp only [VectorSearchParams.validate, validatePositive, bind_eq_ok, rejectIf_eq_ok] at h
  obtain ⟨-, hpos, -⟩ := h
  omega

theorem start_topK_pos [Scalar K] {s : Start}
    (h : reader.start deserialize query params filterBytes = .ok s) : 0 < params.topK := by
  simp only [start, bind_eq_ok] at h
  obtain ⟨_, -, _, hvalid, -⟩ := h
  exact topK_pos_of_validate hvalid

theorem start_nprobe_bounds [Scalar K] {s : Start} (hauto : params.searchWidth = .auto)
    (h : reader.start deserialize query params filterBytes = .ok s) :
    0 < s.nprobe ∧ s.nprobe ≤ reader.nlist := by
  simp only [start, initialWidth, bind_eq_ok, pure_ok_iff, rejectIf_eq_ok,
    VectorSearchParams.resolveIvfNprobe, hauto] at h
  obtain ⟨_, -, _, -, matching, -, width, ⟨_, -, nprobe, hnprobe, rfl⟩, filter, -, rfl⟩ := h
  exact inferIvfNprobe_bounds hnprobe

variable [Add K] [Sub K] [Mul K] [Neg K] [Zero K] [One K] [Scalar K] [VectorKernels K]
  {rounds : Nat} {outcome : Outcome K}

theorem searchOptional_eq_ok
    (h : reader.searchOptional deserialize query params filterBytes rounds = .ok (some outcome)) :
    ∃ s, reader.start deserialize query params filterBytes = .ok s ∧
      progressiveIvfSearch params reader.nlist 1 params.topK s.available
        (reader.searchLists query params.topK s.filter) rounds s.nprobe = .ok (some outcome) := by
  cases filterBytes with
  | none =>
    simp only [searchOptional, search, bind_eq_ok] at h
    obtain ⟨u, hquery, v, hparams, ⟨nprobe, available⟩, hwidth, hrounds⟩ := h
    refine ⟨⟨none, nprobe, available⟩, ?_, hrounds⟩
    simp only [start, hquery, hparams, optionalMatchingCount, hwidth, optionalFilter, ok_bind,
      pure_eq_ok]
  | some bytes =>
    simp only [searchOptional, searchWithRoaringFilter, bind_eq_ok] at h
    obtain ⟨u, hquery, v, hparams, matching, hmatching, ⟨nprobe, available⟩, hwidth, hrounds⟩ := h
    cases hfilter : decodeRoaringFilter deserialize bytes with
    | error e =>
      -- The first round would already fail.
      cases rounds with
      | zero => cases hrounds
      | succ rounds =>
        obtain ⟨result, hresult, -⟩ := progressiveIvfSearch_succ hrounds
        rw [hfilter, error_bind] at hresult
        cases hresult
    | ok filter =>
      simp only [hfilter, ok_bind] at hrounds
      refine ⟨⟨some filter.contains, nprobe, available⟩, ?_, hrounds⟩
      simp only [start, hquery, hparams, optionalMatchingCount, hmatching, hwidth, optionalFilter,
        hfilter, ok_bind, pure_eq_ok]

theorem searchOptional_ne_none (hauto : params.searchWidth = .auto)
    (hrounds : reader.nlist < rounds) :
    reader.searchOptional deserialize query params filterBytes rounds ≠ .ok none := by
  intro h
  have hbounds : ∀ {matching : Option Nat} {width : Nat × Nat},
      reader.initialWidth params matching = .ok width → 0 < width.1 := by
    intro matching width hwidth
    simp only [initialWidth, VectorSearchParams.resolveIvfNprobe, hauto, bind_eq_ok,
      pure_ok_iff] at hwidth
    obtain ⟨_, -, nprobe, hnprobe, rfl⟩ := hwidth
    exact (inferIvfNprobe_bounds hnprobe).1
  cases filterBytes with
  | none =>
    simp only [searchOptional, search, bind_eq_ok] at h
    obtain ⟨_, -, _, -, width, hwidth, h⟩ := h
    have hpos := hbounds hwidth
    exact progressiveIvfSearch_terminates hpos (by omega) h
  | some bytes =>
    simp only [searchOptional, searchWithRoaringFilter, bind_eq_ok] at h
    obtain ⟨_, -, _, -, _, -, width, hwidth, h⟩ := h
    have hpos := hbounds hwidth
    exact progressiveIvfSearch_terminates hpos (by omega) h

section Rows

variable {filter : Option RowIdFilter}

theorem searchLists_padded (hpq : ∀ pq, reader ≠ .ivfPq pq) {k nprobe : Nat}
    {result : List Int64 × List K} (h : reader.searchLists query k filter nprobe = .ok result) :
    Padded k result := by
  cases reader with
  | ivfFlat flat => exact flat.searchWithFilter_padded h
  | ivfSq sq => exact sq.searchWithFilter_padded h
  | ivfPq pq => exact absurd rfl (hpq pq)
  | ivfRq rq => exact rq.searchWithFilter_padded h

theorem searchLists_pq_padded {pq : IVFPQIndexReader K} {k nprobe wider : Nat}
    {result : List Int64 × List K} (hle : nprobe ≤ wider)
    (henough : k ≤ (pq.probedRows query nprobe filter).length)
    (h : (ivfPq pq).searchLists query k filter wider = .ok result) : Padded k result := by
  have hmono := pq.probedRows_length_mono hle h
  obtain ⟨found, rfl, hlen, -⟩ := pq.searchWithReaderFilter_rows h
  exact padded_of_length (by omega)

theorem pq_short_outcome {pq : IVFPQIndexReader K} {available nprobe : Nat}
    (hshort : (pq.probedRows query nprobe filter).length < params.topK)
    (h : progressiveIvfSearch params (ivfPq pq).nlist 1 params.topK available
      ((ivfPq pq).searchLists query params.topK filter) rounds nprobe = .ok (some outcome)) :
    outcome.nprobe = nprobe ∧ outcome.ids.length < params.topK ∧
      outcome.distances.Perm ((pq.probedRows query nprobe filter).map Prod.fst) := by
  cases rounds with
  | zero => cases h
  | succ rounds =>
    obtain ⟨result, hresult, hround⟩ := progressiveIvfSearch_succ h
    obtain ⟨found, rfl, hlen, hperm⟩ := pq.searchWithReaderFilter_rows hresult
    have hfound : found.length < params.topK := by omega
    rcases hround with ⟨-, hsome⟩ | ⟨hlast, -⟩
    · cases hsome
      exact ⟨rfl, by simpa using hfound, (hperm hshort.le).map Prod.fst⟩
    · rw [isLastRound_of_short (by simpa using hfound)] at hlast
      cases hlast

end Rows

/-- Only IVF-PQ depends on what its first round finds. -/
def FillsResult (deserialize : List UInt8 → Except String RoaringTreemap)
    (reader : VectorIndexReader K) (query : List K) (params : VectorSearchParams)
    (filterBytes : Option (List UInt8)) : Prop :=
  ∀ pq s, reader = .ivfPq pq → reader.start deserialize query params filterBytes = .ok s →
    params.topK ≤ (pq.probedRows query s.nprobe s.filter).length

theorem outcome_padded (hfills : reader.FillsResult deserialize query params filterBytes)
    (h : reader.searchOptional deserialize query params filterBytes rounds = .ok (some outcome)) :
    Padded params.topK (outcome.ids, outcome.distances) := by
  obtain ⟨s, hstart, hrounds⟩ := searchOptional_eq_ok h
  by_cases hpq : ∃ pq, reader = .ivfPq pq
  · obtain ⟨pq, rfl⟩ := hpq
    exact progressiveIvfSearch_round (fun _ result => Padded params.topK result) (Nat.le_refl _)
      (fun wider result hle hresult => searchLists_pq_padded hle (hfills pq s rfl hstart) hresult)
      hrounds
  · exact progressiveIvfSearch_round (fun _ result => Padded params.topK result) (Nat.le_refl _)
      (fun wider result _ hresult => searchLists_padded (not_exists.mp hpq) hresult) hrounds

theorem outcome_short (hfills : ¬reader.FillsResult deserialize query params filterBytes)
    (h : reader.searchOptional deserialize query params filterBytes rounds = .ok (some outcome)) :
    outcome.ids.length ≠ params.topK := by
  obtain ⟨s, hstart, hrounds⟩ := searchOptional_eq_ok h
  simp only [FillsResult, not_forall, Nat.not_le] at hfills
  obtain ⟨pq, s', rfl, hstart', hshort⟩ := hfills
  rw [hstart] at hstart'
  cases hstart'
  exact (pq_short_outcome hshort hrounds).2.1.ne

/-- A successful search has a result of `topK` rows, filled up with missing ones,
exactly if its family is not IVF-PQ or its first round finds enough rows. Only then
does the copy for a foreign caller accept the lengths. -/
theorem search_fills_result_iff {rounds : Nat} {outcome : Outcome K}
    (h : reader.searchOptional deserialize query params filterBytes rounds = .ok (some outcome)) :
    ((outcome.ids.length = params.topK ∧ outcome.distances.length = params.topK ↔
        reader.FillsResult deserialize query params filterBytes) ∧
      (reader.FillsResult deserialize query params filterBytes →
        Padded params.topK (outcome.ids, outcome.distances))) ∧
      ∀ outIds outDistances resultLen,
        copySearchResult outcome.ids outcome.distances outIds outDistances resultLen params.topK =
            .error (lengthMismatch outcome.ids.length outcome.distances.length params.topK) ↔
          ¬reader.FillsResult deserialize query params filterBytes := by
  have hlengths : outcome.ids.length = params.topK ∧ outcome.distances.length = params.topK ↔
      reader.FillsResult deserialize query params filterBytes := by
    constructor
    · intro hlen
      by_contra hfills
      exact outcome_short hfills h hlen.1
    · intro hfills
      exact (outcome_padded hfills h).lengths
  refine ⟨⟨hlengths, fun hfills => outcome_padded hfills h⟩,
    fun outIds outDistances resultLen => ?_⟩
  rw [copySearchResult_mismatch_iff, ← hlengths, not_and_or]

section Sparse

/-- Nine lists, of which only the last one has a row. -/
def sparseReader : IVFPQIndexReader Rat where
  reader := SeekRead.ofBytes [7, 0, 0, 0, 0, 0, 0, 0, 1, 0, 0, 0, 0, 0] 1
  d := 1
  nlist := 9
  m := 1
  ksub := 256
  dsub := 1
  metric := .l2
  byResidual := false
  totalVectors := 1
  rotation := none
  quantizerCentroids := [0, 1, 2, 3, 4, 5, 6, 7, 8]
  pq := ⟨1, 1, 8, List.replicate 256 0⟩
  entries := List.replicate 8 ⟨0, 0, 0⟩ ++ [⟨0, 1, 1⟩]
  precomputedTable := none
  transposedCodes := true
  loaded := true
  hasOpq := false

def topOne : VectorSearchParams where
  topK := 1
  searchWidth := .auto
  width := 0
  maxInitialFilterExpansionFactor := none
  ivfpqBatchTableReuseMaxBytes := 1

def noFilter (_ : List UInt8) : Except String RoaringTreemap := .error "no filter"

theorem sparseReader_start :
    (ivfPq sparseReader).start noFilter [0] topOne none = .ok ⟨none, 8, 1⟩ := by
  rfl

theorem sparseReader_ranked : rankedLists [0] sparseReader.quantizerCentroids 9 1 =
    (List.range 9).map fun c => (coarseDistance [0] sparseReader.quantizerCentroids 9 1 c, c) := by
  refine List.mergeSort_of_pairwise ?_
  decide +kernel

theorem sparseReader_lists : sparseReader.listsToRead [0] 8 = [] := by
  have hprobed : (sparseReader.probe [0] 8).filterMap sparseReader.probedList = [] := by
    rw [probe, findTopk, show sparseReader.nlist = 9 from rfl,
      show sparseReader.d = 1 from rfl, sparseReader_ranked]
    decide +kernel
  rw [listsToRead, hprobed, List.mergeSort_nil]

theorem sparseReader_search :
    (ivfPq sparseReader).searchLists [0] 1 none 8 = .ok ([], []) := by
  have hheap : sparseReader.searchHeap [0] 1 8 none = .ok (TopKHeap.new 1) := by
    rw [searchHeap, ensureLoaded_of_loaded rfl, ok_bind]
    have hquery : sparseReader.prepareQuery [0] = [0] := rfl
    have hchecks : queryChecks 1 1 1 8 = .ok () := rfl
    simp only [hquery, sparseReader_lists, scanListBatches]
    exact hchecks ▸ rfl
  have hsorted : (TopKHeap.new 1 : TopKHeap Rat 1).intoSorted = [] := List.mergeSort_nil
  rw [searchLists, searchWithReaderFilter, hheap, ok_bind, hsorted]
  rfl

theorem sparseReader_outcome :
    (ivfPq sparseReader).searchOptional noFilter [0] topOne none 1 = .ok (some ⟨8, [], []⟩) := by
  have hquery : validateQuery ([0] : List Rat) 1 = .ok () := rfl
  have hparams : topOne.validate = .ok () := rfl
  have hwidth : (ivfPq sparseReader).initialWidth topOne none = .ok (8, 1) := rfl
  have hlast : isLastRound topOne 9 1 1 1 8 ([] : List Rat) = true :=
    isLastRound_of_short (by decide)
  rw [searchOptional, search, show (ivfPq sparseReader).dimension = 1 from rfl, hquery, ok_bind,
    hparams, ok_bind, hwidth, ok_bind]
  show (do
    let result ← (ivfPq sparseReader).searchLists [0] 1 none 8
    if isLastRound topOne 9 1 1 1 8 result.2 then
      return some (⟨8, result.1, result.2⟩ : Outcome Rat)
    else .ok none) = _
  rw [sparseReader_search, ok_bind, if_pos hlast, pure_eq_ok]

/-- The list with the row alone. -/
def denseReader : IVFPQIndexReader Rat :=
  { sparseReader with nlist := 1, quantizerCentroids := [0], entries := [⟨0, 1, 1⟩] }

theorem denseReader_outcome :
    (ivfPq denseReader).searchOptional noFilter [0] topOne none 1 = .ok (some ⟨1, [7], [0]⟩) := by
  decide +kernel

end Sparse

theorem search_fills_result_sparse :
    ¬(ivfPq sparseReader).FillsResult noFilter [0] topOne none ∧
      (ivfPq denseReader).FillsResult noFilter [0] topOne none :=
  ⟨mt (search_fills_result_iff sparseReader_outcome).1.1.mpr (by decide),
    (search_fills_result_iff denseReader_outcome).1.1.mp ⟨rfl, rfl⟩⟩

/-- One row is stored and one is asked for, but the result has none, and the copy
for the caller fails. -/
theorem search_returns_too_few_rows :
    (ivfPq sparseReader).searchOptional noFilter [0] topOne none 1 = .ok (some ⟨8, [], []⟩) ∧
      copySearchResult [] ([] : List Rat) ⟨false, true⟩ ⟨false, true⟩ 1 1 =
        .error "native result length mismatch: ids=0, distances=0, expected=1" :=
  ⟨sparseReader_outcome, by decide⟩

/-- Only IVF-PQ depends on what its first round finds: a short result passes the
test of the loop unseen. -/
def StopsComplete (deserialize : List UInt8 → Except String RoaringTreemap)
    (reader : VectorIndexReader K) (query : List K) (params : VectorSearchParams)
    (filterBytes : Option (List UInt8)) : Prop :=
  ∀ pq s, reader = .ivfPq pq → reader.start deserialize query params filterBytes = .ok s →
    reader.nlist ≤ s.nprobe ∨ params.topK ≤ (pq.probedRows query s.nprobe s.filter).length ∨
      min params.topK s.available ≤
        realRows ((pq.probedRows query s.nprobe s.filter).map Prod.fst)

theorem stops_complete_of_padded {s : Start} (hauto : params.searchWidth = .auto)
    (hstart : reader.start deserialize query params filterBytes = .ok s)
    (hpadded : Padded params.topK (outcome.ids, outcome.distances))
    (h : progressiveIvfSearch params reader.nlist 1 params.topK s.available
      (reader.searchLists query params.topK s.filter) rounds s.nprobe = .ok (some outcome)) :
    min params.topK s.available ≤ realRows outcome.distances ∨
      outcome.nprobe = reader.nlist := by
  obtain ⟨hle, hlast⟩ := progressiveIvfSearch_last (start_nprobe_bounds hauto hstart).2 h
  rcases isLastRound_of_full (start_topK_pos hstart) hauto hpadded.lengths.2 hlast with hall | hreal
  · exact .inr (by omega)
  · exact .inl hreal

/-- The loop of an automatic search ends, and it ends with enough rows or with
all lists probed exactly if its family is not IVF-PQ or the first round of IVF-PQ
reaches all lists, fills its result or has enough rows already. -/
theorem automatic_search_stops_iff (hauto : params.searchWidth = .auto) :
    (∀ rounds, reader.nlist < rounds →
      reader.searchOptional deserialize query params filterBytes rounds ≠ .ok none) ∧
    ∀ rounds outcome s, reader.start deserialize query params filterBytes = .ok s →
      reader.searchOptional deserialize query params filterBytes rounds = .ok (some outcome) →
      ((min params.topK s.available ≤ realRows outcome.distances ∨
          outcome.nprobe = reader.nlist) ↔
        reader.StopsComplete deserialize query params filterBytes) := by
  refine ⟨fun rounds hrounds => searchOptional_ne_none hauto hrounds, ?_⟩
  intro rounds outcome s hstart h
  obtain ⟨s', hstart', hrounds⟩ := searchOptional_eq_ok h
  rw [hstart] at hstart'
  cases hstart'
  by_cases hfills : reader.FillsResult deserialize query params filterBytes
  · have hstops := stops_complete_of_padded hauto hstart (outcome_padded hfills h) hrounds
    refine iff_of_true hstops fun pq t hreader ht => ?_
    exact .inr (.inl (hfills pq t hreader ht))
  · have hshort := hfills
    simp only [FillsResult, not_forall, Nat.not_le] at hshort
    obtain ⟨pq, t, rfl, ht, hlt⟩ := hshort
    rw [hstart] at ht
    cases ht
    obtain ⟨hnprobe, -, hperm⟩ := pq_short_outcome hlt hrounds
    have hbound := (start_nprobe_bounds hauto hstart).2
    rw [realRows_perm hperm, hnprobe]
    constructor
    · intro hstops pq' t hreader ht
      cases hreader
      rw [hstart] at ht
      cases ht
      rcases hstops with hreal | hall
      · exact .inr (.inr hreal)
      · exact .inl hall.ge
    · intro hstops
      rcases hstops pq s rfl hstart with hall | henough | hreal
      · exact .inr (by omega)
      · omega
      · exact .inl hreal

theorem automatic_search_stops_sparse :
    ¬(ivfPq sparseReader).StopsComplete noFilter [0] topOne none ∧
      (ivfPq denseReader).StopsComplete noFilter [0] topOne none :=
  ⟨mt ((automatic_search_stops_iff rfl).2 1 ⟨8, [], []⟩ ⟨none, 8, 1⟩ sparseReader_start
      sparseReader_outcome).mpr (by decide),
    ((automatic_search_stops_iff rfl).2 1 ⟨1, [7], [0]⟩ ⟨none, 1, 1⟩ rfl
      denseReader_outcome).mp (.inr rfl)⟩

/-- The loop stops after eight of nine lists with no row, though one could match. -/
theorem automatic_search_stops_early :
    (ivfPq sparseReader).searchOptional noFilter [0] topOne none 1 = .ok (some ⟨8, [], []⟩) ∧
      (ivfPq sparseReader).start noFilter [0] topOne none = .ok ⟨none, 8, 1⟩ ∧
      ¬(min 1 1 ≤ realRows ([] : List Rat) ∨ 8 = (ivfPq sparseReader).nlist) :=
  ⟨sparseReader_outcome, sparseReader_start, by decide⟩

end VectorIndexReader

end PaimonVindex
