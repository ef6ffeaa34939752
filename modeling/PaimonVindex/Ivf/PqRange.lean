import PaimonVindex.Ivf.PqSearch

/-! The range scan of IVF-PQ: the prepared query, the distance table that a
query keeps between lists, and the values that a scan hands to the collector. -/

namespace PaimonVindex

open Checked VectorKernels

variable {K C : Type} [VectorKernels K]

section Prepare

variable [Scalar K]

/-- The norm is finite when the squared norm is. -/
def prepareRangeQueries (query : List K) (metric : MetricType) : IoResult (List K) := do
  if metric ≠ .cosine then return query
  else do
    let normalized := normalize query
    rejectIf (¬ Scalar.isFinite (normL2sqr query) ∨
        normalized.any fun value => !Scalar.isFinite value)
      (invalidData "non-finite normalized query")
    return normalized

namespace IVFPQIndexReader

def prepareRangeQuery (self : IVFPQIndexReader K) (query : List K) : IoResult (List K) := do
  let normalized ← prepareRangeQueries query self.metric
  match self.rotation with
  | none => return normalized
  | some rotation => do
    let rotated := rotate rotation self.d normalized
    rejectIf (rotated.any fun value => !Scalar.isFinite value)
      (invalidData "non-finite IVF-PQ rotated query")
    return rotated

theorem prepareRangeQueries_ok {query q : List K} {metric : MetricType}
    (h : prepareRangeQueries query metric = .ok q) :
    q = if metric = .cosine then normalize query else query := by
  by_cases hmetric : metric = .cosine
  · rw [if_pos hmetric]
    rw [prepareRangeQueries, if_neg (fun hne => hne hmetric)] at h
    simp only [bind_eq_ok, pure_ok_iff] at h
    obtain ⟨-, -, hq⟩ := h
    exact hq.symm
  · rw [if_neg hmetric]
    rw [prepareRangeQueries, if_pos hmetric, pure_eq_ok] at h
    exact (Except.ok.inj h).symm

theorem prepareRangeQuery_ok {self : IVFPQIndexReader K} {query q : List K}
    (h : self.prepareRangeQuery query = .ok q) : q = self.prepareQuery query := by
  simp only [prepareRangeQuery, bind_eq_ok] at h
  obtain ⟨normalized, hnormalized, h⟩ := h
  have hquery := prepareRangeQueries_ok hnormalized
  rw [prepareQuery, ← hquery]
  cases hrotation : self.rotation with
  | none =>
    simp only [hrotation, pure_ok_iff] at h
    exact h.symm
  | some rotation =>
    simp only [hrotation, bind_eq_ok, pure_ok_iff] at h
    obtain ⟨-, -, hq⟩ := h
    exact hq.symm

end IVFPQIndexReader

end Prepare

structure PqRangeQuery (K C : Type) where
  queryIndex : Nat
  query : List K
  metric : MetricType
  collector : C
  table : Table K
  tableList : Option Nat

def PqRangeQuery.new [Zero K] (queryIndex : Nat) (query : List K) (metric : MetricType)
    (collector : C) :
    PqRangeQuery K C :=
  ⟨queryIndex, query, metric, collector, fun _ _ => 0, none⟩

variable [Add K] [Sub K] [Mul K] [Neg K] [Zero K]

def pqRangeTableCacheBytes : Nat := 8 * 1024 * 1024

variable (pq : ProductQuantizer K)

def pqRangeCacheQueryLimit (budget : Nat) : Nat :=
  match (checkedMul pq.m pq.ksub).bind (checkedMul · 4) with
  | none => 0
  | some bytes => budget / bytes

def buildPqRangeTable (query : List K) (metric : MetricType) (centroid : Option (List K)) :
    Table K :=
  let residual := (centroid.filter fun _ => metric ≠ .innerProduct).elim query
    (List.zipWith (· - ·) query)
  let offset (sub : Nat) (entry : K) :=
    match centroid with
    | some centroid =>
      -- The product with the centroid goes into the first chunk's entries.
      if metric = .innerProduct ∧ sub = 0 then entry + -innerProduct residual centroid else entry
    | none => entry
  fun sub code =>
    let queryChunk := row residual pq.dsub sub
    offset sub (match metric with
      | .l2 | .cosine => l2sqr queryChunk (pq.codeword sub code)
      | .innerProduct => -innerProduct queryChunk (pq.codeword sub code))

/-- The value that a scan computes for one row. -/
def pqRangeDistance (table : Table K) (metric : MetricType) (ipOffset : Option K) (count : Nat)
    (codes : List UInt8) (transposed : Bool) (position : Nat) : K :=
  let code (sub : Nat) : Nat :=
    let column := if pq.nbits = 4 then sub / 2 else sub
    let offset := if transposed then column * count + position else position * pq.codeSize + column
    let byte := (codes.getD offset 0).toNat
    if pq.nbits = 4 then byte / 2 ^ (4 * (sub % 2)) % 16 else byte
  let entry (sub : Nat) : K :=
    match ipOffset with
    | some offset => if sub = 0 then table sub (code sub) + offset else table sub (code sub)
    | none => table sub (code sub)
  let distance := (List.range pq.m).foldl (fun distance sub => distance + entry sub) 0
  if metric = .cosine then distance * half else distance

def scanPqRangeCodes (push : Int64 → K → C → IoResult C) (pq : ProductQuantizer K) (table : Table K)
    (metric : MetricType) (ipOffset : Option K) (ids : List Int64) (codes : List UInt8)
    (transposed : Bool) (positions : Option (List Nat)) (collector : C) : IoResult C :=
  (positions.getD (List.range ids.length)).foldlM (fun collector position =>
    push (ids.getD position 0)
      (pqRangeDistance pq table metric ipOffset ids.length codes transposed position) collector)
    collector

/-- The table that a query scans a list with, and the query that keeps it. A
table without a centroid serves all lists. -/
def PqRangeQuery.withTable (listId : Nat) (centroid : Option (List K)) (cachedQueries : Nat)
    (query : PqRangeQuery K C) : Table K × PqRangeQuery K C :=
  let cachedIpTable := query.queryIndex < cachedQueries ∧ query.metric = .innerProduct
  let tableCentroid := centroid.filter fun _ => ¬ cachedIpTable
  if query.queryIndex < cachedQueries then
    let query :=
      if query.tableList.isNone ∨ (tableCentroid.isSome ∧ query.tableList ≠ some listId) then
        { query with
          table := buildPqRangeTable pq query.query query.metric tableCentroid
          tableList := some listId }
      else query
    (query.table, query)
  else (buildPqRangeTable pq query.query query.metric centroid, query)

/-- The product of the query with the centroid, where the table leaves it out. -/
def PqRangeQuery.ipOffset (centroid : Option (List K)) (cachedQueries : Nat)
    (query : PqRangeQuery K C) : Option K :=
  (centroid.filter fun _ => query.queryIndex < cachedQueries ∧ query.metric = .innerProduct).map
    fun centroid => -innerProduct query.query centroid

def scanPqRangeList (push : Int64 → K → C → IoResult C) (pq : ProductQuantizer K) (listId : Nat)
    (centroid : Option (List K)) (ids : List Int64) (codes : List UInt8) (transposed : Bool)
    (filter : Option RowIdFilter) (cachedQueries : Nat) (queries : List (PqRangeQuery K C)) :
    IoResult (List (PqRangeQuery K C)) :=
  let positions := matchingRows ids filter
  if ids = [] ∨ positions = some [] then .ok queries
  else queries.mapM fun query => do
    let (table, kept) := query.withTable pq listId centroid cachedQueries
    let collector ← scanPqRangeCodes push pq table query.metric
      (query.ipOffset centroid cachedQueries) ids codes transposed positions query.collector
    return { kept with collector }

namespace IVFPQIndexReader

/-- One call of the scan: a list that was read at once, or a chunk of a
streamed one. -/
structure RangeScan where
  listId : Nat
  ids : List Int64
  codes : List UInt8
  streamed : Bool

def rangeCentroid (self : IVFPQIndexReader K) (listId : Nat) : Option (List K) :=
  if self.byResidual then some (self.coarseCentroid listId) else none

/-- A list that is read at once is scanned once, so that a table of its own
would not be used again. -/
def rangeCachedQueries (self : IVFPQIndexReader K) (streamed : Bool) : Nat :=
  if !streamed ∧ self.byResidual ∧ self.metric ≠ .innerProduct then 0
  else pqRangeCacheQueryLimit self.pq pqRangeTableCacheBytes

def rangeScan (self : IVFPQIndexReader K) (push : Int64 → K → C → IoResult C)
    (filter : Option RowIdFilter) (queries : List (PqRangeQuery K C)) (scan : RangeScan) :
    IoResult (List (PqRangeQuery K C)) :=
  scanPqRangeList push self.pq scan.listId (self.rangeCentroid scan.listId) scan.ids scan.codes
    self.transposedCodes filter (self.rangeCachedQueries scan.streamed) queries

/-- A query between two scans. The table that it keeps is the one of its list. -/
structure RangeQueryOf (reader : IVFPQIndexReader K) (q : List K) (query : PqRangeQuery K C) :
    Prop where
  query_eq : query.query = q
  metric_eq : query.metric = reader.metric
  table_eq : ∀ listId, query.tableList = some listId → query.table =
    buildPqRangeTable reader.pq q reader.metric
      ((reader.rangeCentroid listId).filter fun _ => reader.metric ≠ .innerProduct)

omit [Mul K] in
theorem rangeQueryOf_new (self : IVFPQIndexReader K) (queryIndex : Nat) (q : List K)
    (collector : C) :
    self.RangeQueryOf q (PqRangeQuery.new queryIndex q self.metric collector) where
  query_eq := rfl
  metric_eq := rfl
  table_eq listId h := by cases h

section Table

variable {self : IVFPQIndexReader K} {q : List K} {query : PqRangeQuery K C}

omit [Mul K] [Zero K] in
theorem RangeQueryOf.withTable (h : self.RangeQueryOf q query) (listId cachedQueries : Nat) :
    (query.withTable self.pq listId (self.rangeCentroid listId) cachedQueries).1 =
        buildPqRangeTable self.pq q self.metric ((self.rangeCentroid listId).filter fun _ =>
          ¬ (query.queryIndex < cachedQueries ∧ self.metric = .innerProduct)) ∧
      self.RangeQueryOf q
        (query.withTable self.pq listId (self.rangeCentroid listId) cachedQueries).2 := by
  by_cases hcached : query.queryIndex < cachedQueries
  · have hcentroid : (self.rangeCentroid listId).filter (fun _ =>
        ¬ (query.queryIndex < cachedQueries ∧ query.metric = .innerProduct)) =
        (self.rangeCentroid listId).filter fun _ => self.metric ≠ .innerProduct := by
      simp only [hcached, true_and, h.metric_eq, ne_eq]
    have hcentroid' : (self.rangeCentroid listId).filter (fun _ =>
        ¬ (query.queryIndex < cachedQueries ∧ self.metric = .innerProduct)) =
        (self.rangeCentroid listId).filter fun _ => self.metric ≠ .innerProduct := by
      simp only [hcached, true_and, ne_eq]
    rw [hcentroid', PqRangeQuery.withTable]
    dsimp only
    rw [if_pos hcached, hcentroid]
    split
    case isTrue hbuild =>
      refine ⟨by rw [h.query_eq, h.metric_eq], h.query_eq, h.metric_eq, fun l hl => ?_⟩
      cases hl
      rw [h.query_eq, h.metric_eq]
    case isFalse hkeep =>
      refine ⟨?_, h⟩
      -- The table is kept for the same list, or because it has no centroid.
      obtain ⟨hsome, hkept⟩ := not_or.mp hkeep
      obtain ⟨l, hl⟩ := Option.isSome_iff_exists.mp (Option.isSome_iff_ne_none.mpr fun hnone =>
        hsome (Option.isNone_iff_eq_none.mpr hnone))
      rw [h.table_eq l hl]
      by_cases hsame : l = listId
      · rw [hsame]
      · have hnone : ((self.rangeCentroid listId).filter fun _ => self.metric ≠ .innerProduct) =
            none := by
          by_contra hne
          refine hkept ⟨Option.isSome_iff_ne_none.mpr hne, ?_⟩
          rw [hl]
          exact fun heq => hsame (Option.some.inj heq)
        rw [hnone]
        by_cases hresidual : self.byResidual = true
        · simp only [rangeCentroid, if_pos hresidual, Option.filter_some] at hnone ⊢
          split at hnone
          · cases hnone
          · next hip => rw [if_neg hip]
        · rw [rangeCentroid, if_neg hresidual, Option.filter_none]
  · have hcentroid : (self.rangeCentroid listId).filter (fun _ =>
        ¬ (query.queryIndex < cachedQueries ∧ self.metric = .innerProduct)) =
        self.rangeCentroid listId := by
      simp only [hcached, false_and, not_false_eq_true, decide_true]
      cases self.rangeCentroid listId <;> rfl
    rw [hcentroid, PqRangeQuery.withTable]
    dsimp only
    rw [if_neg hcached]
    exact ⟨by rw [h.query_eq, h.metric_eq], h⟩

def scannedPositions (ids : List Int64) (filter : Option RowIdFilter) : List Nat :=
  (matchingRows ids filter).getD (List.range ids.length)

variable {filter : Option RowIdFilter}

theorem scannedPositions_eq_nil {ids : List Int64}
    (h : ids = [] ∨ matchingRows ids filter = some []) : scannedPositions ids filter = [] := by
  rcases h with rfl | h
  · cases filter <;> rfl
  · rw [scannedPositions, h]
    rfl

def rangeEstimate (self : IVFPQIndexReader K) (q : List K) (queryIndex : Nat) (scan : RangeScan)
    (position : Nat) : K :=
  let cachedIpTable :=
    queryIndex < self.rangeCachedQueries scan.streamed ∧ self.metric = .innerProduct
  let centroid := self.rangeCentroid scan.listId
  pqRangeDistance self.pq
    (buildPqRangeTable self.pq q self.metric (centroid.filter fun _ => ¬ cachedIpTable)) self.metric
    ((centroid.filter fun _ => cachedIpTable).map fun centroid => -innerProduct q centroid)
    scan.ids.length scan.codes self.transposedCodes position

/-- What one scan does to a query: its rows go to the collector. -/
def RangeScanned (self : IVFPQIndexReader K) (push : Int64 → K → C → IoResult C)
    (filter : Option RowIdFilter) (scan : RangeScan) (q : List K) (query : PqRangeQuery K C)
    (query' : PqRangeQuery K C) : Prop :=
  self.RangeQueryOf q query' ∧ query'.queryIndex = query.queryIndex ∧
    (scannedPositions scan.ids filter).foldlM (fun collector position =>
      push (scan.ids.getD position 0) (self.rangeEstimate q query.queryIndex scan position)
        collector) query.collector = .ok query'.collector

omit [Mul K] [Zero K] in
theorem withTable_collector (listId : Nat) (centroid : Option (List K)) (cachedQueries : Nat)
    (query : PqRangeQuery K C) :
    (query.withTable pq listId centroid cachedQueries).2.queryIndex = query.queryIndex ∧
      (query.withTable pq listId centroid cachedQueries).2.collector = query.collector := by
  rw [PqRangeQuery.withTable]
  dsimp only
  split
  · split <;> exact ⟨rfl, rfl⟩
  · exact ⟨rfl, rfl⟩

variable {push : Int64 → K → C → IoResult C}

theorem rangeScan_ok {scan : RangeScan} {queries queries' : List (PqRangeQuery K C)}
    (h : self.rangeScan push filter queries scan = .ok queries') :
    List.Forall₂ (fun query query' => ∀ q, self.RangeQueryOf q query →
      self.RangeScanned push filter scan q query query') queries queries' := by
  rw [rangeScan, scanPqRangeList] at h
  dsimp only at h
  split at h
  case isTrue hnone =>
    cases h
    refine List.forall₂_same.mpr fun query _ q hquery => ⟨hquery, rfl, ?_⟩
    rw [scannedPositions_eq_nil hnone]
    rfl
  case isFalse hsome =>
    refine (mapM_eq_ok.mp h).imp fun query query' hscan q hquery => ?_
    simp only [accepted] at hscan
    obtain ⟨collector, hcollector, rfl⟩ := hscan
    obtain ⟨htable, hkept⟩ := hquery.withTable scan.listId (self.rangeCachedQueries scan.streamed)
    obtain ⟨hindex, -⟩ := withTable_collector self.pq scan.listId (self.rangeCentroid scan.listId)
      (self.rangeCachedQueries scan.streamed) query
    refine ⟨⟨hkept.query_eq, hkept.metric_eq, hkept.table_eq⟩, hindex, ?_⟩
    rw [htable, PqRangeQuery.ipOffset, hquery.query_eq, hquery.metric_eq] at hcollector
    exact hcollector

/-- The states of a query in a range search: before its first scan, and after
every scan of a batch of queries that it takes part in. -/
inductive RangeReached (self : IVFPQIndexReader K) (push : Int64 → K → C → IoResult C)
    (filter : Option RowIdFilter) (queryIndex : Nat) (q : List K) (collector : C) :
    PqRangeQuery K C → Prop
  | new : RangeReached self push filter queryIndex q collector
      (PqRangeQuery.new queryIndex q self.metric collector)
  | scan {queries queries' : List (PqRangeQuery K C)} {scan : RangeScan} {i : Nat}
      {query query' : PqRangeQuery K C} (hquery : queries[i]? = some query)
      (hbefore : RangeReached self push filter queryIndex q collector query)
      (hscan : self.rangeScan push filter queries scan = .ok queries')
      (hquery' : queries'[i]? = some query') :
      RangeReached self push filter queryIndex q collector query'

theorem rangeScan_getElem {scan : RangeScan} {queries queries' : List (PqRangeQuery K C)} {i : Nat}
    {query' : PqRangeQuery K C} (h : self.rangeScan push filter queries scan = .ok queries')
    (hquery : queries[i]? = some query) (hquery' : queries'[i]? = some query')
    (hof : self.RangeQueryOf q query) : self.RangeScanned push filter scan q query query' := by
  obtain ⟨hi, hget⟩ := List.getElem?_eq_some_iff.mp hquery
  obtain ⟨hi', hget'⟩ := List.getElem?_eq_some_iff.mp hquery'
  have hscan := (rangeScan_ok h).get hi hi'
  rw [List.get_eq_getElem, List.get_eq_getElem, hget, hget'] at hscan
  exact hscan q hof

theorem RangeReached.queryOf {queryIndex : Nat} {collector : C}
    (h : self.RangeReached push filter queryIndex q collector query) :
    self.RangeQueryOf q query ∧ query.queryIndex = queryIndex := by
  induction h with
  | new => exact ⟨rangeQueryOf_new self queryIndex q collector, rfl⟩
  | scan hquery _ hscan hquery' ih =>
    obtain ⟨hof, hindex, -⟩ := rangeScan_getElem hscan hquery hquery' ih.1
    exact ⟨hof, hindex.trans ih.2⟩

def recordRow (id : Int64) (value : K) (rows : List (Int64 × K)) : IoResult (List (Int64 × K)) :=
  .ok (rows ++ [(id, value)])

omit [VectorKernels K] [Add K] [Sub K] [Mul K] [Neg K] [Zero K] in
theorem foldlM_recordRow {α : Type} (id : α → Int64) (value : α → K) (positions : List α)
    (rows : List (Int64 × K)) :
    positions.foldlM (fun rows position => recordRow (id position) (value position) rows) rows =
      .ok (rows ++ positions.map fun position => (id position, value position)) := by
  induction positions generalizing rows with
  | nil => simp
  | cons position positions ih =>
    rw [List.foldlM_cons, recordRow, ok_bind, ih, List.append_assoc]
    rfl

theorem rangeScan_recordRow (filter : Option RowIdFilter) (scan : RangeScan)
    (queries : List (PqRangeQuery K (List (Int64 × K)))) :
    ∃ queries', self.rangeScan recordRow filter queries scan = .ok queries' := by
  rw [rangeScan, scanPqRangeList]
  dsimp only
  split
  · exact ⟨queries, rfl⟩
  · refine exists_mapM_ok fun query _ => ?_
    rw [scanPqRangeCodes, foldlM_recordRow, ok_bind]
    exact ⟨_, rfl⟩

end Table

end IVFPQIndexReader

end PaimonVindex
