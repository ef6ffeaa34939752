import PaimonVindex.Ivf.PqIndex
import PaimonVindex.KMeans.Streaming

/-! Whether the search structures of an index in memory belong to its current
centroids, codebook and codes. Every mutator clears them or keeps what they are
computed from, except training. -/

namespace PaimonVindex

open Checked

namespace InMemory.IVFPQIndex

variable {G K : Type} [Add K] [Sub K] [Mul K] [Neg K] [Zero K] [One K] [Scalar K] [VectorKernels K]
  {env : IndexEnvironment G K} {index next : IVFPQIndex G K}

def freshTable (index : IVFPQIndex G K) : List K :=
  index.tableWith (codewordNorms index.pq.toProductQuantizer)

structure NeverStale (index : IVFPQIndex G K) : Prop where
  table : index.precomputedTable = [] ∨ index.precomputedTable = index.freshTable
  fastscan : index.fastscanCodes = [] ∨ index.fastscanCodes = index.packing

theorem neverStale_of_cleared (htable : index.precomputedTable = [])
    (hfastscan : index.fastscanCodes = []) : index.NeverStale :=
  ⟨.inl htable, .inl hfastscan⟩

theorem withNbits_neverStale {d nlist m nbits : Nat} {metric : MetricType} {useOpq : Bool}
    (h : withNbits env d nlist m nbits metric useOpq = .ok index) : index.NeverStale := by
  simp only [withNbits, bind_eq_ok, pure_eq_ok] at h
  obtain ⟨_, -, pq, -, ⟨⟩⟩ := h
  exact neverStale_of_cleared rfl rfl

/-! ### Mutators that clear -/

theorem setQuantizerCentroids_neverStale {centroids : List K}
    (h : index.setQuantizerCentroids env centroids = .ok next) : next.NeverStale := by
  simp only [setQuantizerCentroids, bind_eq_ok, pure_eq_ok] at h
  obtain ⟨_, -, _, -, ⟨⟩⟩ := h
  exact neverStale_of_cleared rfl rfl

variable {data : List K} {n : Nat}

theorem addBatch_neverStale {ids : List Int64} (h : index.addBatch env data ids n = .ok next) :
    next.NeverStale := by
  simp only [addBatch, bind_eq_ok, pure_eq_ok] at h
  obtain ⟨processed, -, _, -, ⟨⟩⟩ := h
  exact neverStale_of_cleared rfl rfl

/-- Without rows there is no batch, and nothing is cleared. -/
theorem add_neverStale (hindex : index.NeverStale) {ids : List Int64}
    (h : index.add env data ids n = .ok next) : next.NeverStale := by
  rw [add] at h
  generalize List.range ((n + batchSize - 1) / batchSize) = batches at h
  induction batches generalizing index with
  | nil =>
    cases h
    exact hindex
  | cons batch batches ih =>
    rw [List.foldlM_cons] at h
    obtain ⟨first, hfirst, hrest⟩ := bind_eq_ok.mp h
    simp only [bind_eq_ok] at hfirst
    obtain ⟨_, -, _, -, hbatch⟩ := hfirst
    exact ih (addBatch_neverStale hbatch) hrest

theorem mergeFrom_neverStale {other : IVFPQIndex G K} (h : index.mergeFrom env other = .ok next) :
    next.NeverStale := by
  simp only [mergeFrom, bind_eq_ok, pure_eq_ok] at h
  obtain ⟨_, -, ⟨⟩⟩ := h
  exact neverStale_of_cleared rfl rfl

/-! ### Builders -/

theorem buildSearchStructures_neverStale (h : index.NeverStale) :
    index.buildSearchStructures.NeverStale := by
  rw [buildSearchStructures]
  split
  · exact ⟨h.table, .inr rfl⟩
  · exact h

theorem buildPrecomputedTable_neverStale (hindex : index.NeverStale)
    (h : index.buildPrecomputedTable = .ok next) : next.NeverStale := by
  rw [buildPrecomputedTable] at h
  split at h
  · cases h
    exact hindex
  · simp only [bind_eq_ok, pure_eq_ok] at h
    obtain ⟨_, -, _, -, ⟨⟩⟩ := h
    refine ⟨.inr ?_, hindex.fastscan⟩
    simp only [CachedQuantizer.computeCentroidNorms_eq]
    rfl

/-! ### Training -/

/-- Everything that training leaves alone. -/
structure KeepsRows (index next : IVFPQIndex G K) : Prop where
  table : next.precomputedTable = index.precomputedTable
  fastscan : next.fastscanCodes = index.fastscanCodes
  ids : next.ids = index.ids
  codes : next.codes = index.codes
  m : next.pq.m = index.pq.m
  nbits : next.pq.nbits = index.pq.nbits

theorem setCentroids_keeps {pq trained : CachedQuantizer K} {centroids : List K}
    (h : pq.setCentroids centroids = .ok trained) :
    trained.m = pq.m ∧ trained.nbits = pq.nbits := by
  simp only [CachedQuantizer.setCentroids, bind_eq_ok, pure_eq_ok] at h
  obtain ⟨_, -, ⟨⟩⟩ := h
  exact ⟨rfl, rfl⟩

theorem quantizer_keeps {pq trained : CachedQuantizer K} {config : KMeansConfig K}
    (h : pq.trainWithConfig env data n config = .ok trained) :
    trained.m = pq.m ∧ trained.nbits = pq.nbits := by
  obtain ⟨_, -, hset⟩ := bind_eq_ok.mp h
  exact setCentroids_keeps hset

theorem trainRotation_keeps {trainData effective : List K} {config : KMeansConfig K}
    (h : index.trainRotation env trainData n config = .ok (next, effective)) :
    index.KeepsRows next := by
  rw [trainRotation] at h
  split at h
  · cases h
    exact ⟨rfl, rfl, rfl, rfl, rfl, rfl⟩
  · simp only [bind_eq_ok, pure_eq_ok] at h
    obtain ⟨_, -, pq, hset, ⟨⟩⟩ := h
    obtain ⟨hm, hnbits⟩ := setCentroids_keeps hset
    exact ⟨rfl, rfl, rfl, rfl, hm, hnbits⟩

theorem train_keeps {ivfConfig pqConfig : KMeansConfig K}
    (h : index.trainWithConfig env data n ivfConfig pqConfig = .ok next) :
    index.KeepsRows next := by
  simp only [trainWithConfig, bind_eq_ok] at h
  obtain ⟨trainData, -, ⟨rotated, effective⟩, hrotated, centroids, -, h⟩ := h
  have hkeeps := trainRotation_keeps hrotated
  dsimp only at h
  split at h
  · obtain ⟨pq, hpq, ⟨⟩⟩ := bind_eq_ok.mp h
    obtain ⟨hm, hnbits⟩ := quantizer_keeps hpq
    exact ⟨hkeeps.table, hkeeps.fastscan, hkeeps.ids, hkeeps.codes, hm.trans hkeeps.m,
      hnbits.trans hkeeps.nbits⟩
  · obtain ⟨pq, hpq, ⟨⟩⟩ := bind_eq_ok.mp h
    obtain ⟨hm, hnbits⟩ := quantizer_keeps hpq
    exact ⟨hkeeps.table, hkeeps.fastscan, hkeeps.ids, hkeeps.codes, hm.trans hkeeps.m,
      hnbits.trans hkeeps.nbits⟩

theorem KeepsRows.packing (h : index.KeepsRows next) : next.packing = index.packing := by
  have hsize : next.pq.codeSize = index.pq.codeSize := by
    rw [ProductQuantizer.codeSize, ProductQuantizer.codeSize, h.m, h.nbits]
  rw [IVFPQIndex.packing, IVFPQIndex.packing, h.codes, h.ids, hsize]

theorem train_neverStale (hindex : index.NeverStale) (htable : index.precomputedTable = [])
    {ivfConfig pqConfig : KMeansConfig K}
    (h : index.trainWithConfig env data n ivfConfig pqConfig = .ok next) : next.NeverStale := by
  have hkeeps := train_keeps h
  refine ⟨.inl (hkeeps.table.trans htable), ?_⟩
  rw [hkeeps.fastscan, hkeeps.packing]
  exact hindex.fastscan

def Call.trains : Call G K → Bool
  | .train .. => true
  | _ => false

/-- Every training of the run starts from an index without a table. -/
def trainsUntabled (env : IndexEnvironment G K) : List (Call G K) → IVFPQIndex G K → Bool
  | [], _ => true
  | op :: ops, index => (!op.trains || index.precomputedTable.isEmpty) &&
    match index.call env op with
    | .ok next => next.trainsUntabled env ops
    | .error _ => true

theorem call_neverStale (hindex : index.NeverStale) {op : Call G K}
    (htrain : op.trains → index.precomputedTable = []) (h : index.call env op = .ok next) :
    next.NeverStale := by
  cases op with
  | train data n ivfConfig pqConfig => exact train_neverStale hindex (htrain rfl) h
  | setQuantizerCentroids centroids => exact setQuantizerCentroids_neverStale h
  | add data ids n => exact add_neverStale hindex h
  | mergeFrom other =>
    cases h
    cases hmerge : index.mergeFrom env other with
    | error e => exact hindex
    | ok merged => exact mergeFrom_neverStale hmerge
  | buildSearchStructures =>
    cases h
    exact buildSearchStructures_neverStale hindex
  | buildPrecomputedTable => exact buildPrecomputedTable_neverStale hindex h

theorem calls_neverStale {ops : List (Call G K)} (hindex : index.NeverStale)
    (hops : index.trainsUntabled env ops) (h : index.calls env ops = .ok next) :
    next.NeverStale := by
  induction ops generalizing index with
  | nil =>
    cases h
    exact hindex
  | cons op ops ih =>
    rw [calls, List.foldlM_cons] at h
    obtain ⟨first, hfirst, hrest⟩ := bind_eq_ok.mp h
    simp only [trainsUntabled, hfirst, Bool.and_eq_true, Bool.or_eq_true, Bool.not_eq_true',
      List.isEmpty_iff] at hops
    refine ih (call_neverStale hindex (fun htrain => ?_) hfirst) hops.2 hrest
    exact hops.1.resolve_left (by rw [htrain]; decide)

/-- As long as no training meets a table, no call leaves a stale structure. -/
theorem search_structures_stay_fresh (env : IndexEnvironment G K) {d nlist m nbits : Nat}
    {metric : MetricType} {useOpq : Bool} {start s : IVFPQIndex G K}
    (hstart : withNbits env d nlist m nbits metric useOpq = .ok start) {ops : List (Call G K)}
    (hops : start.trainsUntabled env ops) (hs : start.calls env ops = .ok s) : s.NeverStale :=
  calls_neverStale (withNbits_neverStale hstart) hops hs

/-- One list, exact values, and the clustering with the lowest random numbers. -/
def oneListEnvironment : IndexEnvironment Unit Rat where
  kmeansTrain := KMeans.kmeansTrain KMeans.lowestDraws
  kmeansTrainWithInit config data n d k :=
    (KMeans.kmeansTrainWithInit KMeans.lowestDraws config data n d k none).map KMeans.flat
  trainRotation _ rotation _ _ pq := .ok (rotation, pq.centroids)
  applyBatch _ data _ := data
  coarseDefault := ()
  coarseReset _ := ()
  coarseAssign _ _ n _ _ _ := (List.replicate n 0, ())
  encodeBatch _ pq _ n := List.replicate (n * pq.codeSize) 0
  sameValues a b := a = b

/-- Rows added between two trainings clear the table of the first. -/
def rebuilding : List (Call Unit Rat) :=
  [.train [0, 0, 2, 2] 2 .default .default, .buildPrecomputedTable, .buildSearchStructures,
    .add [1, 1] [7] 1, .train [10, 10, 12, 12] 2 .default .default, .buildPrecomputedTable,
    .buildSearchStructures]

theorem search_structures_stay_fresh_rebuilding : ∃ start s,
    withNbits oneListEnvironment 2 1 2 4 .l2 false = .ok start ∧
      start.calls oneListEnvironment rebuilding = .ok s ∧
      s.precomputedTable.take 2 = [-21, 23] ∧ s.fastscanCodes ≠ [] ∧ s.NeverStale := by
  obtain ⟨start, hstart⟩ : ∃ start, withNbits oneListEnvironment 2 1 2 4 .l2 false = .ok start :=
    ⟨_, rfl⟩
  have hrun : (withNbits oneListEnvironment 2 1 2 4 .l2 false >>= fun start =>
      start.calls oneListEnvironment rebuilding).map (fun s =>
        (s.precomputedTable.take 2, s.fastscanCodes.isEmpty)) = .ok ([-21, 23], false) := by
    decide +kernel
  have hops : (withNbits oneListEnvironment 2 1 2 4 .l2 false).map
      (trainsUntabled oneListEnvironment rebuilding) = .ok true := by
    decide +kernel
  simp only [hstart, ok_bind, Except.map, Except.ok.injEq] at hrun hops
  split at hrun
  · cases hrun
  · rename_i s hs
    simp only [Except.ok.injEq, Prod.mk.injEq, List.isEmpty_eq_false_iff] at hrun
    exact ⟨start, s, hstart, hs, hrun.1, hrun.2, search_structures_stay_fresh _ hstart hops hs⟩

/-- Training on other rows once the table is built. -/
def retraining : List (Call Unit Rat) :=
  [.train [0, 0, 2, 2] 2 .default .default, .buildPrecomputedTable,
    .train [10, 10, 12, 12] 2 .default .default]

/-- The table in use is the one of the first centroid. -/
theorem retraining_keeps_old_table :
    ((withNbits oneListEnvironment 2 1 2 4 .l2 false >>= fun start =>
      start.calls oneListEnvironment retraining).map fun s =>
        (s.precomputedTable.take 2, s.freshTable.take 2)) = .ok ([-1, 3], [-21, 23]) := by
  decide +kernel

/-! ### The file -/

section Stored

variable [Add F32] [Sub F32] [Mul F32] [Neg F32] [Zero F32] [One F32] [VectorKernels F32]
  {index next : IVFPQIndex G F32} {file written : PaimonVindex.IVFPQIndex}

/-- What the writer takes of an index: the search structures are not among it. -/
structure StoredAs (index : IVFPQIndex G F32) (file : PaimonVindex.IVFPQIndex) : Prop where
  d : file.d = index.d
  nlist : file.nlist = index.nlist
  metric : file.metric = index.metric
  byResidual : file.byResidual = index.byResidual
  centroids : file.quantizerCentroids = index.quantizerCentroids
  pq : file.pq = index.pq.toProductQuantizer
  rotation : file.rotation = index.opq.map OPQMatrix.rotation
  ids : file.ids = index.ids
  codes : file.codes = index.codes

theorem StoredAs.unique (h : index.StoredAs file) (h' : index.StoredAs written) :
    written = file := by
  cases file
  cases written
  obtain ⟨rfl, rfl, rfl, rfl, rfl, rfl, rfl, rfl, rfl⟩ := h
  obtain ⟨rfl, rfl, rfl, rfl, rfl, rfl, rfl, rfl, rfl⟩ := h'
  rfl

theorem StoredAs.of_buildSearchStructures (h : index.buildSearchStructures.StoredAs file) :
    index.StoredAs file := by
  rw [buildSearchStructures] at h
  split at h
  · exact ⟨h.1, h.2, h.3, h.4, h.5, h.6, h.7, h.8, h.9⟩
  · exact h

theorem StoredAs.of_buildPrecomputedTable (hbuild : index.buildPrecomputedTable = .ok next)
    (h : next.StoredAs file) : index.StoredAs file := by
  rw [buildPrecomputedTable] at hbuild
  split at hbuild
  · cases hbuild
    exact h
  · simp only [bind_eq_ok, pure_eq_ok] at hbuild
    obtain ⟨_, -, _, -, ⟨⟩⟩ := hbuild
    exact ⟨h.1, h.2, h.3, h.4, h.5, h.6, h.7, h.8, h.9⟩

/-- The file of an index with its search structures is the file of the index without them. -/
theorem writeIndex_of_search_structures (h : index.StoredAs file)
    (hbuild : index.buildSearchStructures.buildPrecomputedTable = .ok next)
    (hwritten : next.StoredAs written) : written.writeIndex = file.writeIndex := by
  have hindex := (hwritten.of_buildPrecomputedTable hbuild).of_buildSearchStructures
  rw [h.unique hindex]

end Stored

end InMemory.IVFPQIndex

end PaimonVindex
