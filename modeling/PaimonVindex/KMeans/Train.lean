import Mathlib.Algebra.Order.Field.Basic
import Mathlib.Algebra.BigOperators.Fin
import PaimonVindex.Ivf.Probe
import PaimonVindex.Lib.Rows

/-! Training of cluster centroids: flat, hierarchical, and over a stream of
chunks. Matrices are functions of row and column. -/

namespace PaimonVindex

open Checked

structure KMeansConfig (K : Type) where
  niter : Nat
  nredo : Nat
  maxPointsPerCentroid : Nat
  seed : UInt64
  balanceFactor : K

def KMeansConfig.default {K : Type} [Zero K] : KMeansConfig K where
  niter := 25
  nredo := 1
  maxPointsPerCentroid := 256
  seed := 1234
  balanceFactor := 0

structure Cluster (n d : Nat) (K : Type) where
  centroid : Fin d → K
  indices : List (Fin n)

/-- The random numbers, the logarithm of a cluster size, and which of several
largest clusters a binary heap returns first. -/
structure KMeansEnvironment (σ K : Type) where
  seedFromU64 : UInt64 → σ
  genRange : σ → (low high : Nat) → Nat × σ
  low_le_genRange : ∀ rng {low high : Nat}, low < high → low ≤ (genRange rng low high).1
  genRange_lt : ∀ rng {low high : Nat}, low < high → (genRange rng low high).1 < high
  gen : σ → K × σ
  ln : Nat → K
  tieBreak : (sizes : List Nat) → Nat

namespace KMeans

variable {σ K : Type} {n d k : Nat}

abbrev Vectors (n d : Nat) (K : Type) := Fin n → Fin d → K

def maxMatrixElems : Nat := 4 * 1024 * 1024

def hierarchicalThreshold : Nat := 256

def rowsOf [Zero K] (n d : Nat) (data : List K) : Vectors n d K :=
  fun i j => data.getD (i * d + j) 0

def flat (rows : Vectors n d K) : List K := (List.finRange n).flatMap fun i => List.ofFn (rows i)

section

variable (env : KMeansEnvironment σ K)

def pick (n : Nat) [NeZero n] (rng : σ) : Fin n × σ :=
  (⟨(env.genRange rng 0 n).1, env.genRange_lt rng (NeZero.pos n)⟩, (env.genRange rng 0 n).2)

/-- A partial shuffle of the row numbers, of which the first `targetN` are kept. -/
def subsampleIndices (n targetN : Nat) (h : targetN ≤ n) (rng : σ) : (Fin n → Fin n) × σ :=
  (List.finRange targetN).foldl (fun (state : (Fin n → Fin n) × σ) (i : Fin targetN) =>
    let drawn := env.genRange state.2 i n
    let j : Fin n := ⟨drawn.1, env.genRange_lt state.2 (i.isLt.trans_le h)⟩
    (state.1 ∘ Equiv.swap (Fin.castLE h i) j, drawn.2)) (id, rng)

def subsample (data : Vectors n d K) (targetN : Nat) (h : targetN ≤ n) (rng : σ) :
    Vectors targetN d K × σ :=
  let (indices, rng) := subsampleIndices env n targetN h rng
  (fun i => data (indices (Fin.castLE h i)), rng)

def popLargest (heap : List (Cluster n d K)) : Option (Cluster n d K × List (Cluster n d K)) :=
  let sizes := heap.map fun cluster => cluster.indices.length
  let largest := sizes.foldl max 0
  let ties := (List.range heap.length).filter fun i => sizes.getD i 0 = largest
  let position := ties.getD (env.tieBreak sizes % ties.length) 0
  heap[position]?.map fun cluster => (cluster, heap.eraseIdx position)

end

theorem popLargest_length {env : KMeansEnvironment σ K} {heap rest : List (Cluster n d K)}
    {largest : Cluster n d K} (h : popLargest env heap = some (largest, rest)) :
    heap.length = rest.length + 1 := by
  simp only [popLargest, Option.map_eq_some_iff, Prod.mk.injEq] at h
  obtain ⟨cluster, hcluster, -, rfl⟩ := h
  obtain ⟨hlt, -⟩ := List.getElem?_eq_some_iff.mp hcluster
  rw [List.length_eraseIdx_of_lt hlt]
  omega

variable [Field K] [LinearOrder K] [Scalar K] [VectorKernels K] (env : KMeansEnvironment σ K)

/-! ### Initialisation -/

def firstReaching (target : K) : (cumulative : K) → List (Fin n × K) → Option (Fin n)
  | _, [] => none
  | cumulative, (i, weight) :: rest =>
    if target ≤ cumulative + weight then some i else firstReaching target (cumulative + weight) rest

/-- The rows drawn after the first one, each with its distance to the rows
before it as weight. -/
def plusplusPicks (env : KMeansEnvironment σ K) (data : Vectors n d K) [NeZero n] :
    (rounds : Nat) → (prev : Fin n) → (minDists : Fin n → K) → σ → List (Fin n) × σ
  | 0, _, _, rng => ([], rng)
  | rounds + 1, prev, minDists, rng =>
    let minDists := fun i =>
      let dist := VectorKernels.l2sqr (List.ofFn (data i)) (List.ofFn (data prev))
      if dist < minDists i then dist else minDists i
    let (fraction, rng) := env.gen rng
    let target := fraction * ∑ i, minDists i
    let selected := (firstReaching target 0 ((List.finRange n).map fun i => (i, minDists i))).getD
      ⟨n - 1, Nat.sub_lt (NeZero.pos n) Nat.one_pos⟩
    let (rest, rng) := plusplusPicks env data rounds selected minDists rng
    (selected :: rest, rng)

def kmeansPlusplusInit (data : Vectors n d K) [NeZero n] (k : Nat) (rng : σ) : Vectors k d K × σ :=
  let (first, rng) := pick env n rng
  let (picks, rng) := plusplusPicks env data (k - 1) first (fun _ => Scalar.maxValue) rng
  (fun c => data ((first :: picks).getD c 0), rng)

/-! ### Assignment -/

/-- The nearest centroid and its distance; nothing is nearer than the largest
finite value to begin with. -/
def nearest [NeZero k] (dist : Fin k → K) : Fin k × K :=
  (List.finRange k).foldl (fun best c => if dist c < best.2 then (c, dist c) else best)
    (0, Scalar.maxValue)

def distance (x centroid : Fin d → K) : K :=
  VectorKernels.normL2sqr (List.ofFn x) + VectorKernels.normL2sqr (List.ofFn centroid) -
    2 * VectorKernels.sgemmEntry (List.ofFn x) (List.ofFn centroid)

/-- One call for the rows `rows`; the sizes are those of the incoming clusters. -/
def assignBalanced (balanceFactor : K) (data : Vectors n d K) (centroids : Vectors k d K)
    [NeZero k] (assignments : Fin n → Fin k) (rows : List (Fin n)) : List (Fin k × K) :=
  let clusterSizes := fun c => rows.countP fun i => assignments i = c
  rows.map fun i => nearest fun c =>
    let dist := distance (data i) (centroids c)
    if 0 < clusterSizes c then dist + balanceFactor * env.ln (clusterSizes c) else dist

/-- With a penalty for large clusters, in chunks that each see their own sizes. -/
def assignClustersBalancedSerial (balanceFactor : K) (data : Vectors n d K)
    (centroids : Vectors k d K) [NeZero k] (assignments : Fin n → Fin k) : List (Fin k × K) :=
  if maxMatrixElems < n * k then
    (Rows.chunks (maxMatrixElems / k) (List.finRange n)).flatMap
      (assignBalanced env balanceFactor data centroids assignments)
  else assignBalanced env balanceFactor data centroids assignments (List.finRange n)

/-- Assignments and objective. Blocks of rows differ only in the order in which
the objective is summed. -/
def assignClustersFast (data : Vectors n d K) (centroids : Vectors k d K) [NeZero k]
    (assignments : Fin n → Fin k) (balanceFactor : K) : (Fin n → Fin k) × K :=
  if 0 < balanceFactor then
    let assigned := assignClustersBalancedSerial env balanceFactor data centroids assignments
    (fun i => (assigned.getD i (0, Scalar.maxValue)).1, (assigned.map Prod.snd).sum)
  else if d = 0 then (fun _ => 0, 0)
  else
    let assigned := fun i => nearest fun c => distance (data i) (centroids c)
    (fun i => (assigned i).1, ∑ i, (assigned i).2)

/-! ### Update -/

def eps : K := 1 / 1024

def count (assignments : Fin n → Fin k) (c : Fin k) : Nat :=
  (List.finRange n).countP fun i => assignments i = c

def mean (data : Vectors n d K) (assignments : Fin n → Fin k) (c : Fin k) : Fin d → K := fun j =>
  (∑ i with assignments i = c, data i j) * (1 / (count assignments c : K))

/-- The last one of the largest clusters. -/
def donor [NeZero k] (counts : Fin k → Nat) : Fin k :=
  (List.finRange k).foldl (fun best c => if counts best ≤ counts c then c else best) 0

/-- Scaled by `1 + eps` and `1 - eps` in turn, the even columns first by `1 + sign * eps`. -/
def perturb (sign : K) (row : Fin d → K) : Fin d → K := fun j =>
  row j * (if (j : Nat) % 2 = 0 then 1 + sign * eps else 1 - sign * eps)

structure UpdateState (σ : Type) (k d : Nat) (K : Type) where
  centroids : Vectors k d K
  counts : Fin k → Nat
  rng : σ

/-- An empty cluster gets half of a largest one, or a random row if all have one
row at most. -/
def refill (data : Vectors n d K) [NeZero n] [NeZero k] (state : UpdateState σ k d K) (c : Fin k) :
    UpdateState σ k d K :=
  if 0 < state.counts c then state
  else
    let donor := donor state.counts
    if state.counts donor ≤ 1 then
      let (i, rng) := pick env n state.rng
      { state with centroids := Function.update state.centroids c (data i), rng := rng }
    else
      let donorCopy := state.centroids donor
      let half := state.counts donor / 2
      { state with
        centroids := Function.update
          (Function.update state.centroids c (perturb 1 donorCopy)) donor (perturb (-1) donorCopy)
        counts := Function.update
          (Function.update state.counts c half) donor (state.counts donor - half) }

def updateCentroids (data : Vectors n d K) [NeZero n] [NeZero k] (centroids : Vectors k d K)
    (assignments : Fin n → Fin k) (rng : σ) : Vectors k d K × σ :=
  let counts := count assignments
  let means := fun c => if 0 < counts c then mean data assignments c else centroids c
  let state := (List.finRange k).foldl (refill env data) ⟨means, counts, rng⟩
  (state.centroids, state.rng)

/-! ### Flat training -/

/-- At most `rounds` iterations. The objective that is returned is that of the
last iteration, or the one before if it hardly changed. -/
def iterations (env : KMeansEnvironment σ K) (balanceFactor : K) (data : Vectors n d K) [NeZero n]
    [NeZero k] : (rounds : Nat) → (prevObj : K) → Vectors k d K → (Fin n → Fin k) → σ →
      (K × Vectors k d K) × σ
  | 0, prevObj, centroids, _, rng => ((prevObj, centroids), rng)
  | rounds + 1, prevObj, centroids, assignments, rng =>
    let (assignments, obj) := assignClustersFast env data centroids assignments balanceFactor
    let (centroids, rng) := updateCentroids env data centroids assignments rng
    if prevObj < Scalar.maxValue ∧
        |prevObj - obj| / max prevObj (1 / 10 ^ 10) < 1 / 10 ^ 6 then
      ((prevObj, centroids), rng)
    else iterations env balanceFactor data rounds obj centroids assignments rng

/-- The objectives and centroids of all runs from new starting points. -/
def redos (env : KMeansEnvironment σ K) (config : KMeansConfig K) (data : Vectors n d K) [NeZero n]
    [NeZero k] : (count : Nat) → (initial : Option (Vectors k d K)) → σ → List (K × Vectors k d K)
  | 0, _, _ => []
  | count + 1, initial, rng =>
    let (centroids, rng) := match initial with
      | some centroids => (centroids, rng)
      | none => kmeansPlusplusInit env data k rng
    let (run, rng) := iterations env config.balanceFactor data config.niter Scalar.maxValue
      centroids (fun _ => 0) rng
    run :: redos env config data count none rng

/-- The centroids of the least objective; all zeros unless one is below the
largest finite value. -/
def best (runs : List (K × Vectors k d K)) : K × Vectors k d K :=
  runs.foldl (fun best run => if run.1 < best.1 then run else best) (Scalar.maxValue, fun _ _ => 0)

structure Sample (σ : Type) (d : Nat) (K : Type) where
  n : Nat
  rows : Vectors n d K
  rng : σ

variable (config : KMeansConfig K)

def trainingSample (data : Vectors n d K) (k : Nat) : Sample σ d K :=
  let rng := env.seedFromU64 config.seed
  let maxN := k * config.maxPointsPerCentroid
  if h : maxN < n then
    let (rows, rng) := subsample env data maxN h.le rng
    ⟨maxN, rows, rng⟩
  else ⟨n, data, rng⟩

def trainingRuns (sample : Sample σ d K) [NeZero sample.n] [NeZero k]
    (initial : Option (Vectors k d K)) : List (K × Vectors k d K) :=
  redos env config sample.rows (if initial.isSome then 1 else config.nredo) initial sample.rng

/-- `kmeans_train_with_init` behind its shape checks. A sample is empty only
if no points are allowed per centroid, which the checks exclude. -/
def trainFlat (data : Vectors n d K) (k : Nat) (initial : Option (Vectors k d K)) : Vectors k d K :=
  if hk : k = 0 then fun _ _ => 0
  else
    let sample := trainingSample env config data k
    if hn : sample.n = 0 then fun _ _ => 0
    else if sample.n ≤ k then
      fun c => sample.rows ⟨c % sample.n, Nat.mod_lt _ (Nat.pos_of_ne_zero hn)⟩
    else
      haveI : NeZero sample.n := ⟨hn⟩
      haveI : NeZero k := ⟨hk⟩
      (best (trainingRuns env config sample initial)).2

/-! ### Hierarchical training -/

def initialK (targetK : Nat) : Nat := min 16 targetK

def initialConfig : KMeansConfig K :=
  { KMeansConfig.default with
    niter := config.niter
    seed := config.seed
    maxPointsPerCentroid := config.maxPointsPerCentroid }

def clustersOf (centroids : Vectors k d K) (assignments : Fin n → Fin k) : List (Cluster n d K) :=
  (List.finRange k).map fun c =>
    ⟨centroids c, (List.finRange n).filter fun i => assignments i = c⟩

def initialClusters (train : Vectors n d K) (k : Nat) [NeZero k] : List (Cluster n d K) :=
  let centroids := trainFlat env (initialConfig config) train k none
  clustersOf centroids (assignClustersFast env train centroids (fun _ => 0) 0).1

def splitConfig (finalized : Nat) : KMeansConfig K :=
  { KMeansConfig.default with
    niter := 10
    seed := config.seed + UInt64.ofNat finalized
    maxPointsPerCentroid := config.maxPointsPerCentroid }

/-- The two halves of a cluster, those that are not empty. -/
def splitCluster (train : Vectors n d K) (finalized : Nat) (largest : Cluster n d K) :
    List (Cluster n d K) :=
  let subData : Vectors largest.indices.length d K := fun i => train (largest.indices.get i)
  let subCentroids := trainFlat env (splitConfig config finalized) subData 2 none
  let subAssignments := (assignClustersFast env subData subCentroids (fun _ => 0) 0).1
  ((clustersOf subCentroids subAssignments).map fun cluster =>
    ⟨cluster.centroid, cluster.indices.map largest.indices.get⟩).filter
      fun cluster => !cluster.indices.isEmpty

/-- Clusters too small to split, or that do not fall apart, are final. -/
def splitClusters (env : KMeansEnvironment σ K) (config : KMeansConfig K) (train : Vectors n d K)
    (targetK : Nat) (finalized : List (Fin d → K)) (heap : List (Cluster n d K)) :
    List (Fin d → K) × List (Cluster n d K) :=
  if finalized.length + heap.length < targetK then
    match _hpop : popLargest env heap with
    | none => (finalized, heap)
    | some (largest, rest) =>
      if largest.indices.length < 4 then
        splitClusters env config train targetK (finalized ++ [largest.centroid]) rest
      else
        let children := splitCluster env config train finalized.length largest
        if children.length < 2 then
          splitClusters env config train targetK (finalized ++ [largest.centroid]) rest
        else splitClusters env config train targetK finalized (rest ++ children)
  else (finalized, heap)
termination_by (targetK - (finalized.length + heap.length), heap.length)
decreasing_by
  · have hlength := popLargest_length _hpop
    simp only [Prod.lex_def, List.length_append, List.length_singleton]
    omega
  · have hlength := popLargest_length _hpop
    simp only [Prod.lex_def, List.length_append, List.length_singleton]
    omega
  · have hlength := popLargest_length _hpop
    have hchildren : ¬children.length < 2 := by assumption
    simp only [children] at hchildren
    simp only [Prod.lex_def, List.length_append]
    omega

/-- Centroids of the clusters left, the largest first, until there are enough. -/
def collectHeap (env : KMeansEnvironment σ K) (targetK : Nat) :
    (rounds : Nat) → (result : List (Fin d → K)) → List (Cluster n d K) → List (Fin d → K)
  | 0, result, _ => result
  | rounds + 1, result, heap =>
    match popLargest env heap with
    | none => result
    | some (cluster, rest) =>
      let result := result ++ [cluster.centroid]
      if targetK ≤ result.length then result else collectHeap env targetK rounds result rest

/-- Repeats centroids until there are enough. -/
def padResult (targetK : Nat) (result : List (Fin d → K)) : List (Fin d → K) :=
  let produced := result.length
  if produced < targetK ∧ result ≠ [] then
    result ++ (List.range (targetK - produced)).map fun i =>
      result.getD ((produced + i) % produced) fun _ => 0
  else result

def trainHierarchical (data : Vectors n d K) (targetK : Nat) : Vectors targetK d K :=
  if hk : initialK targetK = 0 then fun _ _ => 0
  else
    haveI : NeZero (initialK targetK) := ⟨hk⟩
    let sample := trainingSample env config data targetK
    let clusters := initialClusters env config sample.rows (initialK targetK)
    let (finalized, heap) := splitClusters env config sample.rows targetK [] clusters
    let result := padResult targetK (collectHeap env targetK heap.length finalized heap)
    fun c => result.getD c fun _ => 0

/-! ### The entry points -/

def assertDataShape (data : List K) (n d : Nat) : IoResult Unit := do
  let expected ← okOr (checkedMul n d) (panicked "data shape overflows usize")
  rejectIf (data.length ≠ expected) (panicked "data length does not match n * d")

def checkedMatrixLen (name : String) (rows cols : Nat) : IoResult Nat :=
  okOr (checkedMul rows cols) (panicked s!"{name} shape overflows usize")

/-- The product that limits the sample, with overflow checks on. -/
def checkPoints (k : Nat) : IoResult Unit :=
  rejectIf (wordSize ≤ k * config.maxPointsPerCentroid)
    (panicked "attempt to multiply with overflow")

def kmeansTrainWithInit (data : List K) (n d k : Nat) (initial : Option (List K)) :
    IoResult (Vectors k d K) := do
  assertDataShape data n d
  let centroidLen ← checkedMatrixLen "centroid" k d
  rejectIf (∃ init, initial = some init ∧ init.length ≠ centroidLen)
    (panicked "initial_centroids length does not match k * d")
  if n = 0 ∨ k = 0 then return fun _ _ => 0
  else do
    checkPoints config k
    rejectIf (config.maxPointsPerCentroid = 0)
      (panicked "attempt to calculate the remainder with a divisor of zero")
    return trainFlat env config (rowsOf n d data) k (initial.map (rowsOf k d))

def kmeansTrain (data : List K) (n d k : Nat) : IoResult (List K) := do
  assertDataShape data n d
  let _ ← checkedMatrixLen "centroid" k d
  if hierarchicalThreshold < k ∧ k < n then do
    checkPoints config k
    return flat (trainHierarchical env config (rowsOf n d data) k)
  else return flat (← kmeansTrainWithInit env config data n d k none)

/-! ### Streams -/

structure CoresetRow (d : Nat) (K : Type) where
  centroid : Fin d → K
  weight : K

end KMeans

open KMeans

structure StreamingKMeans (d k : Nat) (K : Type) where
  config : KMeansConfig K
  coreset : List (CoresetRow d K)

namespace StreamingKMeans

variable {σ K : Type} [Field K] [LinearOrder K] [Scalar K] [VectorKernels K] {d k : Nat}

def new (config : KMeansConfig K) : StreamingKMeans d k K := ⟨config, []⟩

variable {n chunkK : Nat} (env : KMeansEnvironment σ K)

end StreamingKMeans

end PaimonVindex
