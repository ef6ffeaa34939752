import PaimonVindex.Ivf.PqScan
import PaimonVindex.KMeans.Train

/-! The IVF-PQ index in memory: training, adding, merging, and the structures that
speed up its search. -/

namespace PaimonVindex

open Checked VectorKernels

namespace InMemory

variable {G K : Type} [Add K] [Sub K] [Mul K] [Neg K] [Zero K] [One K] [Scalar K] [VectorKernels K]

def codewordNorms (pq : ProductQuantizer K) : Table K := fun sub code =>
  normL2sqr (pq.codeword sub code)

structure CachedQuantizer (K : Type) [Add K] [Sub K] [Mul K] [Neg K] [Zero K] [One K] [Scalar K]
    [VectorKernels K] extends ProductQuantizer K where
  centroidNormsCache : Option (Table K)
  cached : ∀ norms, centroidNormsCache = some norms → norms = codewordNorms toProductQuantizer

namespace CachedQuantizer

def withNbits (d m nbits : Nat) : IoResult (CachedQuantizer K) := do
  rejectIf (m = 0 ∨ d % m ≠ 0) (panicked s!"dimension {d} must be divisible by m={m}")
  rejectIf (nbits ≠ 4 ∧ nbits ≠ 8) (panicked s!"nbits must be 4 or 8, got {nbits}")
  return ⟨⟨d, m, nbits, []⟩, none, nofun⟩

def setCentroids (pq : CachedQuantizer K) (centroids : List K) : IoResult (CachedQuantizer K) := do
  rejectIf (centroids.length ≠ pq.d * pq.ksub) (panicked "PQ centroids must hold d * ksub values")
  let trained : ProductQuantizer K := { pq.toProductQuantizer with centroids := centroids }
  return ⟨trained, some (codewordNorms trained), fun _ h => (Option.some.inj h).symm⟩

def computeCentroidNorms (pq : CachedQuantizer K) : Table K :=
  pq.centroidNormsCache.getD (codewordNorms pq.toProductQuantizer)

@[simp] theorem computeCentroidNorms_eq (pq : CachedQuantizer K) :
    pq.computeCentroidNorms = codewordNorms pq.toProductQuantizer := by
  rw [computeCentroidNorms]
  cases hcache : pq.centroidNormsCache with
  | none => rfl
  | some norms => exact pq.cached norms hcache

end CachedQuantizer

/-- Routines that the index calls: clustering, the rotation and its training
(which leaves a codebook behind), the coarse assignment with its state, and the
encoders. -/
structure IndexEnvironment (G K : Type) where
  kmeansTrain : KMeansConfig K → (data : List K) → (n d k : Nat) → IoResult (List K)
  kmeansTrainWithInit : KMeansConfig K → (data : List K) → (n d k : Nat) → IoResult (List K)
  trainRotation : KMeansConfig K → (rotation data : List K) → (n : Nat) → ProductQuantizer K →
    IoResult (List K × List K)
  applyBatch : (rotation data : List K) → (n : Nat) → List K
  coarseDefault : G
  coarseReset : G → G
  coarseAssign : G → (data : List K) → (n : Nat) → (centroids : List K) → (nlist d : Nat) →
    List Nat × G
  encodeBatch : (canonical : Bool) → ProductQuantizer K → (data : List K) → (n : Nat) → List UInt8
  /-- Whether two slices compare equal as values. -/
  sameValues : List K → List K → Bool

structure OPQMatrix (K : Type) where
  d : Nat
  m : Nat
  rotation : List K

structure IVFPQIndex (G K : Type) [Add K] [Sub K] [Mul K] [Neg K] [Zero K] [One K] [Scalar K]
    [VectorKernels K] where
  d : Nat
  nlist : Nat
  metric : MetricType
  byResidual : Bool
  quantizerCentroids : List K
  pq : CachedQuantizer K
  opq : Option (OPQMatrix K)
  ids : List (List Int64)
  codes : List (List UInt8)
  precomputedTable : List K
  /-- Packed codes of every list; empty unless they are built. -/
  fastscanCodes : List (List UInt8)
  coarseAssignment : G
  canonicalPqEncoding : Bool

def bbs : Nat := 32

/-- Codes in blocks of 32 rows, one byte of every row after the other. -/
def packCodesBlockLayout (codes : List UInt8) (n cs : Nat) : List UInt8 :=
  (List.range ((n + bbs - 1) / bbs)).flatMap fun block =>
    (List.range cs).flatMap fun pair => (List.range bbs).map fun vecInBlock =>
      let globalVec := block * bbs + vecInBlock
      if globalVec < n then codes.getD (globalVec * cs + pair) 0 else 0

namespace CachedQuantizer

/-- One codebook after the other; chunk `sub` is trained on its own columns. -/
def trainWithConfig (env : IndexEnvironment G K) (pq : CachedQuantizer K) (data : List K) (n : Nat)
    (config : KMeansConfig K) : IoResult (CachedQuantizer K) := do
  let subResults ← (List.range pq.m).mapM fun sub =>
    env.kmeansTrainWithInit config
      ((List.range n).flatMap fun i => row (row data pq.d i) pq.dsub sub) n pq.dsub pq.ksub
  pq.setCentroids subResults.flatten

end CachedQuantizer

namespace IVFPQIndex

def withNbits (env : IndexEnvironment G K) (d nlist m nbits : Nat) (metric : MetricType)
    (useOpq : Bool) : IoResult (IVFPQIndex G K) := do
  rejectIf (nbits = 4 ∧ m % 2 ≠ 0) (panicked s!"4-bit IVF-PQ requires even m, got {m}")
  let pq ← CachedQuantizer.withNbits d m nbits
  return {
    d := d
    nlist := nlist
    metric := metric
    byResidual := metric = .l2
    quantizerCentroids := []
    pq := pq
    opq := if useOpq then some ⟨d, m, List.replicate (d * d) 0⟩ else none
    ids := List.replicate nlist []
    codes := List.replicate nlist []
    precomputedTable := []
    fastscanCodes := []
    coarseAssignment := env.coarseDefault
    canonicalPqEncoding := false }

variable (env : IndexEnvironment G K)

variable (index : IVFPQIndex G K)

def setQuantizerCentroids (centroids : List K) : IoResult (IVFPQIndex G K) := do
  rejectIf (centroids.length ≠ index.nlist * index.d)
    (panicked "quantizer centroids must hold nlist * d values")
  rejectIf (¬index.ids.all List.isEmpty)
    (panicked "cannot replace quantizer centroids after vectors have been added")
  return { index with
    quantizerCentroids := centroids
    precomputedTable := []
    fastscanCodes := []
    coarseAssignment := env.coarseReset index.coarseAssignment }

def normalizedRows (data : List K) (n : Nat) : IoResult (List K) := do
  let rows ← okOr (getRange data 0 (n * index.d)) (panicked "range end index out of range")
  return match index.metric with
    | .cosine => (List.range n).flatMap fun i => normalize (row rows index.d i)
    | .l2 | .innerProduct => rows

def residuals (data : List K) (n : Nat) (assignments : List Nat) : List K :=
  (List.range n).flatMap fun i =>
    fvecMadd (row data index.d i) (row index.quantizerCentroids index.d (assignments.getD i 0)) (-1)

def trainRotation (env : IndexEnvironment G K) (index : IVFPQIndex G K) (trainData : List K)
    (n : Nat) (pqConfig : KMeansConfig K) : IoResult (IVFPQIndex G K × List K) :=
  match index.opq with
  | none => return (index, trainData)
  | some opq => do
    let (rotation, codebook) ←
      env.trainRotation pqConfig opq.rotation trainData n index.pq.toProductQuantizer
    let pq ← index.pq.setCentroids codebook
    return ({ index with opq := some { opq with rotation := rotation }, pq := pq },
      env.applyBatch rotation trainData n)

def trainWithConfig (env : IndexEnvironment G K) (index : IVFPQIndex G K) (data : List K) (n : Nat)
    (ivfConfig pqConfig : KMeansConfig K) : IoResult (IVFPQIndex G K) := do
  let trainData ← index.normalizedRows data n
  let (index, effectiveData) ← index.trainRotation env trainData n pqConfig
  let centroids ← env.kmeansTrain ivfConfig effectiveData n index.d index.nlist
  let coarse := env.coarseReset index.coarseAssignment
  let index := { index with quantizerCentroids := centroids, coarseAssignment := coarse }
  if index.byResidual then do
    let (assignments, coarse) :=
      env.coarseAssign coarse effectiveData n centroids index.nlist index.d
    let pq ← index.pq.trainWithConfig env (index.residuals effectiveData n assignments) n pqConfig
    return { index with pq := pq, coarseAssignment := coarse }
  else do
    let pq ← index.pq.trainWithConfig env effectiveData n pqConfig
    return { index with pq := pq }

def preprocessQueries (queries : List K) (nq : Nat) : IoResult (List K) := do
  let processed ← index.normalizedRows queries nq
  return match index.opq with
    | some opq => env.applyBatch opq.rotation processed nq
    | none => processed

def batchSize : Nat := 32768

def addBatch (data : List K) (ids : List Int64) (n : Nat) : IoResult (IVFPQIndex G K) := do
  let processed ← index.preprocessQueries env data n
  let (assignments, coarse) := env.coarseAssign index.coarseAssignment processed n
    index.quantizerCentroids index.nlist index.d
  let toEncode := if index.byResidual then index.residuals processed n assignments else processed
  let codeSize := index.pq.codeSize
  let codes := env.encodeBatch index.canonicalPqEncoding index.pq.toProductQuantizer toEncode n
  rejectIf (∃ i < n, index.ids.length ≤ assignments.getD i 0) (panicked "index out of bounds")
  let lists := (List.range n).foldl (fun (lists : List (List Int64) × List (List UInt8)) i =>
    let listId := assignments.getD i 0
    (lists.1.modify listId (· ++ [ids.getD i 0]),
      lists.2.modify listId (· ++ row codes codeSize i))) (index.ids, index.codes)
  return { index with
    ids := lists.1
    codes := lists.2
    coarseAssignment := coarse
    fastscanCodes := []
    precomputedTable := [] }

def add (data : List K) (ids : List Int64) (n : Nat) : IoResult (IVFPQIndex G K) :=
  (List.range ((n + batchSize - 1) / batchSize)).foldlM (fun index batch => do
    let offset := batch * batchSize
    let batchN := min (n - offset) batchSize
    let batchData ← okOr (getRange data (offset * index.d) ((offset + batchN) * index.d))
      (panicked "range end index out of range")
    let batchIds ← okOr (getRange ids offset (offset + batchN))
      (panicked "range end index out of range")
    index.addBatch env batchData batchIds batchN) index

def packing : List (List UInt8) :=
  index.codes.mapIdx fun listId codes =>
    let count := (index.ids.getD listId []).length
    if count = 0 then [] else packCodesBlockLayout codes count index.pq.codeSize

def buildSearchStructures : IVFPQIndex G K :=
  if index.pq.nbits = 4 then { index with fastscanCodes := index.packing } else index

def tableWith (pqNorms : Table K) : List K :=
  (List.range index.nlist).flatMap fun i =>
    let centroid := row index.quantizerCentroids index.d i
    (List.range index.pq.m).flatMap fun sub => (List.range index.pq.ksub).map fun j =>
      pqNorms sub j + (1 + 1) * innerProduct (row centroid index.pq.dsub sub)
        (index.pq.codeword sub j)

def buildPrecomputedTable : IoResult (IVFPQIndex G K) :=
  if index.metric ≠ .l2 ∨ ¬index.byResidual then return index
  else do
    rejectIf (index.pq.centroids.length < index.pq.d * index.pq.ksub)
      (panicked "range end index out of range")
    rejectIf (index.quantizerCentroids.length < index.nlist * index.d)
      (panicked "range end index out of range")
    return { index with precomputedTable := index.tableWith index.pq.computeCentroidNorms }

def metricName : MetricType → String
  | .l2 => "L2"
  | .innerProduct => "InnerProduct"
  | .cosine => "Cosine"

def ensureSameOpq (index other : IVFPQIndex G K) : IoResult Unit := do
  rejectIf (index.opq.isSome ≠ other.opq.isSome) (invalidInput "OPQ configuration mismatch")
  match index.opq, other.opq with
  | some a, some b => do
    let (ad, am, bd, bm) := (a.d, a.m, b.d, b.m)
    rejectIf (ad ≠ bd ∨ am ≠ bm)
      (invalidInput s!"OPQ layout mismatch: self=(d={ad}, m={am}), other=(d={bd}, m={bm})")
    rejectIf (¬env.sameValues a.rotation b.rotation) (invalidInput "OPQ rotation mismatch")
  | _, _ => return ()

def ensureMergeCompatible (index other : IVFPQIndex G K) : IoResult Unit := do
  let (d, otherD) := (index.d, other.d)
  rejectIf (d ≠ otherD) (invalidInput s!"dimension mismatch: self={d}, other={otherD}")
  let (nlist, otherNlist) := (index.nlist, other.nlist)
  rejectIf (nlist ≠ otherNlist)
    (invalidInput s!"nlist mismatch: self={nlist}, other={otherNlist}")
  let (metric, otherMetric) := (metricName index.metric, metricName other.metric)
  rejectIf (index.metric ≠ other.metric)
    (invalidInput s!"metric mismatch: self={metric}, other={otherMetric}")
  let (residual, otherResidual) := (index.byResidual, other.byResidual)
  rejectIf (residual ≠ otherResidual)
    (invalidInput s!"residual mode mismatch: self={residual}, other={otherResidual}")
  let layout (pq : CachedQuantizer K) : String :=
    let (d, m, nbits, dsub, ksub) := (pq.d, pq.m, pq.nbits, pq.dsub, pq.ksub)
    s!"(d={d}, m={m}, nbits={nbits}, dsub={dsub}, ksub={ksub})"
  let (a, b) := (layout index.pq, layout other.pq)
  rejectIf (index.pq.d ≠ other.pq.d ∨ index.pq.m ≠ other.pq.m ∨ index.pq.nbits ≠ other.pq.nbits ∨
      index.pq.dsub ≠ other.pq.dsub ∨ index.pq.ksub ≠ other.pq.ksub)
    (invalidInput s!"PQ layout mismatch: self={a}, other={b}")
  index.ensureSameOpq env other
  rejectIf (¬env.sameValues index.quantizerCentroids other.quantizerCentroids)
    (invalidInput "coarse centroids mismatch")
  rejectIf (¬env.sameValues index.pq.centroids other.pq.centroids)
    (invalidInput "PQ codebooks mismatch")

def mergeFrom (index other : IVFPQIndex G K) : IoResult (IVFPQIndex G K) := do
  index.ensureMergeCompatible env other
  return { index with
    ids := List.zipWith (· ++ ·) index.ids other.ids
    codes := List.zipWith (· ++ ·) index.codes other.codes
    fastscanCodes := []
    precomputedTable := [] }

/-! ### Runs -/

inductive Call (G K : Type) [Add K] [Sub K] [Mul K] [Neg K] [Zero K] [One K] [Scalar K]
    [VectorKernels K] where
  | train (data : List K) (n : Nat) (ivfConfig pqConfig : KMeansConfig K)
  | setQuantizerCentroids (centroids : List K)
  | add (data : List K) (ids : List Int64) (n : Nat)
  | mergeFrom (other : IVFPQIndex G K)
  | buildSearchStructures
  | buildPrecomputedTable

/-- A call that returns; a merge that fails returns as well, and leaves the index
as it was. -/
def call : Call G K → IoResult (IVFPQIndex G K)
  | .train data n ivfConfig pqConfig => index.trainWithConfig env data n ivfConfig pqConfig
  | .setQuantizerCentroids centroids => index.setQuantizerCentroids env centroids
  | .add data ids n => index.add env data ids n
  | .mergeFrom other => .ok ((index.mergeFrom env other).toOption.getD index)
  | .buildSearchStructures => .ok index.buildSearchStructures
  | .buildPrecomputedTable => index.buildPrecomputedTable

def calls (ops : List (Call G K)) : IoResult (IVFPQIndex G K) :=
  ops.foldlM (call env) index

end IVFPQIndex

end InMemory

end PaimonVindex
