import PaimonVindex.Ivf.PqFile
import PaimonVindex.Ivf.Probe
import PaimonVindex.Ivf.TopKHeap

/-! The distance tables of IVF-PQ and the scans of a list's codes with them. A
scan is given by the candidates that it pushes, in order. -/

namespace PaimonVindex

abbrev RowIdFilter := Int64 → Bool

def matchingRows (ids : List Int64) (filter : Option RowIdFilter) : Option (List Nat) :=
  filter.map fun contains =>
    (List.range ids.length).filter fun position => contains (ids.getD position 0)

abbrev Table (K : Type) := Nat → Nat → K

variable {K : Type} [Add K] [Sub K] [Mul K] [Neg K] [Zero K] [One K] [Scalar K] [VectorKernels K]

open VectorKernels

def fvecMadd (a b : List K) (bf : K) : List K := List.zipWith (fun x y => x + bf * y) a b

namespace ProductQuantizer

def codeword (pq : ProductQuantizer K) (sub code : Nat) : List K :=
  row pq.centroids pq.dsub (sub * pq.ksub + code)

/-- The squared distances of a query by norms and inner products, or the
negative inner products. -/
def computeDistanceTable (pq : ProductQuantizer K) (query : List K) (metric : MetricType) :
    Table K := fun sub code =>
  let queryChunk := row query pq.dsub sub
  let codeword := pq.codeword sub code
  -- Short chunks do not go through the matrix product.
  let ip := if 4 ≤ pq.dsub then sgemmEntry queryChunk codeword else ipBatch queryChunk codeword
  match metric with
  | .innerProduct => -ip
  | .l2 | .cosine => maxZero (normL2sqr queryChunk + normL2sqr codeword - (1 + 1) * ip)

def computeInnerProductTable (pq : ProductQuantizer K) (query : List K) : Table K :=
  fun sub code => ipBatch (row query pq.dsub sub) (pq.codeword sub code)

end ProductQuantizer

def loopProduct (a b : List K) : K := (List.zipWith (· * ·) a b).foldl (· + ·) 0

def computePrecomputedTable (centroids : List K) (pq : ProductQuantizer K) (d : Nat) :
    Nat → Table K := fun listId sub code =>
  normL2sqr (pq.codeword sub code) +
    (1 + 1) * loopProduct (row (row centroids d listId) pq.dsub sub) (pq.codeword sub code)

variable (simTable : Table K) (codes : List UInt8)

/-- Column by column: the first column starts the sums, the others add to them. -/
def transposedDistances (count m : Nat) (dis0 : K) : List K :=
  (List.range' 1 (m - 1)).foldl (fun dists sub =>
      List.zipWith (fun dist code => dist + simTable sub code.toNat) dists (row codes count sub))
    ((row codes count 0).map fun code => dis0 + simTable 0 code.toNat)

/-- Row by row, for the few rows of a selective filter. -/
def transposedDistance (count m : Nat) (dis0 : K) (position : Nat) : K :=
  (List.range m).foldl (fun distance sub =>
    distance + simTable sub (codes.getD (sub * count + position) 0).toNat) dis0

def transposedSparseScanDivisor : Nat := 8

def rowMajorSparseScanDivisor : Nat := 4

def shouldScanSparse (count : Nat) (rows : List Nat) (divisor : Nat) : Bool :=
  rows.length * divisor ≤ count

def scanCodesTransposed (ids : List Int64) (m : Nat) (dis0 : K) (matching : Option (List Nat)) :
    List (Candidate K) :=
  let count := ids.length
  let dense := transposedDistances simTable codes count m dis0
  let push (distance : Nat → K) (position : Nat) := (distance position, ids.getD position 0)
  match matching with
  | none => (List.range count).map (push (dense.getD · 0))
  | some rows =>
    if shouldScanSparse count rows transposedSparseScanDivisor then
      rows.map (push (transposedDistance simTable codes count m dis0))
    else rows.map (push (dense.getD · 0))

def rowEntries (m position : Nat) : List K :=
  (List.range m).map fun sub => simTable sub (codes.getD (position * m + sub) 0).toNat

def scanCodesBatched (ids : List Int64) (m : Nat) (dis0 : K) (matching : Option (List Nat)) :
    List (Candidate K) :=
  let count := ids.length
  let single (position : Nat) := dis0 + pqDistanceFromTable (rowEntries simTable codes m position)
  let grouped (position : Nat) :=
    if position < count / 4 * 4 then
      dis0 + pqDistanceFourCodes (rowEntries simTable codes m position)
    else single position
  let push (distance : Nat → K) (position : Nat) := (distance position, ids.getD position 0)
  match matching with
  | none => (List.range count).map (push grouped)
  | some rows =>
    if shouldScanSparse count rows rowMajorSparseScanDivisor then rows.map (push single)
    else rows.map (push grouped)

def scanCodes4bit (transposed : Bool) (simTable : Table K) (codes : List UInt8) (ids : List Int64)
    (m : Nat) (dis0 : K) (matching : Option (List Nat)) : List (Candidate K) :=
  let count := ids.length
  (matching.getD (List.range count)).map fun position =>
    (dis0 + fourBitDistance transposed simTable codes count m position, ids.getD position 0)

namespace IVFPQIndexReader

variable (self : IVFPQIndexReader K)

/-- The resident table, when the metric and the codes allow its use. -/
def usablePrecomputedTable : Option (Nat → Table K) :=
  if self.metric = .l2 ∧ self.byResidual then self.precomputedTable else none

def optimizeForSearch : IoResult (IVFPQIndexReader K) := do
  let self ← self.ensureLoaded
  if self.metric = .l2 ∧ self.byResidual ∧ self.precomputedTable.isNone then
    return { self with
      precomputedTable := some (computePrecomputedTable self.quantizerCentroids self.pq self.d) }
  else return self

def coarseCentroid (listId : Nat) : List K :=
  row self.quantizerCentroids self.d listId

def fillReaderSimTable (q : List K) (listId : Nat) : Table K :=
  match self.usablePrecomputedTable with
  | some table => fun sub code =>
    table listId sub code + -(1 + 1) * self.pq.computeInnerProductTable q sub code
  | none =>
    if self.byResidual then
      self.pq.computeDistanceTable (fvecMadd q (self.coarseCentroid listId) (-1)) self.metric
    else self.pq.computeDistanceTable q self.metric

def scanReaderCodes (simTable : Table K) (codes : List UInt8) (ids : List Int64) (dis0 : K)
    (matching : Option (List Nat)) : List (Candidate K) :=
  if matching = some [] then []
  else if self.pq.nbits = 4 then
    scanCodes4bit self.transposedCodes simTable codes ids self.m dis0 matching
  else if self.transposedCodes then scanCodesTransposed simTable codes ids self.m dis0 matching
  else scanCodesBatched simTable codes ids self.m dis0 matching

end IVFPQIndexReader

end PaimonVindex
