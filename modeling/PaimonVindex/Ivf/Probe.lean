import Mathlib.Data.List.GetD
import PaimonVindex.Scalar

/-! The numeric kernels that the searches call, and the choice of the lists
that a query probes. -/

namespace PaimonVindex

open Checked Scalar

/-- The vectorised kernels. What they compute in exact arithmetic is stated
where it is needed; their rounding is left open. -/
class VectorKernels (K : Type) where
  innerProduct : List K → List K → K
  l2sqr : List K → List K → K
  /-- One of the lanes of the kernel for four vectors. -/
  l2sqrFour : List K → List K → K
  /-- The squared distance, unless the running sum exceeds the cutoff. -/
  l2sqrUnlessExceeds : List K → List K → (cutoff : K) → Option K
  normL2sqr : List K → K
  /-- One entry of the batched inner products. -/
  ipBatch : List K → List K → K
  /-- One entry of the matrix product with a transposed right factor. -/
  sgemmEntry : List K → List K → K
  normalize : List K → List K
  /-- The distance of a prepared query for the inner product and the cosine. -/
  distanceTo : MetricType → List K → List K → K
  /-- `x.max(0.0)`. -/
  maxZero : K → K
  half : K
  /-- The sum of the table entries of a row. -/
  pqDistanceFromTable : List K → K
  /-- The same sum in the kernel for four rows. -/
  pqDistanceFourCodes : List K → K
  /-- The distances of packed codes, before the start value is added. -/
  fourBitDistance : (transposed : Bool) → (simTable : Nat → Nat → K) → (codes : List UInt8) →
    (count m row : Nat) → K
  /-- The distances of blocked scalar codes, given the bounds and the cutoff. -/
  sqDistance : (query : List K) → (codes : List UInt8) → (count : Nat) → (centroid : List K) →
    (mins maxs : List K) → MetricType → (cutoff : K) → (row : Nat) → K

namespace Exact

variable {K : Type} [Add K] [Sub K] [Mul K] [Zero K]

def dot (x y : List K) : K := (List.zipWith (· * ·) x y).sum

def squaredDistance (x y : List K) : K :=
  (List.zipWith (fun a b => (a - b) * (a - b)) x y).sum

def packedEntries (simTable : Nat → Nat → K) (codes : List UInt8) (byteAt : Nat → Nat) (m : Nat) :
    List K :=
  (List.range m).map fun sub =>
    let byte := (codes.getD (byteAt (sub / 2)) 0).toNat
    simTable sub (if sub % 2 = 0 then byte % 16 else byte / 16)

/-- The code of a dimension in blocks of 32 rows, the last one as long as it is. -/
def blockedCode (codes : List UInt8) (count d row j : Nat) : Nat :=
  let start := row / 32 * 32
  (codes.getD (start * d + j * min 32 (count - start) + (row - start)) 0).toNat

end Exact

/-- Exact values. A rational vector need not have a rational norm, so it is
not normalised here. -/
instance : VectorKernels Rat where
  innerProduct := Exact.dot
  l2sqr := Exact.squaredDistance
  l2sqrFour := Exact.squaredDistance
  l2sqrUnlessExceeds x y cutoff :=
    if cutoff < Exact.squaredDistance x y then none else some (Exact.squaredDistance x y)
  normL2sqr x := Exact.dot x x
  ipBatch := Exact.dot
  sgemmEntry := Exact.dot
  normalize x := x
  distanceTo metric x y :=
    match metric with
    | .l2 => Exact.squaredDistance x y
    | .innerProduct => -Exact.dot x y
    | .cosine => 1 - Exact.dot x y
  maxZero x := max x 0
  half := mkRat 1 2
  pqDistanceFromTable := List.sum
  pqDistanceFourCodes := List.sum
  fourBitDistance transposed simTable codes count m row :=
    (Exact.packedEntries simTable codes
      (fun pair => if transposed then pair * count + row else row * ((m + 1) / 2) + pair) m).sum
  sqDistance query codes count centroid mins maxs metric _ row :=
    let vector := (List.range query.length).map fun j =>
      centroid.getD j 0 + mins.getD j 0 +
        Exact.blockedCode codes count query.length row j * (maxs.getD j 0 - mins.getD j 0) / 255
    match metric with
    | .l2 => Exact.squaredDistance query vector
    | .innerProduct => -Exact.dot query vector
    | .cosine => 1 - Exact.dot query vector

/-- The elements of the `i`-th row of a row-major table. -/
def row {α : Type} (data : List α) (d i : Nat) : List α := (data.drop (i * d)).take d

variable {K : Type} [Scalar K] [VectorKernels K]

/-- The centroids are taken four at a time, the rest one by one. -/
def coarseDistance (point centroids : List K) (k d c : Nat) : K :=
  if c < k / 4 * 4 then VectorKernels.l2sqrFour point (row centroids d c)
  else VectorKernels.l2sqr point (row centroids d c)

def compareDistanceThenIndex (left right : K × Nat) : Bool :=
  totalLt left.1 right.1 || (!totalLt right.1 left.1 && decide (left.2 ≤ right.2))

def rankedLists (point centroids : List K) (k d : Nat) : List (K × Nat) :=
  ((List.range k).map fun c => (coarseDistance point centroids k d c, c)).mergeSort
    compareDistanceThenIndex

def findTopk (point centroids : List K) (k d nprobe : Nat) : List (K × Nat) :=
  (rankedLists point centroids k d).take (min nprobe k)

theorem rankedLists_perm (point centroids : List K) (k d : Nat) :
    ((rankedLists point centroids k d).map Prod.snd).Perm (List.range k) := by
  have hsort := List.mergeSort_perm
    ((List.range k).map fun c => (coarseDistance point centroids k d c, c))
    compareDistanceThenIndex
  have hmap := hsort.map Prod.snd
  rwa [List.map_map, show Prod.snd ∘ (fun c => (coarseDistance point centroids k d c, c)) = id
    from rfl, List.map_id] at hmap

theorem findTopk_take {point centroids : List K} {k d nprobe wider : Nat} (h : nprobe ≤ wider) :
    (findTopk point centroids k d wider).take (min nprobe k) =
      findTopk point centroids k d nprobe := by
  rw [findTopk, findTopk, List.take_take, Nat.min_eq_left (by omega)]

theorem mem_findTopk_lt {point centroids : List K} {k d nprobe : Nat} {probe : K × Nat}
    (h : probe ∈ findTopk point centroids k d nprobe) : probe.2 < k := by
  have hmem : probe.2 ∈ (rankedLists point centroids k d).map Prod.snd :=
    List.mem_map_of_mem (List.mem_of_mem_take h)
  exact List.mem_range.mp ((rankedLists_perm point centroids k d).mem_iff.mp hmem)

end PaimonVindex
