import PaimonVindex.KMeans.Hierarchy

/-! Training over a stream of chunks. With at least as many rows as centroids, and
objectives that stay finite, every centroid is strictly positive. -/

namespace PaimonVindex

open Checked KMeans StreamingKMeans List

namespace StreamingKMeans

variable {σ K : Type} {n d k : Nat}

section Rows

variable [Field K] [LinearOrder K] [IsStrictOrderedRing K] {env : KMeansEnvironment σ K}
  {rows : Fin n → CoresetRow d K}

variable [Scalar K] [VectorKernels K]

end Rows

end StreamingKMeans

namespace KMeans

variable {σ : Type} {n d k : Nat} {env : KMeansEnvironment σ Rat} {limit : Rat} {data : List Rat}

end KMeans

namespace StreamingKMeans

variable {σ : Type} {n d k : Nat} {env : KMeansEnvironment σ Rat} {limit : Rat} {data : List Rat}
  {self : StreamingKMeans d k Rat}

end StreamingKMeans

namespace KMeans

variable {σ : Type} {d k : Nat}

def lowestDraws : KMeansEnvironment Unit Rat where
  seedFromU64 _ := ()
  genRange _ low _ := (low, ())
  low_le_genRange _ _ _ _ := le_rfl
  genRange_lt _ _ _ h := h
  gen _ := (0, ())
  ln size := Nat.log2 size
  tieBreak _ := 0

end KMeans

end PaimonVindex
