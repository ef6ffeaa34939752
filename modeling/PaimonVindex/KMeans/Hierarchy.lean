import PaimonVindex.KMeans.Positive

/-! Hierarchical training. The first clusters and all that are split off from them
are trained on rows of the data, and the padding repeats their centroids. -/

namespace PaimonVindex

open Checked List

namespace KMeans

variable {σ K : Type} {n d k : Nat} {env : KMeansEnvironment σ K}
variable {largest : Cluster n d K} {heap : List (Cluster n d K)} {result : List (Fin d → K)}
  {finalized : Nat}

variable {targetK : Nat}

variable [Field K]

variable [LinearOrder K] [Scalar K] [VectorKernels K]

variable {config : KMeansConfig K} {train : Vectors n d K}

section Loop

variable {config : KMeansConfig K} {train : Vectors n d K} {targetK : Nat}
  {clusters : List (Cluster n d K)}

end Loop

section Exact

variable {env : KMeansEnvironment σ Rat} {config : KMeansConfig Rat} {limit : Rat}
  {train : Vectors n d Rat} {largest : Cluster n d Rat}

end Exact

end KMeans

end PaimonVindex
