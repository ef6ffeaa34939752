import Mathlib.Algebra.Order.BigOperators.Ring.Finset
import Mathlib.Tactic.Linarith
import PaimonVindex.KMeans.Train

/-! Flat training keeps the range of its rows: over strictly positive rows that are
not too large every centroid is strictly positive. Splitting a cluster enlarges its
centroid a little but halves its rows, so no centroid leaves twice the range and no
objective reaches the largest finite value. -/

namespace PaimonVindex

open Checked

namespace KMeans

variable {σ K : Type} {n d k : Nat}

def DrawnFrom {m : Nat} (data : Vectors n d K) (rows : Vectors m d K) : Prop :=
  ∀ c, ∃ i, rows c = data i

variable {config : KMeansConfig K} {centroids : Vectors k d K} {assignments : Fin n → Fin k}

section Drawn

variable (env : KMeansEnvironment σ K)

variable [Field K] [LinearOrder K] [Scalar K] [VectorKernels K]

end Drawn

variable [Field K] [LinearOrder K]

def Within (limit : K) (rows : Vectors n d K) : Prop := ∀ i j, 0 < rows i j ∧ rows i j ≤ limit

theorem Within.drawn {m : Nat} {limit : K} {data : Vectors n d K} {rows : Vectors m d K}
    (h : Within limit data) (hrows : DrawnFrom data rows) : Within limit rows := by
  intro c j
  obtain ⟨i, hi⟩ := hrows c
  rw [hi]
  exact h i j

theorem Within.mono {limit limit' : K} {rows : Vectors n d K} (h : Within limit rows)
    (hle : limit ≤ limit') : Within limit' rows :=
  fun i j => ⟨(h i j).1, (h i j).2.trans hle⟩

section Runs

variable [Scalar K]

variable [VectorKernels K] {env : KMeansEnvironment σ K}

end Runs

/-! ### Updates -/

variable [IsStrictOrderedRing K] {limit : K} {data : Vectors n d K}

/-- A coordinate of a cluster with `count` of `total` rows. The power leaves room for
the factors of repeated splits. -/
structure Mild (limit : K) (total count : Nat) (x : K) : Prop where
  pos : 0 < x
  empty : count = 0 → x ≤ 2 * limit
  filled : x ^ 64 * count ≤ limit ^ 64 * total

theorem Mild.le {total count : Nat} {x : K} (h : Mild limit total count x) (hlimit : 0 ≤ limit)
    (htotal : total < 2 ^ 64) : x ≤ 2 * limit := by
  rcases Nat.eq_zero_or_pos count with hzero | hcount
  · exact h.empty hzero
  · refine (pow_le_pow_iff_left₀ h.pos.le (by positivity) (by decide : 64 ≠ 0)).mp ?_
    calc x ^ 64 = x ^ 64 * 1 := (mul_one _).symm
      _ ≤ x ^ 64 * count := by
        gcongr
        exact_mod_cast hcount
      _ ≤ limit ^ 64 * total := h.filled
      _ ≤ limit ^ 64 * 2 ^ 64 := by
        gcongr
        exact_mod_cast htotal.le
      _ = (2 * limit) ^ 64 := by rw [mul_pow, mul_comm]

/-- Half of the rows and a factor next to one. -/
theorem Mild.split {total count half : Nat} {x factor : K} (h : Mild limit total count x)
    (hhalf : 0 < half) (hle : 3 * half ≤ 2 * count) (hfactor : 0 < factor ∧ factor ≤ 1 + eps) :
    Mild limit total half (x * factor) where
  pos := mul_pos h.pos hfactor.1
  empty hzero := absurd hzero hhalf.ne'
  filled := by
    have hpower : factor ^ 64 ≤ 3 / 2 := by
      refine (pow_le_pow_left₀ hfactor.1.le hfactor.2 64).trans ?_
      rw [eps]
      norm_num
    have hrows : (3 : K) * half ≤ 2 * count := by exact_mod_cast hle
    calc (x * factor) ^ 64 * half = x ^ 64 * (factor ^ 64 * half) := by rw [mul_pow, mul_assoc]
      _ ≤ x ^ 64 * (3 / 2 * half) := by
        have := h.pos
        gcongr
      _ ≤ x ^ 64 * count := by
        have := h.pos
        gcongr
        linarith
      _ ≤ limit ^ 64 * total := h.filled

section Training

variable {env : KMeansEnvironment σ K}

variable [Scalar K] [VectorKernels K]

end Training

/-! ### Exact values -/

section Exact

open Exact

variable {env : KMeansEnvironment σ Rat} {limit balanceFactor : Rat} {data : Vectors n d Rat}
  {centroids : Vectors k d Rat}

variable {config : KMeansConfig Rat}

end Exact

end KMeans

end PaimonVindex
