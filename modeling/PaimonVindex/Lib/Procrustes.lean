import Mathlib.Analysis.Real.Sqrt
import Mathlib.LinearAlgebra.UnitaryGroup

/-! The orthogonal Procrustes problem: the orthogonal matrices `R` for which
`X * Rᵀ` is nearest to `Y`, read off a singular value decomposition of `Xᵀ * Y`. -/

namespace Procrustes

open Matrix Matrix

variable {m n : Type*} [Fintype m] [Fintype n]

noncomputable def frobeniusSq (A : Matrix m n ℝ) : ℝ := ∑ i, ∑ j, A i j ^ 2

noncomputable def frobeniusNorm (A : Matrix m n ℝ) : ℝ := √(frobeniusSq A)

theorem frobeniusSq_nonneg (A : Matrix m n ℝ) : 0 ≤ frobeniusSq A :=
  Finset.sum_nonneg fun _ _ => Finset.sum_nonneg fun _ _ => sq_nonneg _

theorem frobeniusNorm_le_iff (A B : Matrix m n ℝ) :
    frobeniusNorm A ≤ frobeniusNorm B ↔ frobeniusSq A ≤ frobeniusSq B :=
  Real.sqrt_le_sqrt_iff (frobeniusSq_nonneg B)

theorem trace_transpose_mul_eq_sum (A B : Matrix m n ℝ) :
    (Aᵀ * B).trace = ∑ i, ∑ j, A i j * B i j := by
  rw [Finset.sum_comm]
  rfl

theorem frobeniusSq_eq_trace (A : Matrix m n ℝ) : frobeniusSq A = (Aᵀ * A).trace := by
  rw [trace_transpose_mul_eq_sum, frobeniusSq]
  simp only [sq]

theorem frobeniusSq_sub (A B : Matrix m n ℝ) :
    frobeniusSq (A - B) = frobeniusSq A + frobeniusSq B - 2 * (Aᵀ * B).trace := by
  rw [trace_transpose_mul_eq_sum, frobeniusSq, frobeniusSq, frobeniusSq, Finset.mul_sum,
    ← Finset.sum_add_distrib, ← Finset.sum_sub_distrib]
  refine Finset.sum_congr rfl fun i _ => ?_
  rw [Finset.mul_sum, ← Finset.sum_add_distrib, ← Finset.sum_sub_distrib]
  refine Finset.sum_congr rfl fun j _ => ?_
  rw [Matrix.sub_apply]
  ring

variable [DecidableEq n] {Q R U V : Matrix n n ℝ} {s : n → ℝ}

section

variable (hQ : Q ∈ orthogonalGroup n ℝ)

include hQ

theorem transpose_mul_self_of_orthogonal : Qᵀ * Q = 1 := by
  rw [mem_orthogonalGroup_iff'] at hQ
  exact hQ

theorem transpose_mem_orthogonalGroup :
    Qᵀ ∈ orthogonalGroup n ℝ := by
  rw [mem_orthogonalGroup_iff]
  change Qᵀ * Qᵀᵀ = 1
  rw [transpose_transpose, transpose_mul_self_of_orthogonal hQ]

omit hQ in
/-- A rotation of the rows changes the error only through its inner product with
the cross covariance. -/
theorem frobeniusSq_error (hR : R ∈ orthogonalGroup n ℝ) (X Y : Matrix m n ℝ) :
    frobeniusSq (X * Rᵀ - Y) = frobeniusSq X + frobeniusSq Y - 2 * (R * (Xᵀ * Y)).trace := by
  have hnorm : frobeniusSq (X * Rᵀ) = frobeniusSq X := by
    rw [frobeniusSq_eq_trace, frobeniusSq_eq_trace, transpose_mul, transpose_transpose,
      ← Matrix.mul_assoc, Matrix.trace_mul_comm, ← Matrix.mul_assoc, ← Matrix.mul_assoc,
      transpose_mul_self_of_orthogonal hR, Matrix.one_mul]
  rw [frobeniusSq_sub, hnorm, transpose_mul, transpose_transpose, Matrix.mul_assoc]

theorem column_sq_sum (j : n) : ∑ i, Q i j ^ 2 = 1 := by
  have h := congrFun (congrFun (transpose_mul_self_of_orthogonal hQ) j) j
  rw [mul_apply, one_apply_eq] at h
  simpa [sq] using h

theorem entry_sq_le_one (i j : n) : Q i j ^ 2 ≤ 1 := by
  rw [← column_sq_sum hQ j]
  exact Finset.single_le_sum (f := fun i => Q i j ^ 2) (fun _ _ => sq_nonneg _)
    (Finset.mem_univ i)

theorem entry_le_one (i j : n) : Q i j ≤ 1 :=
  (abs_le.mp ((sq_le_one_iff_abs_le_one _).mp (entry_sq_le_one hQ i j))).2

/-- A column with a diagonal entry of one has nothing else. -/
theorem column_of_diagonal_one {j : n} (h : Q j j = 1) {i : n}
    (hij : i ≠ j) : Q i j = 0 := by
  have hsum := column_sq_sum hQ j
  rw [← Finset.add_sum_erase _ _ (Finset.mem_univ j), h] at hsum
  have hrest : ∑ k ∈ Finset.univ.erase j, Q k j ^ 2 = 0 := by linarith
  rw [Finset.sum_eq_zero_iff_of_nonneg fun _ _ => sq_nonneg _] at hrest
  exact pow_eq_zero_iff two_ne_zero |>.mp (hrest i (by simp [hij]))

omit hQ in
theorem trace_mul_diagonal (Q : Matrix n n ℝ) (s : n → ℝ) :
    (Q * diagonal s).trace = ∑ i, Q i i * s i := by
  simp [trace, mul_diagonal]

theorem trace_mul_diagonal_le (hs : ∀ i, 0 ≤ s i) :
    (Q * diagonal s).trace ≤ ∑ i, s i := by
  rw [trace_mul_diagonal]
  refine Finset.sum_le_sum fun i _ => ?_
  exact mul_le_of_le_one_left (hs i) (entry_le_one hQ i i)

/-- The bound is reached exactly by the matrices that fix every direction with a
positive weight. -/
theorem trace_mul_diagonal_eq_iff (hs : ∀ i, 0 ≤ s i) :
    (Q * diagonal s).trace = ∑ i, s i ↔ Q * diagonal s = diagonal s := by
  constructor
  · intro h
    rw [trace_mul_diagonal] at h
    have hterm : ∀ j ∈ Finset.univ, Q j j * s j = s j :=
      (Finset.sum_eq_sum_iff_of_le fun i _ =>
        mul_le_of_le_one_left (hs i) (entry_le_one hQ i i)).mp h
    ext i j
    rw [mul_diagonal]
    by_cases hzero : s j = 0
    · rw [hzero, mul_zero, diagonal_apply]
      split <;> simp_all
    · have hone : Q j j = 1 := mul_right_cancel₀ hzero ((hterm j (Finset.mem_univ j)).trans
        (one_mul _).symm)
      by_cases hij : i = j
      · rw [hij, hone, one_mul, diagonal_apply_eq]
      · rw [column_of_diagonal_one hQ hone hij, zero_mul, diagonal_apply_ne _ hij]
  · intro h
    rw [h, trace_diagonal]

end

structure IsSvd (C U : Matrix n n ℝ) (s : n → ℝ) (V : Matrix n n ℝ) : Prop where
  left : U ∈ orthogonalGroup n ℝ
  right : V ∈ orthogonalGroup n ℝ
  nonneg : ∀ i, 0 ≤ s i
  factor : C = U * diagonal s * Vᵀ

def Minimises (X Y : Matrix m n ℝ) (R : Matrix n n ℝ) : Prop :=
  ∀ Q ∈ orthogonalGroup n ℝ, frobeniusNorm (X * Rᵀ - Y) ≤ frobeniusNorm (X * Qᵀ - Y)

section Svd

variable {X Y : Matrix m n ℝ} (h : IsSvd (Xᵀ * Y) U s V)

include h

theorem trace_mul_cross (R : Matrix n n ℝ) :
    (R * (Xᵀ * Y)).trace = (Vᵀ * R * U * diagonal s).trace := by
  rw [h.factor, ← mul_assoc, trace_mul_comm, ← mul_assoc,
    ← mul_assoc]

theorem conjugate_mem (hR : R ∈ orthogonalGroup n ℝ) : Vᵀ * R * U ∈ orthogonalGroup n ℝ :=
  mul_mem (mul_mem (transpose_mem_orthogonalGroup h.right) hR) h.left

theorem minimises_iff (hR : R ∈ orthogonalGroup n ℝ) :
    Minimises X Y R ↔ Vᵀ * R * U * diagonal s = diagonal s := by
  have herror : ∀ Q ∈ orthogonalGroup n ℝ, frobeniusSq (X * Qᵀ - Y) =
      frobeniusSq X + frobeniusSq Y - 2 * (Vᵀ * Q * U * diagonal s).trace := by
    intro Q hQ
    rw [frobeniusSq_error hQ, trace_mul_cross h]
  rw [← trace_mul_diagonal_eq_iff (conjugate_mem h hR) h.nonneg]
  constructor
  · intro hmin
    -- the minimiser to compare with turns the conjugate into the identity
    have hbest : V * Uᵀ ∈ orthogonalGroup n ℝ :=
      mul_mem h.right (transpose_mem_orthogonalGroup h.left)
    have hone : Vᵀ * (V * Uᵀ) * U = 1 := by
      rw [← mul_assoc, transpose_mul_self_of_orthogonal h.right, one_mul,
        transpose_mul_self_of_orthogonal h.left]
    have hle := (frobeniusNorm_le_iff _ _).mp (hmin _ hbest)
    rw [herror R hR, herror _ hbest, hone, one_mul, trace_diagonal] at hle
    have hbound := trace_mul_diagonal_le (conjugate_mem h hR) h.nonneg
    linarith
  · intro heq Q hQ
    rw [frobeniusNorm_le_iff, herror R hR, herror Q hQ, heq]
    have hbound := trace_mul_diagonal_le (conjugate_mem h hQ) h.nonneg
    linarith

end Svd

end Procrustes
