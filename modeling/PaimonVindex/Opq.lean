import PaimonVindex.Lib.Paging
import PaimonVindex.Lib.Procrustes

/-! Training of the OPQ rotation and its application, in exact arithmetic over a
field. Matrices are flat row-major buffers, read by position as the source does. -/

namespace PaimonVindex

open Matrix Procrustes Matrix

section Buffers

variable {K : Type}

def rowMajor (n d : Nat) (data : Nat → K) : Matrix (Fin n) (Fin d) K :=
  of fun i j => data (i * d + j)

/-- The entries of a matrix written over the start of a buffer. -/
def storeRowMajor {n d : Nat} (r : Matrix (Fin n) (Fin d) K) (buffer : Nat → K) : Nat → K :=
  fun position =>
    if h : position / d < n ∧ position % d < d then r ⟨position / d, h.1⟩ ⟨position % d, h.2⟩
    else buffer position

@[simp] theorem rowMajor_storeRowMajor {n d : Nat} (r : Matrix (Fin n) (Fin d) K)
    (buffer : Nat → K) : rowMajor n d (storeRowMajor r buffer) = r := by
  ext i j
  obtain ⟨hdiv, hmod⟩ := Paging.div_mod_of_lt (p := i) j.isLt
  have hin : (i * d + j) / d < n ∧ (i * d + j) % d < d := by
    rw [hdiv, hmod]
    exact ⟨i.isLt, j.isLt⟩
  rw [rowMajor, of_apply, storeRowMajor, dif_pos hin]
  congr 1
  · exact Fin.ext hdiv
  · exact Fin.ext hmod

variable [Field K]

def fvecInnerProduct (d : Nat) (a b : Nat → K) : K := ∑ j : Fin d, a j * b j

/-- `c` becomes `alpha * a * bᵀ + beta * c`; the row strides are `k` for `a`, one
for the transposed `b` and `n` for `c`. -/
def sgemmABt (m n k : Nat) (alpha : K) (a b : Nat → K) (beta : K) (c : Nat → K) : Nat → K :=
  fun position =>
    if position < m * n then
      alpha * (∑ p : Fin k, a (position / n * k + p * 1) * b (p * 1 + position % n * k)) +
        beta * c position
    else c position

/-- What the decomposition routine returns of the two factors. -/
structure SvdFactors (K : Type) (d : Nat) where
  u : Option (Matrix (Fin d) (Fin d) K)
  vT : Option (Matrix (Fin d) (Fin d) K)

end Buffers

structure OPQMatrix (K : Type) (d : Nat) where
  m : Nat
  niter : Nat
  niterPq : Nat
  niterPq0 : Nat
  maxTrainPoints : Nat
  rotation : Nat → K
  isTrained : Bool

/-- The quantizer that is trained along, and the routines from outside. -/
structure OpqEnvironment (K Pq : Type) (d : Nat) where
  genRange : (first last : Nat) → Nat
  randomMatrix : Matrix (Fin d) (Fin d) K
  qrQ : Matrix (Fin d) (Fin d) K → Matrix (Fin d) (Fin d) K
  svd : Matrix (Fin d) (Fin d) K → SvdFactors K d
  trainHotStart : Pq → (projected : Nat → K) → (n niter : Nat) → (hotStart : Bool) → Pq
  trainWithConfig : Pq → (projected : Nat → K) → (n : Nat) → Pq
  /-- Encodes every row and decodes its code. -/
  reconstruct : Pq → (projected : Nat → K) → (n : Nat) → Nat → K

namespace OPQMatrix

variable {K Pq : Type} [Field K] {d : Nat}

def new (m : Nat) : OPQMatrix K d where
  m := m
  niter := 50
  niterPq := 4
  niterPq0 := 40
  maxTrainPoints := 65536
  rotation := fun _ => 0
  isTrained := false

def apply (opq : OPQMatrix K d) (x y : Nat → K) : Nat → K := fun i =>
  if i < d then fvecInnerProduct d (fun j => opq.rotation (i * d + j)) x else y i

def applyBatch (opq : OPQMatrix K d) (data out : Nat → K) (n : Nat) : Nat → K :=
  if n = 1 then opq.apply data out
  else if n > 1 then sgemmABt n d d 1 data opq.rotation 0 out
  else out

def applyReverse (opq : OPQMatrix K d) (y x : Nat → K) : Nat → K := fun i =>
  if i < d then ∑ j : Fin d, opq.rotation (j * d + i) * y j else x i

def crossCov (d n : Nat) (trainData reconstructed : Nat → K) : Matrix (Fin d) (Fin d) K :=
  (rowMajor n d trainData)ᵀ * rowMajor n d reconstructed

def updateRotation (opq : OPQMatrix K d) (svd : Matrix (Fin d) (Fin d) K → SvdFactors K d)
    (trainData reconstructed : Nat → K) (n : Nat) : OPQMatrix K d :=
  let factors := svd (crossCov d n trainData reconstructed)
  match factors.u, factors.vT with
  | some u, some vT => { opq with rotation := storeRowMajor (u * vT) opq.rotation }
  | _, _ => opq

/-- The first `trainN` places of `indices` after a partial shuffle. -/
def shuffled (genRange : Nat → Nat → Nat) (n trainN : Nat) : Nat → Nat :=
  (List.range trainN).foldl
    (fun indices i => indices ∘ Equiv.swap i (genRange i n)) id

def subsample (genRange : Nat → Nat → Nat) (d n trainN : Nat) (data : Nat → K) : Nat → K :=
  fun position => data (shuffled genRange n trainN (position / d) * d + position % d)

def columnMean (d n : Nat) (data : Nat → K) (j : Nat) : K :=
  (∑ i : Fin n, data (i * d + j)) * (1 / (n : K))

def centered (d n : Nat) (data : Nat → K) : Nat → K := fun position =>
  if position < n * d then data position - columnMean d n data (position % d) else data position

structure TrainState (K Pq : Type) (d : Nat) where
  opq : OPQMatrix K d
  pq : Pq
  projected : Nat → K

section

variable (env : OpqEnvironment K Pq d)

def trainIteration (trainData : Nat → K) (n : Nat) (state : TrainState K Pq d) (iter : Nat) :
    TrainState K Pq d :=
  let opq := state.opq
  let projected := opq.applyBatch trainData state.projected n
  let pqNiter := if iter = 0 then opq.niterPq0 else opq.niterPq
  let pq := env.trainHotStart state.pq projected n pqNiter (iter > 0)
  let reconstructed := env.reconstruct pq projected n
  ⟨opq.updateRotation env.svd trainData reconstructed n, pq, projected⟩

def trainingData (opq : OPQMatrix K d) (data : Nat → K) (n : Nat) : Nat → K :=
  let trainN := min n opq.maxTrainPoints
  centered d trainN
    (if n > opq.maxTrainPoints then subsample env.genRange d n trainN data else data)

def trainIterations (opq : OPQMatrix K d) (data : Nat → K) (n : Nat) (pq : Pq) (count : Nat) :
    TrainState K Pq d :=
  let opq := { opq with rotation := storeRowMajor (env.qrQ env.randomMatrix) opq.rotation }
  (List.range count).foldl
    (trainIteration env (opq.trainingData env data n) (min n opq.maxTrainPoints))
    ⟨opq, pq, fun _ => 0⟩

def train (opq : OPQMatrix K d) (data : Nat → K) (n : Nat) (pq : Pq) : OPQMatrix K d × Pq :=
  let trainN := min n opq.maxTrainPoints
  let state := opq.trainIterations env data n pq opq.niter
  let projected := state.opq.applyBatch (opq.trainingData env data n) state.projected trainN
  ({ state.opq with isTrained := true }, env.trainWithConfig state.pq projected trainN)

end

def matrix (opq : OPQMatrix K d) : Matrix (Fin d) (Fin d) K := rowMajor d d opq.rotation

theorem apply_eq (opq : OPQMatrix K d) (x y : Nat → K) :
    rowMajor 1 d (opq.apply x y) = rowMajor 1 d x * opq.matrixᵀ := by
  ext i j
  obtain rfl : i = 0 := Subsingleton.elim i 0
  simp only [rowMajor, of_apply, Fin.val_zero, zero_mul, zero_add, apply, if_pos j.isLt,
    fvecInnerProduct, mul_apply, transpose_apply, matrix]
  exact Finset.sum_congr rfl fun k _ => mul_comm _ _

theorem applyBatch_eq (opq : OPQMatrix K d) (data out : Nat → K) (n : Nat) :
    rowMajor n d (opq.applyBatch data out n) = rowMajor n d data * opq.matrixᵀ := by
  rw [applyBatch]
  split
  · rename_i hone
    subst hone
    exact opq.apply_eq data out
  · split
    · ext i j
      obtain ⟨hdiv, hmod⟩ := Paging.div_mod_of_lt (p := i) j.isLt
      have hin : (i * d + j : Nat) < n * d := by
        have := Nat.mul_le_mul_right d (Nat.succ_le_of_lt i.isLt)
        rw [Nat.succ_mul] at this
        omega
      simp only [rowMajor, of_apply, sgemmABt, if_pos hin, hdiv, hmod, one_mul, zero_mul,
        add_zero, mul_one, mul_apply, transpose_apply, matrix]
      exact Finset.sum_congr rfl fun k _ => by rw [Nat.add_comm (k : Nat)]
    · -- no rows
      obtain rfl : n = 0 := by omega
      exact Subsingleton.elim _ _

theorem updateRotation_matrix {opq : OPQMatrix K d}
    {svd : Matrix (Fin d) (Fin d) K → SvdFactors K d} {trainData reconstructed : Nat → K} {n : Nat}
    {u vT : Matrix (Fin d) (Fin d) K}
    (h : svd (crossCov d n trainData reconstructed) = ⟨some u, some vT⟩) :
    (opq.updateRotation svd trainData reconstructed n).matrix = u * vT := by
  rw [updateRotation, h]
  exact rowMajor_storeRowMajor _ _

/-- Routines whose factors are orthogonal; the decomposition may return none. -/
structure OrthogonalRoutines (Pq : Type) (d : Nat) extends OpqEnvironment ℝ Pq d where
  qr_mem : ∀ A, qrQ A ∈ orthogonalGroup (Fin d) ℝ
  svd_mem : ∀ {C u vT}, svd C = ⟨some u, some vT⟩ →
    u ∈ orthogonalGroup (Fin d) ℝ ∧ vT ∈ orthogonalGroup (Fin d) ℝ

section Training

variable (env : OrthogonalRoutines Pq d) {opq : OPQMatrix ℝ d}

theorem updateRotation_orthogonal (h : opq.matrix ∈ orthogonalGroup (Fin d) ℝ)
    (trainData reconstructed : Nat → ℝ) (n : Nat) :
    (opq.updateRotation env.svd trainData reconstructed n).matrix ∈
      orthogonalGroup (Fin d) ℝ := by
  rcases hfactors : env.svd (crossCov d n trainData reconstructed) with ⟨_ | u, _ | vT⟩
  case some.some =>
    rw [updateRotation_matrix hfactors]
    exact mul_mem (env.svd_mem hfactors).1 (env.svd_mem hfactors).2
  -- without both factors the rotation stays
  all_goals
    rw [updateRotation, hfactors]
    exact h

theorem trainIterations_orthogonal (opq : OPQMatrix ℝ d) (data : Nat → ℝ) (n : Nat) (pq : Pq)
    (count : Nat) : (opq.trainIterations env.toOpqEnvironment data n pq count).opq.matrix ∈
      orthogonalGroup (Fin d) ℝ := by
  rw [trainIterations]
  induction count with
  | zero =>
    rw [List.range_zero, List.foldl_nil, matrix, rowMajor_storeRowMajor]
    exact env.qr_mem _
  | succ count ih =>
    rw [List.range_succ, List.foldl_append]
    exact updateRotation_orthogonal env ih _ _ _

theorem applyReverse_apply (h : opq.matrix ∈ orthogonalGroup (Fin d) ℝ)
    (x y out : Nat → ℝ) (i : Fin d) : opq.applyReverse (opq.apply x y) out i = x i := by
  have hrow : rowMajor 1 d (opq.apply x y) * opq.matrix = rowMajor 1 d x := by
    rw [apply_eq, Matrix.mul_assoc, transpose_mul_self_of_orthogonal h, Matrix.mul_one]
  have hentry := congrFun (congrFun hrow 0) i
  simp only [rowMajor, Matrix.of_apply, Fin.val_zero, zero_mul, zero_add, Matrix.mul_apply,
    matrix] at hentry
  rw [applyReverse, if_pos i.isLt, ← hentry]
  exact Finset.sum_congr rfl fun j _ => mul_comm _ _

/-- However the training goes, its rotation can be undone, and a batch keeps all inner products
between its rows. -/
theorem trained_rotation_is_isometry (opq : OPQMatrix ℝ d) (data : Nat → ℝ) (n : Nat) (pq : Pq) :
    let trained := (opq.train env.toOpqEnvironment data n pq).1
    (∀ x y out, ∀ i : Fin d, trained.applyReverse (trained.apply x y) out i = x i) ∧
    ∀ rows out m, let rotated := rowMajor m d (trained.applyBatch rows out m)
      rotated * rotatedᵀ = rowMajor m d rows * (rowMajor m d rows)ᵀ := by
  intro trained
  have h : trained.matrix ∈ orthogonalGroup (Fin d) ℝ :=
    trainIterations_orthogonal env opq data n pq opq.niter
  refine ⟨applyReverse_apply h, fun rows out m => ?_⟩
  dsimp only
  rw [applyBatch_eq, transpose_mul, transpose_transpose, Matrix.mul_assoc,
    ← Matrix.mul_assoc _ trained.matrix, transpose_mul_self_of_orthogonal h, Matrix.one_mul]

end Training

/-- The stored rotation is orthogonal, and it is a best rotation for the fixed
reconstructions exactly when the product of the two factors in the other order
has its square fix every direction of a positive singular value. -/
theorem rotation_update_minimises_iff {n : Nat} (opq : OPQMatrix ℝ d)
    (svd : Matrix (Fin d) (Fin d) ℝ → SvdFactors ℝ d) (trainData reconstructed out : Nat → ℝ)
    (U V : Matrix (Fin d) (Fin d) ℝ) (s : Fin d → ℝ)
    (hexact : IsSvd (crossCov d n trainData reconstructed) U s V)
    (hsvd : svd (crossCov d n trainData reconstructed) = ⟨some U, some Vᵀ⟩) :
    (opq.updateRotation svd trainData reconstructed n).matrix ∈ orthogonalGroup (Fin d) ℝ ∧
      ((∀ other : OPQMatrix ℝ d, other.matrix ∈ orthogonalGroup (Fin d) ℝ →
          frobeniusNorm (rowMajor n d
            ((opq.updateRotation svd trainData reconstructed n).applyBatch trainData out n) -
              rowMajor n d reconstructed) ≤
            frobeniusNorm (rowMajor n d (other.applyBatch trainData out n) -
              rowMajor n d reconstructed)) ↔
        Vᵀ * U * (Vᵀ * U) * diagonal s = diagonal s) := by
  have hmatrix : (opq.updateRotation svd trainData reconstructed n).matrix = U * Vᵀ :=
    updateRotation_matrix hsvd
  have horthogonal : U * Vᵀ ∈ orthogonalGroup (Fin d) ℝ :=
    mul_mem hexact.left (transpose_mem_orthogonalGroup hexact.right)
  refine ⟨by rwa [hmatrix], ?_⟩
  have hconjugate : Vᵀ * U * (Vᵀ * U) = Vᵀ * (U * Vᵀ) * U := by simp only [mul_assoc]
  rw [hconjugate, ← minimises_iff hexact horthogonal]
  simp only [applyBatch_eq, hmatrix]
  constructor
  · intro h Q hQ
    have hother : (({ opq with rotation := storeRowMajor Q opq.rotation } : OPQMatrix ℝ d)).matrix =
        Q := rowMajor_storeRowMajor _ _
    have := h _ (by rw [hother]; exact hQ)
    rwa [hother] at this
  · intro h other hother
    exact h _ hother

section QuarterTurn

/-! Four centred points whose reconstructions are the points turned by a right
angle, so that one rotation reproduces them exactly. -/

def quarterTurn : Matrix (Fin 2) (Fin 2) ℝ := !![0, -1; 1, 0]

def centredPoints : Nat → ℝ := fun position =>
  ([1, 0, -1, 0, 0, 1, 0, -1] : List ℝ).getD position 0

def turnedPoints : Nat → ℝ := fun position =>
  ([0, -1, 0, 1, 1, 0, -1, 0] : List ℝ).getD position 0

theorem centredPoints_eq : rowMajor 4 2 centredPoints = !![1, 0; -1, 0; 0, 1; 0, -1] := by
  ext i j
  fin_cases i <;> fin_cases j <;> rfl

theorem turnedPoints_eq : rowMajor 4 2 turnedPoints = !![0, -1; 0, 1; 1, 0; -1, 0] := by
  ext i j
  fin_cases i <;> fin_cases j <;> rfl

theorem quarterTurn_orthogonal : quarterTurn ∈ orthogonalGroup (Fin 2) ℝ := by
  rw [mem_orthogonalGroup_iff]
  ext i j
  fin_cases i <;> fin_cases j <;> simp [quarterTurn, mul_apply, Fin.sum_univ_two]

theorem quarterTurn_svd :
    IsSvd (crossCov 2 4 centredPoints turnedPoints) quarterTurn (fun _ => 2) 1 where
  left := quarterTurn_orthogonal
  right := one_mem _
  nonneg _ := by norm_num
  factor := by
    rw [crossCov, centredPoints_eq, turnedPoints_eq, transpose_one, mul_one]
    ext i j
    fin_cases i <;> fin_cases j <;>
      norm_num [quarterTurn, mul_apply, Fin.sum_univ_succ]

theorem centredPoints_svd :
    IsSvd (crossCov 2 4 centredPoints centredPoints) 1 (fun _ => 2) 1 where
  left := one_mem _
  right := one_mem _
  nonneg _ := by norm_num
  factor := by
    rw [crossCov, centredPoints_eq, transpose_one, one_mul, mul_one]
    ext i j
    fin_cases i <;> fin_cases j <;> norm_num [mul_apply, Fin.sum_univ_succ]

/-- Points that are their own reconstructions: the update keeps the identity,
and nothing is better. -/
theorem rotation_update_keeps_fitted :
    (((new 1 : OPQMatrix ℝ 2).updateRotation (fun _ => ⟨some 1, some 1ᵀ⟩) centredPoints
        centredPoints 4).matrix ∈ orthogonalGroup (Fin 2) ℝ) ∧
      ∀ other : OPQMatrix ℝ 2, other.matrix ∈ orthogonalGroup (Fin 2) ℝ →
        frobeniusNorm (rowMajor 4 2 (((new 1 : OPQMatrix ℝ 2).updateRotation
          (fun _ => ⟨some 1, some 1ᵀ⟩) centredPoints centredPoints 4).applyBatch centredPoints
            (fun _ => 0) 4) - rowMajor 4 2 centredPoints) ≤
          frobeniusNorm (rowMajor 4 2 (other.applyBatch centredPoints (fun _ => 0) 4) -
            rowMajor 4 2 centredPoints) := by
  obtain ⟨horthogonal, hbest⟩ := rotation_update_minimises_iff (new 1 : OPQMatrix ℝ 2)
    (fun _ => ⟨some 1, some 1ᵀ⟩) centredPoints centredPoints (fun _ => 0) 1 1 (fun _ => 2)
    centredPoints_svd rfl
  refine ⟨horthogonal, hbest.mpr ?_⟩
  rw [transpose_one, one_mul, one_mul, one_mul]

/-- A routine that is exact on the cross covariance of these points. -/
def quarterTurnSvd : Matrix (Fin 2) (Fin 2) ℝ → SvdFactors ℝ 2 :=
  fun _ => ⟨some quarterTurn, some 1ᵀ⟩

/-- The rotation that reproduces the reconstructions. -/
noncomputable def matchingRotation : OPQMatrix ℝ 2 :=
  { (new 1 : OPQMatrix ℝ 2) with rotation := storeRowMajor quarterTurnᵀ fun _ => 0 }

/-- The update replaces a rotation without error by one with error four. -/
theorem rotation_update_raises_error :
    IsSvd (crossCov 2 4 centredPoints turnedPoints) quarterTurn (fun _ => 2) 1 ∧
      quarterTurnSvd (crossCov 2 4 centredPoints turnedPoints) = ⟨some quarterTurn, some 1ᵀ⟩ ∧
      matchingRotation.matrix ∈ orthogonalGroup (Fin 2) ℝ ∧
      frobeniusNorm (rowMajor 4 2 (matchingRotation.applyBatch centredPoints (fun _ => 0) 4) -
        rowMajor 4 2 turnedPoints) = 0 ∧
      frobeniusNorm (rowMajor 4 2 ((matchingRotation.updateRotation quarterTurnSvd centredPoints
        turnedPoints 4).applyBatch centredPoints (fun _ => 0) 4) -
          rowMajor 4 2 turnedPoints) = 4 := by
  have hbefore : matchingRotation.matrix = quarterTurnᵀ := rowMajor_storeRowMajor _ _
  have hafter : (matchingRotation.updateRotation quarterTurnSvd centredPoints turnedPoints
      4).matrix = quarterTurn * 1ᵀ := updateRotation_matrix rfl
  refine ⟨quarterTurn_svd, rfl, ?_, ?_, ?_⟩
  · rw [hbefore]
    exact transpose_mem_orthogonalGroup quarterTurn_orthogonal
  · rw [applyBatch_eq, hbefore, frobeniusNorm, Real.sqrt_eq_zero (frobeniusSq_nonneg _),
      centredPoints_eq, turnedPoints_eq]
    norm_num [frobeniusSq, quarterTurn, mul_apply, Fin.sum_univ_succ]
  · rw [applyBatch_eq, hafter, frobeniusNorm, Real.sqrt_eq_iff_mul_self_eq (frobeniusSq_nonneg _)
      (by norm_num), centredPoints_eq, turnedPoints_eq, transpose_one, mul_one]
    norm_num [frobeniusSq, quarterTurn, vecMul, dotProduct, Fin.sum_univ_succ]

/-- Routines that are exact in a training on these points, whose codes stand for the turned
points under every quantizer. -/
noncomputable def turningRoutines : OrthogonalRoutines Unit 2 where
  genRange first _ := first
  randomMatrix := (1 / 4 : ℝ) • quarterTurn
  qrQ _ := quarterTurn
  svd := quarterTurnSvd
  trainHotStart pq _ _ _ _ := pq
  trainWithConfig pq _ _ := pq
  reconstruct _ _ _ := turnedPoints
  qr_mem _ := quarterTurn_orthogonal
  svd_mem := by
    intro C u vT h
    cases h
    exact ⟨quarterTurn_orthogonal, transpose_mem_orthogonalGroup (one_mem _)⟩

theorem centered_centredPoints : centered 2 4 centredPoints = centredPoints := by
  have hmean : ∀ j < 2, columnMean 2 4 centredPoints j = 0 := by
    intro j hj
    rcases (by omega : j = 0 ∨ j = 1) with rfl | rfl <;>
      norm_num [columnMean, centredPoints, Fin.sum_univ_succ]
  funext position
  rw [centered, hmean _ (Nat.mod_lt _ Nat.two_pos), sub_zero, ite_self]

theorem train_matrix {env : OpqEnvironment K Pq d} {u vT : Matrix (Fin d) (Fin d) K}
    (h : ∀ C, env.svd C = ⟨some u, some vT⟩) {opq : OPQMatrix K d} (hpos : 0 < opq.niter)
    (data : Nat → K) (n : Nat) (pq : Pq) : (opq.train env data n pq).1.matrix = u * vT := by
  obtain ⟨count, hcount⟩ := Nat.exists_eq_succ_of_ne_zero hpos.ne'
  show (opq.trainIterations env data n pq opq.niter).opq.matrix = u * vT
  rw [trainIterations, hcount, List.range_succ, List.foldl_append]
  exact updateRotation_matrix (h _)

/-- The first rotation is the factor of the random matrix, every update takes the factors of
the cross covariance, and the rotation at the end is the quarter turn. -/
theorem trained_rotation_is_isometry_turning :
    let trained := ((new 1 : OPQMatrix ℝ 2).train turningRoutines.toOpqEnvironment centredPoints
      4 ()).1
    turningRoutines.randomMatrix =
        turningRoutines.qrQ turningRoutines.randomMatrix * diagonal (fun _ => 1 / 4) ∧
      IsSvd (crossCov 2 4 ((new 1).trainingData turningRoutines.toOpqEnvironment centredPoints 4)
        turnedPoints) quarterTurn (fun _ => 2) 1 ∧
      trained.matrix = quarterTurn ∧
      (∀ x y out, ∀ i : Fin 2, trained.applyReverse (trained.apply x y) out i = x i) ∧
      rowMajor 4 2 (trained.applyBatch centredPoints turnedPoints 4) *
          (rowMajor 4 2 (trained.applyBatch centredPoints turnedPoints 4))ᵀ =
        rowMajor 4 2 centredPoints * (rowMajor 4 2 centredPoints)ᵀ := by
  intro trained
  obtain ⟨hreverse, hproducts⟩ :=
    trained_rotation_is_isometry turningRoutines (new 1) centredPoints 4 ()
  have hfinal : trained.matrix = quarterTurn * 1ᵀ :=
    train_matrix (fun _ => rfl) (by decide) centredPoints 4 ()
  refine ⟨?_, ?_, ?_, hreverse, hproducts centredPoints turnedPoints 4⟩
  · show (1 / 4 : ℝ) • quarterTurn = quarterTurn * _
    rw [← smul_one_eq_diagonal, Matrix.mul_smul, mul_one]
  · have hdata : (new 1 : OPQMatrix ℝ 2).trainingData turningRoutines.toOpqEnvironment
        centredPoints 4 = centredPoints := centered_centredPoints
    rw [hdata]
    exact quarterTurn_svd
  · rw [hfinal, transpose_one, mul_one]

end QuarterTurn

end OPQMatrix

end PaimonVindex
