import Mathlib.Data.Real.Basic
import PaimonVindex.Ivf.RqFile
import PaimonVindex.Lib.Isometry

/-! The rotation of IVF-RQ: rounds of random signs, Hadamard transforms of blocks
and a random permutation. In exact arithmetic it is an isometry, whatever words
the generator returns. Vectors are given by position. -/

namespace PaimonVindex

open Isometry List

structure WordGenerator (ρ : Type) where
  new : UInt64 → ρ
  nextU64 : ρ → UInt64 × ρ

structure RQRotation where
  d : Nat
  paddedD : Nat
  signMasks : List (List UInt8)
  permutations : List (Array Nat)

namespace RQRotation

section New

variable {ρ : Type} (generator : WordGenerator ρ)

def nextUsize (upper : Nat) (rng : ρ) : Nat × ρ :=
  let (word, rng) := generator.nextU64 rng
  (word.toNat % upper, rng)

def nextSigns : Nat → ρ → List UInt8 × ρ
  | 0, rng => ([], rng)
  | count + 1, rng =>
    let (word, rng) := generator.nextU64 rng
    let (signs, rng) := nextSigns count rng
    (word.toUInt8 :: signs, rng)

/-- The swaps of the positions from the given one down to the second. -/
def shuffle : Nat → Array Nat → ρ → Array Nat × ρ
  | 0, permutation, rng => (permutation, rng)
  | i + 1, permutation, rng =>
    let (j, rng) := nextUsize generator (i + 2) rng
    shuffle i (permutation.swapIfInBounds (i + 1) j) rng

def drawRounds (paddedD : Nat) : Nat → ρ → List (List UInt8 × Array Nat)
  | 0, _ => []
  | rounds + 1, rng =>
    let (signs, rng) := nextSigns generator ((paddedD + 7) / 8) rng
    let (permutation, rng) := shuffle generator (paddedD - 1) (Array.range paddedD) rng
    (signs, permutation) :: drawRounds paddedD rounds rng

def new (d : Nat) (seed : UInt64) (rounds : UInt32) : RQRotation :=
  let paddedD := Rq.paddedDimension d
  let mixed := seed ^^^ ⟨(UInt64.ofNat d).toBitVec.rotateLeft 17⟩
  let drawn := drawRounds generator paddedD rounds.toNat (generator.new mixed)
  ⟨d, paddedD, drawn.map Prod.fst, drawn.map Prod.snd⟩

end New

section Apply

variable {K : Type} [Field K]

def flipSigns (signs : List UInt8) (values : ℕ → K) : ℕ → K := fun dim =>
  if signs.getD (dim / 8) 0 &&& (1 <<< UInt8.ofNat (dim % 8)) ≠ 0 then -values dim else values dim

/-- The left positions of the pairs, `width` apart, in the order of the loops. -/
def lefts (width : Nat) : List Nat :=
  (List.range (Rq.rotationBlockSize / (width * 2))).flatMap fun base =>
    (List.range width).map fun offset => base * (width * 2) + offset

def hadamard64 (values : ℕ → K) : ℕ → K :=
  let values := (List.range 6).foldl
    (fun values level => (lefts (2 ^ level)).foldl (butterfly (2 ^ level)) values) values
  fun i => if i < Rq.rotationBlockSize then values i * 8⁻¹ else values i

def hadamardBlocks (values : ℕ → K) : ℕ → K := fun i =>
  hadamard64 (fun j => values (i / Rq.rotationBlockSize * Rq.rotationBlockSize + j))
    (i % Rq.rotationBlockSize)

variable (self : RQRotation)

def applyRound (buffers : (ℕ → K) × (ℕ → K)) (round : List UInt8 × Array Nat) :
    (ℕ → K) × (ℕ → K) :=
  let values := hadamardBlocks (flipSigns round.1 buffers.1)
  let scratch := scatter round.2.toList values buffers.2
  (fun i => if i < self.paddedD then scratch i else values i, scratch)

def applyInPlace (values scratch : ℕ → K) : ℕ → K :=
  ((self.signMasks.zip self.permutations).foldl self.applyRound (values, scratch)).1

def rotate (input scratch : ℕ → K) : ℕ → K :=
  self.applyInPlace (fun i => if i < self.d then input i else 0) scratch

end Apply

theorem shuffle_perm {ρ : Type} (generator : WordGenerator ρ) (i : Nat) (permutation : Array Nat)
    (rng : ρ) : (shuffle generator i permutation rng).1.toList.Perm permutation.toList := by
  induction i generalizing permutation rng with
  | zero => rfl
  | succ i ih =>
    refine (ih _ _).trans ?_
    rw [Array.swapIfInBounds]
    split
    · split
      · exact (Array.swap_perm _ _).toList
      · rfl
    · rfl

theorem drawRounds_perm {ρ : Type} {generator : WordGenerator ρ} {paddedD rounds : Nat} {rng : ρ}
    {round : List UInt8 × Array Nat} (h : round ∈ drawRounds generator paddedD rounds rng) :
    round.2.toList.Perm (List.range paddedD) := by
  induction rounds generalizing rng with
  | zero => cases h
  | succ rounds ih =>
    rcases mem_cons.mp h with rfl | h
    · exact (shuffle_perm generator _ _ _).trans (by rw [Array.toList_range])
    · exact ih h

theorem flipSigns_scales (n : ℕ) (signs : List UInt8) :
    Scales n (1 : ℝ) (flipSigns signs) where
  linear a b x y := by
    funext i
    simp only [flipSigns, Pi.add_apply, Pi.smul_apply, smul_eq_mul]
    split <;> ring
  inner_eq x y := by
    rw [one_mul]
    refine congrArg sum (map_congr_left fun i _ => ?_)
    simp only [flipSigns]
    split <;> ring

theorem hadamard64_scales : Scales 64 (1 : ℝ) hadamard64 := by
  have hlevels : Scales 64 ((2 : ℝ) ^ 6) _ := Scales.foldl (l := List.range 6)
    fun level hlevel => scales_butterflies (2 ^ level) (lefts (2 ^ level)) (by
      revert level
      decide +kernel)
  have hscale : Scales 64 (8⁻¹ * 8⁻¹ : ℝ) fun x i => if i < 64 then x i * 8⁻¹ else x i := by
    refine ⟨fun a b x y => funext fun i => ?_, fun x y => ?_⟩
    · simp only [Pi.add_apply, Pi.smul_apply, smul_eq_mul]
      split <;> ring
    · rw [Isometry.inner, Isometry.inner, ← sum_map_mul_left]
      refine congrArg sum (map_congr_left fun i hi => ?_)
      simp only [mem_range.mp hi, if_true]
      ring
  have h := hscale.comp hlevels
  rwa [show (8⁻¹ * 8⁻¹ * 2 ^ 6 : ℝ) = 1 by norm_num] at h

theorem applyRound_values {self : RQRotation} {round : List UInt8 × Array Nat}
    (h : round.2.toList.Perm (List.range self.paddedD)) (buffers : (ℕ → ℝ) × (ℕ → ℝ)) :
    (self.applyRound buffers round).1 = fun i => if i < self.paddedD then
      hadamardBlocks (flipSigns round.1 buffers.1) (round.2.toList.idxOf i)
      else hadamardBlocks (flipSigns round.1 buffers.1) i := by
  funext i
  simp only [applyRound, scatter_apply (h.nodup_iff.mpr nodup_range), h.mem_iff, mem_range]
  split <;> rfl

/-- The scratch buffer does not show: a permutation writes all of it. -/
theorem applyInPlace_scales (self : RQRotation) (hblocks : Rq.rotationBlockSize ∣ self.paddedD)
    (hperm : ∀ p ∈ self.permutations, p.toList.Perm (List.range self.paddedD)) :
    ∃ T, Scales self.paddedD (1 : ℝ) T ∧
      ∀ values scratch, self.applyInPlace values scratch = T values := by
  obtain ⟨m, hm⟩ := hblocks
  have hrounds : ∀ round ∈ self.signMasks.zip self.permutations,
      round.2.toList.Perm (List.range self.paddedD) := fun round hround =>
    hperm _ (of_mem_zip hround).2
  have hhadamard : Scales self.paddedD (1 : ℝ) hadamardBlocks := by
    rw [hm, Nat.mul_comm]
    exact hadamard64_scales.blocks m
  have hround := fun (round : List UInt8 × Array Nat) hround =>
    (scales_permuted (K := ℝ) (hrounds round hround)).comp
      (hhadamard.comp (flipSigns_scales _ round.1))
  simp only [mul_one] at hround
  refine ⟨_, one_pow (M := ℝ) _ ▸ Scales.foldl hround, fun values scratch => ?_⟩
  rw [applyInPlace]
  generalize self.signMasks.zip self.permutations = rounds at hrounds
  clear hround
  induction rounds generalizing values scratch with
  | nil => rfl
  | cons round rounds ih =>
    rw [forall_mem_cons] at hrounds
    rw [foldl_cons, foldl_cons, ← applyRound_values hrounds.1 (values, scratch)]
    exact ih _ _ hrounds.2

theorem inner_padded {d n : ℕ} (h : d ≤ n) (x y : ℕ → ℝ) :
    inner n (fun i => if i < d then x i else 0) (fun i => if i < d then y i else 0) =
      inner d x y := by
  obtain ⟨k, rfl⟩ := Nat.exists_eq_add_of_le h
  have hhead : ∀ i ∈ List.range d, (if i < d then x i else 0) * (if i < d then y i else 0) =
      x i * y i := fun i hi => by simp [mem_range.mp hi]
  rw [Isometry.inner, range_add, map_append, sum_append, map_congr_left hhead]
  simp [Isometry.inner, Function.comp_def]

/-- In exact arithmetic the rotation keeps inner products, those of zero-padded
inputs included, and is linear. -/
theorem rotation_is_isometry {ρ : Type} (generator : WordGenerator ρ) (d : ℕ) (seed : UInt64)
    (rounds : UInt32) :
    let rotation := new generator d seed rounds
    let n := rotation.paddedD
    (∀ p ∈ rotation.permutations, p.toList.Perm (List.range n)) ∧
    (∀ x y s t : ℕ → ℝ,
      inner n (rotation.applyInPlace x s) (rotation.applyInPlace y t) = inner n x y) ∧
    (∀ x y s t : ℕ → ℝ, inner n (rotation.rotate x s) (rotation.rotate y t) = inner d x y ∧
      inner n (rotation.rotate x s - rotation.rotate y t)
        (rotation.rotate x s - rotation.rotate y t) = inner d (x - y) (x - y)) ∧
    ∀ (a b : ℝ) (x y s t u : ℕ → ℝ),
      rotation.applyInPlace (a • x + b • y) s =
        a • rotation.applyInPlace x t + b • rotation.applyInPlace y u ∧
      rotation.rotate (a • x + b • y) s = a • rotation.rotate x t + b • rotation.rotate y u := by
  intro rotation n
  have hperm : ∀ p ∈ rotation.permutations, p.toList.Perm (List.range n) := by
    intro p hp
    obtain ⟨round, hround, rfl⟩ := mem_map.mp hp
    exact drawRounds_perm hround
  have hd : d ≤ n := by
    change d ≤ Rq.paddedDimension d
    rw [Rq.paddedDimension, Rq.rotationBlockSize]
    omega
  obtain ⟨T, hT, heq⟩ := rotation.applyInPlace_scales (Nat.dvd_mul_left _ _) hperm
  have hlinear : ∀ (a b : ℝ) (x y s t u : ℕ → ℝ),
      rotation.rotate (a • x + b • y) s = a • rotation.rotate x t + b • rotation.rotate y u := by
    intro a b x y s t u
    rw [rotate, heq, rotate, heq, rotate, heq, ← hT.linear]
    congr 1
    funext i
    by_cases hi : i < rotation.d <;> simp [hi]
  have hinner : ∀ x y s t : ℕ → ℝ,
      inner n (rotation.rotate x s) (rotation.rotate y t) = inner d x y := by
    intro x y s t
    rw [rotate, heq, rotate, heq, hT.inner_eq, one_mul]
    exact inner_padded hd x y
  refine ⟨hperm, fun x y s t => ?_, fun x y s t => ⟨hinner x y s t, ?_⟩,
    fun a b x y s t u => ⟨?_, hlinear a b x y s t u⟩⟩
  · rw [heq, heq, hT.inner_eq, one_mul]
  · have hsub : rotation.rotate x s - rotation.rotate y t = rotation.rotate (x - y) s := by
      have h := hlinear 1 (-1) x y s s t
      rw [one_smul, one_smul, neg_one_smul, neg_one_smul, ← sub_eq_add_neg, ← sub_eq_add_neg] at h
      exact h.symm
    rw [hsub, hinner]
  · rw [heq, heq, heq, hT.linear]

end RQRotation

end PaimonVindex
