import Mathlib.Algebra.Algebra.Basic
import Mathlib.Algebra.BigOperators.Ring.List
import PaimonVindex.Lib.Paging

/-! Linear maps of vectors, given by position, that multiply inner products by a
constant: butterflies done in place, blocks, and permutations. -/

namespace Isometry

open List Function

variable {K : Type*} [CommRing K] {n : ℕ} {c : K}

def inner (n : ℕ) (x y : ℕ → K) : K := ((List.range n).map fun i => x i * y i).sum

structure Scales (n : ℕ) (c : K) (T : (ℕ → K) → ℕ → K) : Prop where
  linear : ∀ (a b : K) (x y : ℕ → K), T (a • x + b • y) = a • T x + b • T y
  inner_eq : ∀ x y, inner n (T x) (T y) = c * inner n x y

theorem Scales.comp {c' : K} {T T' : (ℕ → K) → ℕ → K} (h' : Scales n c' T') (h : Scales n c T) :
    Scales n (c' * c) fun x => T' (T x) where
  linear a b x y := by rw [h.linear, h'.linear]
  inner_eq x y := by rw [h'.inner_eq, h.inner_eq, mul_assoc]

theorem Scales.foldl {ι : Type*} {T : ι → (ℕ → K) → ℕ → K} {l : List ι}
    (h : ∀ i ∈ l, Scales n c (T i)) :
    Scales n (c ^ l.length) fun x => l.foldl (fun x i => T i x) x := by
  induction l with
  | nil => exact ⟨fun _ _ _ _ => rfl, by simp⟩
  | cons i l ih =>
    rw [forall_mem_cons] at h
    rw [length_cons, pow_succ]
    exact (ih h.2).comp h.1

/-- One pair in place: its sum on the left, its difference on the right. -/
def butterfly (width : ℕ) (x : ℕ → K) (left : ℕ) : ℕ → K :=
  update (update x left (x left + x (left + width))) (left + width) (x left - x (left + width))

theorem foldl_butterfly {width : ℕ} {lefts : List ℕ}
    (h : (lefts ++ lefts.map (· + width)).Nodup) (x : ℕ → K) (i : ℕ) :
    lefts.foldl (butterfly width) x i =
      if i ∈ lefts then x i + x (i + width)
      else if width ≤ i ∧ i - width ∈ lefts then x (i - width) - x i else x i := by
  induction lefts generalizing x with
  | nil => simp
  | cons left lefts ih =>
    rw [cons_append, map_cons, nodup_cons, perm_middle.nodup_iff, nodup_cons] at h
    simp only [mem_append, mem_cons, mem_map] at h
    rw [foldl_cons, ih h.2.2]
    simp only [butterfly, update_apply, mem_cons]
    grind

/-- Butterflies over disjoint pairs that cover the positions. -/
theorem scales_butterflies (width : ℕ) (lefts : List ℕ)
    (h : (lefts ++ lefts.map (· + width)).Perm (List.range n)) :
    Scales n (2 : K) fun x => lefts.foldl (butterfly width) x where
  linear a b x y := by
    funext i
    simp only [foldl_butterfly (h.nodup_iff.mpr nodup_range), Pi.add_apply, Pi.smul_apply,
      smul_eq_mul]
    split_ifs <;> ring
  inner_eq x y := by
    have hnodup := h.nodup_iff.mpr nodup_range
    -- Summed over the pairs.
    have hpairs : ∀ x y : ℕ → K, inner n x y =
        (lefts.map fun l => x l * y l + x (l + width) * y (l + width)).sum := by
      intro x y
      rw [inner, ← (h.map fun i => x i * y i).sum_eq, map_append, sum_append, map_map, sum_map_add]
      rfl
    rw [hpairs, hpairs, ← sum_map_mul_left]
    refine congrArg sum (map_congr_left fun l hl => ?_)
    have hright : l + width ∉ lefts := fun hmem =>
      (nodup_append.mp hnodup).2.2 _ hmem _ (mem_map_of_mem hl) rfl
    simp only [foldl_butterfly hnodup, hl, hright, Nat.le_add_left, Nat.add_sub_cancel, and_self,
      if_true, if_false]
    ring

/-- A map of blocks, applied to each of them. -/
theorem Scales.blocks {width : ℕ} {T : (ℕ → K) → ℕ → K} (h : Scales width 1 T) (m : ℕ) :
    Scales (m * width) 1 fun x i => T (fun j => x (i / width * width + j)) (i % width) where
  linear a b x y := funext fun i => congrFun (h.linear a b _ _) (i % width)
  inner_eq x y := by
    rw [one_mul]
    induction m with
    | zero => simp [inner]
    | succ m ih =>
      have hblock := h.inner_eq (fun j => x (m * width + j)) fun j => y (m * width + j)
      rw [one_mul] at hblock
      rw [inner, inner, Nat.succ_mul, range_add, map_append, map_append, sum_append, sum_append]
      refine congrArg₂ _ ih (.trans (congrArg sum ?_) (hblock.trans (congrArg sum ?_)))
      · rw [map_map]
        refine map_congr_left fun j hj => ?_
        obtain ⟨hdiv, hmod⟩ := Paging.div_mod_of_lt (p := m) (mem_range.mp hj)
        simp only [comp_apply, hdiv, hmod]
      · rw [map_map]
        rfl

/-- Every entry is written to the place that the permutation gives it. -/
def scatter (p : List ℕ) (x target : ℕ → K) : ℕ → K :=
  p.zipIdx.foldl (fun target move => update target move.1 (x move.2)) target

omit [CommRing K] in
theorem scatter_apply {p : List ℕ} (h : p.Nodup) (x target : ℕ → K) (i : ℕ) :
    scatter p x target i = if i ∈ p then x (p.idxOf i) else target i := by
  have hfrom : ∀ k, (p.zipIdx k).foldl (fun target move => update target move.1 (x move.2))
      target i = if i ∈ p then x (k + p.idxOf i) else target i := by
    induction p generalizing target with
    | nil => simp
    | cons d p ih =>
      intro k
      rw [nodup_cons] at h
      rw [zipIdx_cons, foldl_cons, ih h.2]
      grind
  simpa [scatter] using hfrom 0

theorem scales_permuted {p : List ℕ} (h : p.Perm (List.range n)) :
    Scales n (1 : K) fun x i => if i < n then x (p.idxOf i) else x i where
  linear a b x y := by
    funext i
    simp only [Pi.add_apply, Pi.smul_apply]
    split_ifs <;> rfl
  inner_eq x y := by
    have hindex : p.map p.idxOf = List.range n := by
      refine ext_getElem (by simp [h.length_eq]) fun i hi hi' => ?_
      simp [(h.nodup_iff.mpr nodup_range).idxOf_getElem]
    rw [one_mul, inner, ← (h.map _).sum_eq, inner, ← hindex, map_map]
    refine congrArg sum (map_congr_left fun i hi => ?_)
    simp only [mem_range.mp (h.mem_iff.mp hi), if_true, comp_apply]

end Isometry
