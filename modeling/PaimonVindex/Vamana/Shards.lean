import Mathlib.Data.Prod.Lex
import PaimonVindex.Ivf.Probe

/-! The shards of an overlapping Vamana build: every node is assigned to the shards of its
two nearest centroids. -/

namespace PaimonVindex.Vamana

open Scalar List

variable {K : Type} [Scalar K]

/-- A centroid with its distance is before another one by distance, then by index. -/
def closer (left right : Nat × K) : Bool :=
  totalLt left.2 right.2 || (!totalLt right.2 left.2 && decide (left.1 < right.1))

def offerCentroid (best : (Nat × K) × (Nat × K)) (candidate : Nat × K) :
    (Nat × K) × (Nat × K) :=
  if closer candidate best.1 then (candidate, best.1)
  else if closer candidate best.2 then (best.1, candidate)
  else best

def unsetCentroid : Nat × K := (0, maxValue)

def centroidDistance [VectorKernels K] (vector centroids : List K) (dimension centroid : Nat) : K :=
  VectorKernels.l2sqr vector (row centroids dimension centroid)

def nearestTwoCentroids [VectorKernels K] (vector centroids : List K)
    (centroidCount dimension : Nat) : Nat × Nat :=
  let best := (List.range centroidCount).foldl (fun best centroid =>
    offerCentroid best (centroid, centroidDistance vector centroids dimension centroid))
      (unsetCentroid, unsetCentroid)
  if centroidCount = 1 then (best.1.1, best.1.1) else (best.1.1, best.2.1)

/-- The first two of `count` centroids in the order by distance and index. -/
structure FirstTwo (distance : Nat → K) (count first second : Nat) : Prop where
  first_lt : first < count
  second_lt : second < count
  ordered : closer (first, distance first) (second, distance second)
  others : ∀ c < count, c ≠ first → c ≠ second →
    closer (second, distance second) (c, distance c)

section Nearest

variable {R : Type} [LinearOrder R] {rank : K → R}

def lexRank (rank : K → R) (candidate : Nat × K) : R ×ₗ Nat := toLex (rank candidate.2, candidate.1)

theorem Ranked.lexLt_iff (h : Ranked rank) (x y : K) (b : Bool) :
    (totalLt x y || (!totalLt y x && b)) = true ↔ rank x < rank y ∨ rank x = rank y ∧ b := by
  rw [Bool.or_eq_true, h.totalLt_iff, Bool.and_eq_true, Bool.not_eq_true', ← Bool.not_eq_true,
    h.totalLt_iff, not_lt]
  constructor
  · rintro (hless | ⟨hle, hid⟩)
    · exact .inl hless
    · exact (lt_or_eq_of_le hle).imp_right fun heq => ⟨heq, hid⟩
  · rintro (hless | ⟨heq, hid⟩)
    · exact .inl hless
    · exact .inr ⟨heq.le, hid⟩

theorem closer_iff (h : Ranked rank) (left right : Nat × K) :
    closer left right ↔ lexRank rank left < lexRank rank right := by
  rw [closer, Ranked.lexLt_iff h, lexRank, lexRank, Prod.Lex.toLex_lt_toLex, decide_eq_true_eq]

theorem lexRank_injective (h : Ranked rank) : Function.Injective (lexRank rank) := by
  intro x y hxy
  have hpair := Prod.mk.inj (toLex.injective hxy)
  exact Prod.ext hpair.2 (h.injective hpair.1)

theorem lexRank_lt_unset (x : Nat × K) :
    lexRank rank x < lexRank rank unsetCentroid ↔ rank x.2 < rank maxValue := by
  rw [lexRank, lexRank, Prod.Lex.toLex_lt_toLex]
  simp [unsetCentroid]

/-- The running best two are the two least of what was seen and of two unset entries. -/
structure BestTwo (rank : K → R) (seen : List (Nat × K)) (best : (Nat × K) × (Nat × K)) : Prop where
  ordered : lexRank rank best.1 ≤ lexRank rank best.2
  bounded : lexRank rank best.2 ≤ lexRank rank unsetCentroid
  first : best.1 = unsetCentroid ∨ best.1 ∈ seen
  second : best.2 = unsetCentroid ∨
    best.2 ∈ seen ∧ lexRank rank best.1 < lexRank rank best.2
  covers : ∀ x ∈ seen, x = best.1 ∨ lexRank rank best.2 ≤ lexRank rank x

theorem BestTwo.offer (hrank : Ranked rank) {seen : List (Nat × K)}
    {best : (Nat × K) × (Nat × K)} (h : BestTwo rank seen best) {x : Nat × K} (hx : x ∉ seen) :
    BestTwo rank (seen ++ [x]) (offerCentroid best x) := by
  obtain ⟨hordered, hbounded, hfirst, hsecond, hcovers⟩ := h
  rw [offerCentroid]
  simp only [closer_iff hrank]
  split
  · rename_i hless
    refine ⟨hless.le, hordered.trans hbounded, by simp, ?_, ?_⟩
    · exact hfirst.imp_right fun hmem => ⟨mem_append_left _ hmem, hless⟩
    · intro y hy
      rcases mem_append.mp hy with hy | hy
      · rcases hcovers y hy with rfl | hle
        · exact .inr le_rfl
        · exact .inr (hordered.trans hle)
      · exact .inl (mem_singleton.mp hy)
  · rename_i hfirstLe
    split
    · rename_i hless
      have hne : best.1 ≠ x := by
        rintro rfl
        rcases hfirst with hunset | hmem
        · exact absurd (hless.trans_le hbounded) (by rw [hunset]; exact lt_irrefl _)
        · exact hx hmem
      refine ⟨not_lt.mp hfirstLe, (hless.trans_le hbounded).le, ?_, .inr ⟨by simp, ?_⟩, ?_⟩
      · exact hfirst.imp_right (mem_append_left _)
      · exact lt_of_le_of_ne (not_lt.mp hfirstLe) fun heq => hne (lexRank_injective hrank heq)
      · intro y hy
        rcases mem_append.mp hy with hy | hy
        · exact (hcovers y hy).imp_right hless.le.trans
        · exact .inr (by rw [mem_singleton.mp hy])
    · rename_i hsecondLe
      refine ⟨hordered, hbounded, hfirst.imp_right (mem_append_left _), ?_, ?_⟩
      · exact hsecond.imp_right fun hmem => ⟨mem_append_left _ hmem.1, hmem.2⟩
      · intro y hy
        rcases mem_append.mp hy with hy | hy
        · exact hcovers y hy
        · exact .inr (by rw [mem_singleton.mp hy]; exact not_lt.mp hsecondLe)

def candidates (distance : Nat → K) (count : Nat) : List (Nat × K) :=
  (List.range count).map fun centroid => (centroid, distance centroid)

theorem bestTwo_candidates (hrank : Ranked rank) (distance : Nat → K) (count : Nat) :
    BestTwo rank (candidates distance count) ((List.range count).foldl
      (fun best centroid => offerCentroid best (centroid, distance centroid))
        (unsetCentroid, unsetCentroid)) := by
  induction count with
  | zero => exact ⟨le_rfl, le_rfl, .inl rfl, .inl rfl, by simp [candidates]⟩
  | succ count ih =>
    have hfresh : (count, distance count) ∉ candidates distance count := by
      simp [candidates]
    have hstep := ih.offer hrank hfresh
    rw [candidates, range_succ, map_append, foldl_append]
    exact hstep

section Compared

variable {distance : Nat → K} {count first second : Nat} {best : (Nat × K) × (Nat × K)}

omit [Scalar K] in
theorem mem_candidates {x : Nat × K} :
    x ∈ candidates distance count ↔ x.1 < count ∧ x = (x.1, distance x.1) := by
  rw [candidates, mem_map]
  constructor
  · rintro ⟨c, hc, rfl⟩
    exact ⟨mem_range.mp hc, rfl⟩
  · rintro ⟨hlt, heq⟩
    exact ⟨x.1, mem_range.mpr hlt, heq.symm⟩

variable (hrank : Ranked rank)

include hrank

theorem totalLt_maxValue_iff (x : Nat × K) :
    totalLt x.2 maxValue = true ↔ lexRank rank x < lexRank rank unsetCentroid :=
  (hrank.totalLt_iff _ _).trans (lexRank_lt_unset x).symm

theorem FirstTwo.first_le (h : FirstTwo distance count first second) {x : Nat × K}
    (hx : x ∈ candidates distance count) :
    lexRank rank (first, distance first) ≤ lexRank rank x := by
  obtain ⟨hlt, hvalue⟩ := mem_candidates.mp hx
  have hordered := (closer_iff hrank _ _).mp h.ordered
  rw [hvalue]
  by_cases hone : x.1 = first
  · rw [hone]
  · by_cases htwo : x.1 = second
    · rw [htwo]
      exact hordered.le
    · exact (hordered.trans ((closer_iff hrank _ _).mp (h.others _ hlt hone htwo))).le

variable (hbest : BestTwo rank (candidates distance count) best)

include hbest

theorem BestTwo.near (h : FirstTwo distance count best.1.1 best.2.1) :
    totalLt (distance best.1.1) maxValue ∧
      (totalLt (distance best.2.1) maxValue ∨ best.2.1 = 0) := by
  have hreal : ∀ x, lexRank rank x < lexRank rank unsetCentroid →
      x = unsetCentroid ∨ x ∈ candidates distance count → totalLt (distance x.1) maxValue := by
    rintro x hless (rfl | hx)
    · exact absurd hless (lt_irrefl _)
    · rw [(mem_candidates.mp hx).2] at hless
      exact (totalLt_maxValue_iff hrank _).mpr hless
  constructor
  · refine hreal _ (lt_of_le_of_ne (hbest.ordered.trans hbest.bounded) fun heq => ?_) hbest.first
    -- two unset entries would be one centroid, which is not before itself
    have hsame := lexRank_injective hrank (le_antisymm hbest.ordered (hbest.bounded.trans heq.ge))
    have hself := (closer_iff hrank _ _).mp h.ordered
    rw [hsame] at hself
    exact lt_irrefl _ hself
  · rcases hbest.bounded.lt_or_eq with hlt | heq
    · exact .inl (hreal _ hlt (hbest.second.imp_right And.left))
    · exact .inr (congrArg Prod.fst (lexRank_injective hrank heq))

variable (h : FirstTwo distance count first second) (hnear : totalLt (distance first) maxValue)

include h hnear

theorem BestTwo.first_eq : best.1 = (first, distance first) := by
  have hunset := (totalLt_maxValue_iff hrank (first, distance first)).mp hnear
  rcases hbest.covers (first, distance first) (mem_candidates.mpr ⟨h.first_lt, rfl⟩) with heq | hle
  · exact heq.symm
  · rcases hbest.second with heq | ⟨-, hstrict⟩
    · rw [heq] at hle
      exact absurd hunset (not_lt.mpr hle)
    · have hbelow := hstrict.trans_le hle
      rcases hbest.first with heq | hmem
      · rw [heq] at hbelow
        exact absurd (hbelow.trans hunset) (lt_irrefl _)
      · exact absurd hbelow (not_lt.mpr (h.first_le hrank hmem))

theorem BestTwo.second_eq (hsecond : totalLt (distance second) maxValue ∨ second = 0) :
    best.2.1 = second := by
  have hone := hbest.first_eq hrank h hnear
  have hordered := (closer_iff hrank _ _).mp h.ordered
  have hle := (hbest.covers (second, distance second)
    (mem_candidates.mpr ⟨h.second_lt, rfl⟩)).resolve_left fun heq =>
      absurd hordered (by rw [heq, hone]; exact lt_irrefl _)
  rcases hbest.second with heq | ⟨hin, hstrict⟩
  · rcases hsecond with hnear | hzero
    · exact absurd (hle.trans_lt ((totalLt_maxValue_iff hrank _).mp hnear))
        (by rw [heq]; exact lt_irrefl _)
    · rw [heq, hzero]
      rfl
  · obtain ⟨hlt, hvalue⟩ := mem_candidates.mp hin
    by_contra hne
    have hfar := (closer_iff hrank _ _).mp (h.others _ hlt (fun heq => ?_) hne)
    · rw [← hvalue] at hfar
      exact absurd hle (not_le.mpr hfar)
    · rw [hvalue, heq, hone] at hstrict
      exact lt_irrefl _ hstrict

end Compared

variable [VectorKernels K] (vector centroids : List K) {count dimension : Nat}

/-- The first two centroids are returned exactly if the nearest one, and the second one
unless it has the index zero, are nearer than `f32::MAX`. -/
theorem nearest_two_first_iff (hrank : Ranked rank) (hcount : 2 ≤ count) :
    FirstTwo (centroidDistance vector centroids dimension) count
        (nearestTwoCentroids vector centroids count dimension).1
        (nearestTwoCentroids vector centroids count dimension).2 ↔
      ∃ first second, FirstTwo (centroidDistance vector centroids dimension) count first second ∧
        totalLt (centroidDistance vector centroids dimension first) maxValue ∧
        (totalLt (centroidDistance vector centroids dimension second) maxValue ∨ second = 0) := by
  have hbest := bestTwo_candidates hrank (centroidDistance vector centroids dimension) count
  rw [nearestTwoCentroids, if_neg (by omega)]
  constructor
  · exact fun h => ⟨_, _, h, hbest.near hrank h⟩
  · rintro ⟨first, second, h, hnear, hsecond⟩
    rw [hbest.first_eq hrank h hnear, hbest.second_eq hrank h hnear hsecond]
    exact h

/-- In exact arithmetic, a point near its two centroids. -/
theorem nearest_two_first_near :
    FirstTwo (centroidDistance [(0 : Rat)] [1, 2] 1) 2
      (nearestTwoCentroids [(0 : Rat)] [1, 2] 2 1).1
      (nearestTwoCentroids [(0 : Rat)] [1, 2] 2 1).2 := by
  refine (nearest_two_first_iff [(0 : Rat)] [1, 2] ranked_rat le_rfl).mpr
    ⟨0, 1, ⟨by decide, by decide, by decide +kernel, ?_⟩, by decide +kernel,
      .inl (by decide +kernel)⟩
  intro c hc hzero hone
  omega

/-- Squared distances of 2^128 and more, which overflow in single precision: the point is
assigned to one shard twice. -/
theorem nearest_two_far_equal :
    nearestTwoCentroids [(0 : Rat)] [2 ^ 64, 2 ^ 65] 2 1 = (0, 0) ∧
      ¬FirstTwo (centroidDistance [(0 : Rat)] [2 ^ 64, 2 ^ 65] 1) 2 0 0 := by
  refine ⟨by decide +kernel, fun h => ?_⟩
  exact absurd h.ordered (by decide +kernel)

end Nearest

end PaimonVindex.Vamana
