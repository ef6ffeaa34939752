import PaimonVindex.Lib.Compaction
import PaimonVindex.Vamana.BuildPass
import PaimonVindex.Vamana.Shards

/-! Robust pruning on reused buffers. The pool of candidates is compacted in place behind
the pivots that were taken, and the result is that of the textbook loop. -/

namespace PaimonVindex.Vamana

open Compaction List

structure PruneBuffers (K : Type) where
  unique : List Nat
  pool : List (ScoredNode K)
  selected : List Nat

section Into

variable {K : Type} [Scalar K] [Mul K] (env : PruneEnvironment K)

/-- The loop over whole blocks of four entries. All four are read before any is written. -/
def keepFours (pivot : ScoredNode K) :
    (blocks index : Nat) → Buffer (ScoredNode K) → Buffer (ScoredNode K)
  | 0, _, buffer => buffer
  | blocks + 1, index, buffer =>
    match buffer.items.drop index with
    | a :: b :: c :: d :: _ =>
      let (toA, toB, toC, toD) := env.distanceBetweenFour pivot.id a.id b.id c.id d.id
      keepFours pivot blocks (index + 4) ([(a, toA), (b, toB), (c, toC), (d, toD)].foldl
        (fun buffer entry =>
          buffer.keep entry.1 (retainAfterPrune env entry.2 entry.1.distance)) buffer)
    | _ => buffer

/-- The pool after the entries from `next` on were held against the pivot. -/
def compactPool (pivot : ScoredNode K) (next : Nat) (pool : List (ScoredNode K)) :
    List (ScoredNode K) :=
  let buffer : Buffer (ScoredNode K) := ⟨pool, next⟩
  let count := pool.length - next
  if env.metric = .l2 ∧ env.dimension < 256 then
    let blocks := count / 4
    (keepEach (retainOne env pivot) (count - 4 * blocks) (next + 4 * blocks)
      (keepFours env pivot blocks next buffer)).truncated
  else if env.metric = .l2 then
    (keepEach (fun candidate => env.distanceBetweenExceeds pivot.id candidate.id env.alpha
      candidate.distance) count next buffer).truncated
  else (keepEach (retainOne env pivot) count next buffer).truncated

/-- The main loop, with room for `room` more selected nodes. -/
def prunePool : (room next : Nat) → PruneBuffers K → PruneBuffers K
  | 0, _, buffers => buffers
  | room + 1, next, buffers =>
    match buffers.pool.drop next with
    | [] => buffers
    | pivot :: _ => prunePool room (next + 1)
        { buffers with
          pool := compactPool env pivot (next + 1) buffers.pool
          selected := buffers.selected ++ [pivot.id] }

def robustPruneCandidatesInto (node : Nat) (candidates currentNeighbors : List Nat)
    (nodeCount maxDegree : Nat) (buffers : PruneBuffers K) : PruneBuffers K :=
  let buffers := { buffers with unique := [] }
  let buffers := { buffers with
    unique := (buffers.unique ++ (candidates ++ currentNeighbors).filter fun candidate =>
      decide (candidate ≠ node) && decide (candidate < nodeCount)).mergeSort.dedup }
  let buffers := { buffers with pool := [] }
  let buffers := { buffers with
    pool := (buffers.pool ++ buffers.unique.map fun candidate =>
      ScoredNode.mk candidate (env.distanceBetween node candidate)).mergeSort scoredNodeLe }
  prunePool env maxDegree 0 { buffers with selected := [] }

theorem keepFours_compacted {pivot : ScoredNode K} {buffer : Buffer (ScoredNode K)} {index : Nat}
    {kept rest : List (ScoredNode K)} (h : Compacted buffer index kept rest) :
    Compacted (keepEach (retainOne env pivot) (rest.length - 4 * (rest.length / 4))
      (index + 4 * (rest.length / 4)) (keepFours env pivot (rest.length / 4) index buffer))
      (index + rest.length) (kept ++ retainFour env pivot rest) [] := by
  fun_induction retainFour env pivot rest generalizing buffer index kept with
  | case1 a b c d rest toA toB toC toD hfour ih =>
    have hread : Compacted buffer index kept
      ([(a, toA), (b, toB), (c, toC), (d, toD)].map Prod.fst ++ rest) := h
    have hrest := ih (hread.foldl_keep Prod.fst fun entry =>
      retainAfterPrune env entry.2 entry.1.distance)
    have hblocks : (a :: b :: c :: d :: rest).length / 4 = rest.length / 4 + 1 := by
      simp only [length_cons]
      omega
    rw [hblocks, keepFours, h.drop_eq]
    simp only [hfour]
    convert hrest using 1
    · congr 1
      · simp only [length_cons]
        omega
      · simp only [length_cons, length_nil]
        omega
    · simp only [length_cons, length_nil]
      omega
    · rw [append_assoc]
  | case2 rest hshort =>
    have hblocks : rest.length / 4 = 0 := by
      rcases rest with _ | ⟨a, _ | ⟨b, _ | ⟨c, _ | ⟨d, rest⟩⟩⟩⟩
      case cons.cons.cons.cons => exact absurd rfl (hshort a b c d rest)
      all_goals simp
    rw [hblocks]
    exact h.keepEach (retainOne env pivot)

theorem compactPool_append (pivot : ScoredNode K) (taken rest : List (ScoredNode K)) :
    compactPool env pivot taken.length (taken ++ rest) = taken ++ retained env pivot rest := by
  have hstart := compacted_start taken rest
  have hcount : (taken ++ rest).length - taken.length = rest.length := by simp
  rw [compactPool, retained]
  simp only [hcount]
  split
  · exact (keepFours_compacted env hstart).truncated_eq
  · split
    · exact (hstart.keepEach _).truncated_eq
    · exact (hstart.keepEach _).truncated_eq

theorem prunePool_selected (room : Nat) (taken rest : List (ScoredNode K))
    (unique selected : List Nat) :
    (prunePool env room taken.length ⟨unique, taken ++ rest, selected⟩).selected =
      selected ++ selectPivots env room rest := by
  induction room generalizing taken rest selected with
  | zero => simp [prunePool, selectPivots]
  | succ room ih =>
    rw [prunePool, drop_left]
    cases rest with
    | nil => simp [selectPivots]
    | cons pivot rest =>
      have hpool : compactPool env pivot (taken.length + 1) (taken ++ pivot :: rest) =
          taken ++ [pivot] ++ retained env pivot rest := by
        have hcompact := compactPool_append env pivot (taken ++ [pivot]) rest
        rwa [length_append, append_assoc] at hcompact
      have hih := ih (taken ++ [pivot]) (retained env pivot rest) (selected ++ [pivot.id])
      rw [length_append, append_assoc selected] at hih
      simp only [hpool]
      exact hih

/-- The reused buffers have no influence. -/
theorem robustPruneCandidatesInto_selected (node : Nat) (candidates currentNeighbors : List Nat)
    (nodeCount maxDegree : Nat) (buffers : PruneBuffers K) :
    (robustPruneCandidatesInto env node candidates currentNeighbors nodeCount maxDegree
      buffers).selected =
      robustPruneCandidates env node candidates currentNeighbors nodeCount maxDegree :=
  prunePool_selected env maxDegree [] _ _ []

end Into

section Textbook

variable {K : Type} [Scalar K] [Mul K] (env : PruneEnvironment K)

/-- The kernels for blocks and for thresholds agree with the distance. -/
structure PruneEnvironment.Agrees : Prop where
  four : env.metric = .l2 → ∀ p a b c d, env.distanceBetweenFour p a b c d =
    (env.distanceBetween p a, env.distanceBetween p b, env.distanceBetween p c,
      env.distanceBetween p d)
  exceeds : env.metric = .l2 → ∀ p c threshold,
    env.distanceBetweenExceeds p c env.alpha threshold =
      retainAfterPrune env (env.distanceBetween p c) threshold

/-- The textbook loop: the nearest remaining candidate is taken, and the candidates that
fail the test against it are discarded. -/
inductive Prunes (node : Nat) : (room : Nat) → (remaining : Finset Nat) → List Nat → Prop
  | full (remaining : Finset Nat) : Prunes node 0 remaining []
  | exhausted (room : Nat) : Prunes node room ∅ []
  | take {room pivot : Nat} {remaining : Finset Nat} {selected : List Nat}
      (hpivot : pivot ∈ remaining)
      (hnearest : ∀ c ∈ remaining, c ≠ pivot →
        closer (pivot, env.distanceBetween node pivot) (c, env.distanceBetween node c))
      (hrest : Prunes node room ((remaining.erase pivot).filter fun c =>
        retainAfterPrune env (env.distanceBetween pivot c) (env.distanceBetween node c)) selected) :
      Prunes node (room + 1) remaining (pivot :: selected)

def validCandidates (node nodeCount : Nat) (candidates currentNeighbors : List Nat) : Finset Nat :=
  (candidates ++ currentNeighbors).toFinset.filter fun c => c ≠ node ∧ c < nodeCount

variable {env} {R : Type} [LinearOrder R] {rank : K → R} {node room : Nat}

theorem Prunes.unique (hrank : Ranked rank) {remaining : Finset Nat} {l l' : List Nat}
    (h : Prunes env node room remaining l) (h' : Prunes env node room remaining l') : l = l' := by
  induction h generalizing l' with
  | full remaining => cases h' <;> rfl
  | exhausted room =>
    cases h' with
    | full => rfl
    | exhausted => rfl
    | take hpivot => exact absurd hpivot (Finset.notMem_empty _)
  | @take room pivot remaining selected hpivot hnearest hrest ih =>
    cases h' with
    | exhausted => exact absurd hpivot (Finset.notMem_empty _)
    | @take _ pivot' _ selected' hpivot' hnearest' hrest' =>
      have hsame : pivot = pivot' := by
        by_contra hne
        have hlt := (closer_iff hrank _ _).mp (hnearest pivot' hpivot' (Ne.symm hne))
        have hgt := (closer_iff hrank _ _).mp (hnearest' pivot hpivot hne)
        exact lt_asymm hlt hgt
      subst hsame
      rw [ih hrest']

theorem retained_eq_filter (h : env.Agrees) (pivot : ScoredNode K) (pool : List (ScoredNode K)) :
    retained env pivot pool = pool.filter (retainOne env pivot) := by
  rw [retained]
  split
  · rename_i hl2
    fun_induction retainFour env pivot pool with
    | case1 a b c d rest toA toB toC toD hfour ih =>
      rw [h.four hl2.1, Prod.mk.injEq, Prod.mk.injEq, Prod.mk.injEq] at hfour
      obtain ⟨rfl, rfl, rfl, rfl⟩ := hfour
      rw [ih, show a :: b :: c :: d :: rest = [a, b, c, d] ++ rest from rfl, filter_append]
      congr 1
      rw [show [a, b, c, d] = [(a, env.distanceBetween pivot.id a.id),
        (b, env.distanceBetween pivot.id b.id), (c, env.distanceBetween pivot.id c.id),
        (d, env.distanceBetween pivot.id d.id)].map Prod.fst from rfl, filter_map]
      rfl
    | case2 => rfl
  · split
    · rename_i hl2
      simp only [h.exceeds hl2]
      rfl
    · rfl

def scored (env : PruneEnvironment K) (node candidate : Nat) : ScoredNode K :=
  ⟨candidate, env.distanceBetween node candidate⟩

/-- On a pool in the order of the distances the loop takes the first one. -/
theorem prunes_selectPivots (h : env.Agrees) (room : Nat) {ids : List Nat} (hnodup : ids.Nodup)
    (hsorted : ids.Pairwise fun a b =>
      closer (a, env.distanceBetween node a) (b, env.distanceBetween node b)) :
    Prunes env node room ids.toFinset (selectPivots env room (ids.map (scored env node))) := by
  induction room generalizing ids with
  | zero => exact .full _
  | succ room ih =>
    cases ids with
    | nil => exact .exhausted _
    | cons pivot ids =>
      obtain ⟨hnew, hnodup⟩ := nodup_cons.mp hnodup
      obtain ⟨hnearest, hsorted⟩ := pairwise_cons.mp hsorted
      rw [map_cons, selectPivots, retained_eq_filter h, filter_map]
      refine .take (mem_toFinset.mpr mem_cons_self) (fun c hc hne => ?_) ?_
      · exact hnearest c ((mem_cons.mp (mem_toFinset.mp hc)).resolve_left hne)
      · have hrest := ih (hnodup.filter (retainOne env (scored env node pivot) ∘ scored env node))
          (hsorted.filter _)
        rw [toFinset_filter] at hrest
        rw [toFinset_cons, show (scored env node pivot).id = pivot from rfl,
          Finset.erase_insert (by simpa using hnew)]
        exact hrest

omit [Mul K] in
theorem scoredNodeLe_iff (h : Ranked rank) (left right : ScoredNode K) :
    scoredNodeLe left right ↔
      lexRank rank (left.id, left.distance) ≤ lexRank rank (right.id, right.distance) := by
  rw [scoredNodeLe, Ranked.lexLt_iff h, lexRank, lexRank, Prod.Lex.toLex_le_toLex,
    decide_eq_true_eq]

theorem prunes_robustPrune (hrank : Ranked rank) (h : env.Agrees) (node : Nat)
    (candidates currentNeighbors : List Nat) (nodeCount maxDegree : Nat) :
    Prunes env node maxDegree (validCandidates node nodeCount candidates currentNeighbors)
      (robustPruneCandidates env node candidates currentNeighbors nodeCount maxDegree) := by
  set pool := scoredPool env node (uniqueCandidates node candidates currentNeighbors nodeCount)
  have hids : (pool.map ScoredNode.id).Perm _ := scoredPool_ids env node _
  have hscored : (pool.map ScoredNode.id).map (scored env node) = pool := by
    rw [map_map]
    refine (map_congr_left fun x hx => ?_).trans (map_id pool)
    obtain ⟨c, -, rfl⟩ := mem_map.mp (mem_mergeSort.mp hx)
    rfl
  have hnodup : (pool.map ScoredNode.id).Nodup := hids.nodup_iff.mpr (nodup_dedup _)
  have hsorted : pool.Pairwise fun a b => scoredNodeLe a b := by
    refine pairwise_mergeSort (fun a b c hab hbc => ?_) (fun a b => ?_) _
    · rw [scoredNodeLe_iff hrank] at *
      exact hab.trans hbc
    · rw [Bool.or_eq_true, scoredNodeLe_iff hrank, scoredNodeLe_iff hrank]
      exact le_total _ _
  rw [← hscored, pairwise_map] at hsorted
  have hprunes := prunes_selectPivots h maxDegree hnodup
    ((hsorted.and hnodup).imp fun {a b} hab => by
      rw [closer_iff hrank]
      refine lt_of_le_of_ne ((scoredNodeLe_iff hrank _ _).mp hab.1) fun heq => hab.2 ?_
      exact congrArg Prod.fst (lexRank_injective hrank heq))
  have hvalid : validCandidates node nodeCount candidates currentNeighbors =
      (pool.map ScoredNode.id).toFinset := by
    ext c
    rw [mem_toFinset, hids.mem_iff, mem_uniqueCandidates, validCandidates, Finset.mem_filter,
      mem_toFinset]
  rw [hscored] at hprunes
  rw [hvalid]
  exact hprunes

/-- Pruning into reused buffers selects what the textbook loop selects, whatever the buffers
held before. -/
theorem robust_prune_into_textbook (hrank : Ranked rank) (hkernels : env.Agrees) (node : Nat)
    (candidates currentNeighbors : List Nat) (nodeCount maxDegree : Nat)
    (buffers : PruneBuffers K) :
    let pruned := robustPruneCandidatesInto env node candidates currentNeighbors nodeCount maxDegree
    (∀ l, Prunes env node maxDegree (validCandidates node nodeCount candidates currentNeighbors) l ↔
        l = (pruned buffers).selected) ∧
      (pruned buffers).selected.Nodup ∧ node ∉ (pruned buffers).selected ∧
      ∀ buffers', pruned buffers' = pruned buffers := by
  intro pruned
  have hselected : (pruned buffers).selected = _ :=
    robustPruneCandidatesInto_selected env node candidates currentNeighbors nodeCount
      maxDegree buffers
  have hprunes := prunes_robustPrune hrank hkernels node candidates currentNeighbors
    nodeCount maxDegree
  have hfits := robustPrune_fits env node candidates currentNeighbors nodeCount maxDegree
  rw [hselected]
  refine ⟨fun l => ⟨fun h => h.unique hrank hprunes, fun h => h ▸ hprunes⟩, hfits.nodup,
    fun hmem => (hfits.mem node hmem).2 rfl, fun buffers' => rfl⟩

end Textbook

theorem onLine_agrees : onLine.Agrees where
  four _ _ _ _ _ _ := rfl
  exceeds _ p c threshold := by
    rw [Bool.eq_iff_iff]
    simpa [onLine, retainAfterPrune, Scalar.ge] using le_of_lt

/-- Behind the first pivot there are a block of four candidates and one more. -/
theorem robust_prune_into_on_line : onLine.Agrees ∧ (robustPruneCandidatesInto onLine 3
    [6, 0, 6, 5, 2] [1, 3, 4] 7 2 ⟨[9], [⟨4, 1⟩], [7]⟩).selected = [2, 4] := by
  have htextbook := (robust_prune_into_textbook ranked_rat onLine_agrees 3 [6, 0, 6, 5, 2] [1, 3, 4]
    7 2 ⟨[9], [⟨4, 1⟩], [7]⟩).1 [2, 4]
  refine ⟨onLine_agrees, (htextbook.mp (.take ?_ ?_ (.take ?_ ?_ (.full _)))).symm⟩
  all_goals decide +kernel

end PaimonVindex.Vamana
