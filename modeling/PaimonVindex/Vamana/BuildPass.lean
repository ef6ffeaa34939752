import PaimonVindex.Lib.KeyRuns
import PaimonVindex.Lib.Rows
import PaimonVindex.Vamana.Relayout

/-! A pass of the Vamana builder. The nodes of a batch are searched and pruned against
one state of the graph; then their lists are replaced, and the reverse edges are inserted
target by target. -/

namespace PaimonVindex.Vamana

open Checked KeyRuns CompactAdjacency List

structure ScoredNode (K : Type) where
  id : Nat
  distance : K

/-- The kernels of the builder on its vectors, and what decides on the pruning. -/
structure PruneEnvironment (K : Type) where
  metric : MetricType
  dimension : Nat
  alpha : K
  distanceBetween : Nat → Nat → K
  distanceBetweenFour : Nat → Nat → Nat → Nat → Nat → K × K × K × K
  /-- `distance_between_exceeds`, up to the scale and the threshold. -/
  distanceBetweenExceeds : Nat → Nat → K → K → Bool

section Prune

variable {K : Type} [Scalar K] [Mul K] (env : PruneEnvironment K)

def scoredNodeLe (left right : ScoredNode K) : Bool :=
  Scalar.totalLt left.distance right.distance ||
    (!Scalar.totalLt right.distance left.distance && decide (left.id ≤ right.id))

def retainAfterPrune (selectedToCandidate sourceToCandidate : K) : Bool :=
  match env.metric with
  | .innerProduct => Scalar.ge selectedToCandidate (env.alpha * sourceToCandidate)
  | .l2 | .cosine =>
    Scalar.ge (env.alpha * selectedToCandidate) sourceToCandidate &&
      !Scalar.ge sourceToCandidate (env.alpha * selectedToCandidate)

def retainOne (pivot candidate : ScoredNode K) : Bool :=
  retainAfterPrune env (env.distanceBetween pivot.id candidate.id) candidate.distance

def retainFour (pivot : ScoredNode K) : List (ScoredNode K) → List (ScoredNode K)
  | a :: b :: c :: d :: rest =>
    let (toA, toB, toC, toD) := env.distanceBetweenFour pivot.id a.id b.id c.id d.id
    (([(a, toA), (b, toB), (c, toC), (d, toD)].filter fun entry =>
      retainAfterPrune env entry.2 entry.1.distance).map Prod.fst) ++ retainFour pivot rest
  | rest => rest.filter (retainOne env pivot)

def retained (pivot : ScoredNode K) (pool : List (ScoredNode K)) : List (ScoredNode K) :=
  if env.metric = .l2 ∧ env.dimension < 256 then retainFour env pivot pool
  else if env.metric = .l2 then
    pool.filter fun candidate =>
      env.distanceBetweenExceeds pivot.id candidate.id env.alpha candidate.distance
  else pool.filter (retainOne env pivot)

def selectPivots : (room : Nat) → List (ScoredNode K) → List Nat
  | 0, _ => []
  | _ + 1, [] => []
  | room + 1, pivot :: pool => pivot.id :: selectPivots room (retained env pivot pool)

def uniqueCandidates (node : Nat) (candidates currentNeighbors : List Nat) (nodeCount : Nat) :
    List Nat :=
  ((candidates ++ currentNeighbors).filter fun candidate =>
    decide (candidate ≠ node) && decide (candidate < nodeCount)).mergeSort.dedup

def scoredPool (node : Nat) (unique : List Nat) : List (ScoredNode K) :=
  (unique.map fun candidate => ⟨candidate, env.distanceBetween node candidate⟩).mergeSort
    scoredNodeLe

def robustPruneCandidates (node : Nat) (candidates currentNeighbors : List Nat)
    (nodeCount maxDegree : Nat) : List Nat :=
  selectPivots env maxDegree
    (scoredPool env node (uniqueCandidates node candidates currentNeighbors nodeCount))

end Prune

def edgeLe (left right : Nat × Nat) : Bool :=
  decide (left.1 < right.1) || (decide (left.1 = right.1) && decide (left.2 ≤ right.2))

/-- Sorted edges without duplicates, and the ranges of one target. -/
def groupReverseEdges (reverseEdges : List (Nat × Nat)) : List (Nat × List Nat) :=
  keyRuns (reverseEdges.mergeSort edgeLe).dedup

def validateBuildInputs (vectorsLen count dimension maxDegree : Nat) : IoResult Unit := do
  rejectIf (count = 0 ∨ dimension = 0 ∨ maxDegree = 0)
    (invalidInput "Vamana count, dimension, and maximum degree must be greater than zero")
  rejectIf (count > 2 ^ 32 - 1) (invalidInput "Vamana vector count exceeds u32 node ID limit")
  rejectIf (maxDegree > 2 ^ 16 - 1)
    (invalidInput "Vamana maximum degree exceeds u16 adjacency degree limit")
  let expected ← okOr (checkedMul count dimension)
    (invalidInput "Vamana vector shape overflows usize")
  rejectIf (vectorsLen ≠ expected)
    (invalidInput s!"Vamana vector length {vectorsLen} does not match {expected}")

def parallelBuildBatchNodes : Nat := 128

inductive Write where
  | replace (node : Nat) (selected : List Nat)
  | insertReverseEdges (node : Nat) (incoming : List Nat)

def Write.node : Write → Nat
  | replace node _ => node
  | insertReverseEdges node _ => node

section Pass

variable {nodeCount capacity : Nat} {K : Type} [Scalar K] [Mul K] (env : PruneEnvironment K)
  (search : CompactAdjacency nodeCount capacity → Nat → List Nat) (maxDegree : Nat)

/-- The list that `insert_reverse_edges` writes in the place of `neighbors`. -/
def withReverseEdges (nodeCount maxDegree node : Nat) (incoming neighbors : List Nat) : List Nat :=
  let missing := incoming.filter fun neighbor => !neighbors.contains neighbor
  if missing.length = 0 then neighbors
  else if neighbors.length + missing.length ≤ maxDegree then neighbors ++ missing
  else robustPruneCandidates env node incoming neighbors nodeCount maxDegree

variable (adjacency : CompactAdjacency nodeCount capacity)

def Write.written : Write → List Nat
  | replace _ selected => selected
  | insertReverseEdges node incoming =>
    withReverseEdges env nodeCount maxDegree node incoming (adjacency.neighbors node)

def applyWrite (write : Write) : IoResult (CompactAdjacency nodeCount capacity) :=
  adjacency.replace write.node (write.written env maxDegree adjacency)

def selectedFor (node : Nat) : List Nat :=
  robustPruneCandidates env node (search adjacency node)
    (adjacency.neighbors node) nodeCount maxDegree

def reverseEdges (batch : List Nat) : List (Nat × Nat) :=
  batch.flatMap fun node =>
    (selectedFor env search maxDegree adjacency node).map fun neighbor => (neighbor, node)

def batchWrites (batch : List Nat) : List Write :=
  (batch.map fun node => .replace node (selectedFor env search maxDegree adjacency node)) ++
    (groupReverseEdges (reverseEdges env search maxDegree adjacency batch)).map fun group =>
      .insertReverseEdges group.1 group.2

def runBatch (batch : List Nat) : IoResult (CompactAdjacency nodeCount capacity) :=
  (batchWrites env search maxDegree adjacency batch).foldlM (applyWrite env maxDegree) adjacency

/-- `order` is the shuffled list of the nodes. -/
def runPass (order : List Nat) : IoResult (CompactAdjacency nodeCount capacity) :=
  (Rows.chunks parallelBuildBatchNodes order).foldlM (runBatch env search maxDegree) adjacency

def beforeBatch (order : List Nat) (batch : Nat) : IoResult (CompactAdjacency nodeCount capacity) :=
  ((Rows.chunks parallelBuildBatchNodes order).take batch).foldlM (runBatch env search maxDegree)
    adjacency

end Pass

/-- At most `maxDegree` distinct nodes other than the node itself. -/
structure Fits (maxDegree nodeCount node : Nat) (l : List Nat) : Prop where
  length_le : l.length ≤ maxDegree
  nodup : l.Nodup
  mem : ∀ v ∈ l, v < nodeCount ∧ v ≠ node

def AllFit {nodeCount capacity : Nat} (maxDegree : Nat)
    (adjacency : CompactAdjacency nodeCount capacity) : Prop :=
  ∀ v < nodeCount, Fits maxDegree nodeCount v (adjacency.neighbors v)

variable {nodeCount node maxDegree : Nat}

theorem Fits.length_lt {l : List Nat} (h : Fits maxDegree nodeCount node l)
    (hnode : node < nodeCount) : l.length < nodeCount := by
  have hnodup : (node :: l).Nodup :=
    nodup_cons.mpr ⟨fun hmem => (h.mem node hmem).2 rfl, h.nodup⟩
  have hsub : node :: l ⊆ List.range nodeCount := by
    intro v hv
    rcases mem_cons.mp hv with rfl | hv
    · exact mem_range.mpr hnode
    · exact mem_range.mpr (h.mem v hv).1
  have hlength := (subperm_of_subset hnodup hsub).length_le
  rwa [length_cons, length_range] at hlength

section PruneFacts

variable {K : Type} [Scalar K] [Mul K] (env : PruneEnvironment K)

theorem retainFour_sublist (pivot : ScoredNode K) (pool : List (ScoredNode K)) :
    (retainFour env pivot pool).Sublist pool := by
  fun_induction retainFour env pivot pool with
  | case1 a b c d rest toA toB toC toD hfour ih =>
    exact (show List.Sublist _ [a, b, c, d] from filter_sublist.map Prod.fst).append ih
  | case2 => exact filter_sublist

theorem retained_sublist (pivot : ScoredNode K) (pool : List (ScoredNode K)) :
    (retained env pivot pool).Sublist pool := by
  rw [retained]
  split
  · exact retainFour_sublist env pivot pool
  · split
    · exact filter_sublist
    · exact filter_sublist

theorem selectPivots_sublist (room : Nat) (pool : List (ScoredNode K)) :
    (selectPivots env room pool).Sublist (pool.map ScoredNode.id) ∧
      (selectPivots env room pool).length ≤ room := by
  induction room generalizing pool with
  | zero => exact ⟨nil_sublist _, le_rfl⟩
  | succ room ih =>
    cases pool with
    | nil => exact ⟨List.Sublist.refl _, Nat.zero_le _⟩
    | cons pivot pool =>
      obtain ⟨hsub, hlength⟩ := ih (retained env pivot pool)
      refine ⟨?_, Nat.succ_le_succ hlength⟩
      exact (hsub.trans ((retained_sublist env pivot pool).map ScoredNode.id)).cons_cons pivot.id

omit [Mul K] in
theorem scoredPool_ids (node : Nat) (unique : List Nat) :
    ((scoredPool env node unique).map ScoredNode.id).Perm unique := by
  refine ((mergeSort_perm _ _).map ScoredNode.id).trans (List.Perm.of_eq ?_)
  rw [map_map]
  exact map_id'' (fun _ => rfl) unique

theorem mem_uniqueCandidates {candidates currentNeighbors : List Nat} {candidate : Nat} :
    candidate ∈ uniqueCandidates node candidates currentNeighbors nodeCount ↔
      candidate ∈ candidates ++ currentNeighbors ∧ candidate ≠ node ∧ candidate < nodeCount := by
  rw [uniqueCandidates, mem_dedup, mem_mergeSort, mem_filter, Bool.and_eq_true,
    decide_eq_true_eq, decide_eq_true_eq]

theorem robustPrune_fits (node : Nat) (candidates currentNeighbors : List Nat)
    (nodeCount maxDegree : Nat) : Fits maxDegree nodeCount node
      (robustPruneCandidates env node candidates currentNeighbors nodeCount maxDegree) := by
  have hids := scoredPool_ids env node (uniqueCandidates node candidates currentNeighbors nodeCount)
  obtain ⟨hsub, hlength⟩ := selectPivots_sublist env maxDegree (scoredPool env node _)
  refine ⟨hlength, (hids.nodup_iff.mpr (nodup_dedup _)).sublist hsub, fun v hv => ?_⟩
  exact (mem_uniqueCandidates.mp (hids.mem_iff.mp (hsub.subset hv))).2.symm

theorem withReverseEdges_fits {incoming neighbors : List Nat}
    (hneighbors : Fits maxDegree nodeCount node neighbors) (hnodup : incoming.Nodup)
    (hincoming : ∀ u ∈ incoming, u < nodeCount ∧ u ≠ node) :
    Fits maxDegree nodeCount node
      (withReverseEdges env nodeCount maxDegree node incoming neighbors) := by
  rw [withReverseEdges]
  split
  · exact hneighbors
  · split
    · rename_i hroom
      refine ⟨by rw [length_append]; exact hroom, ?_, fun v hv => ?_⟩
      · refine nodup_append.mpr ⟨hneighbors.nodup, hnodup.filter _, fun u hu v hv heq => ?_⟩
        have hmissing := (mem_filter.mp hv).2
        rw [← heq] at hmissing
        simp [hu] at hmissing
      · rcases mem_append.mp hv with hv | hv
        · exact hneighbors.mem v hv
        · exact hincoming v (mem_filter.mp hv).1
    · exact robustPrune_fits env node incoming neighbors nodeCount maxDegree

/-- Every incoming edge is kept, or the list has been pruned with it among the candidates. -/
theorem withReverseEdges_covers {u : Nat} {incoming : List Nat} (hu : u ∈ incoming)
    (neighbors : List Nat) :
    u ∈ withReverseEdges env nodeCount maxDegree node incoming neighbors ∨
      withReverseEdges env nodeCount maxDegree node incoming neighbors =
        robustPruneCandidates env node incoming neighbors nodeCount maxDegree := by
  have hsplit : u ∈ neighbors ∨
      u ∈ incoming.filter fun neighbor => !neighbors.contains neighbor := by
    by_cases hold : u ∈ neighbors
    · exact .inl hold
    · exact .inr (mem_filter.mpr ⟨hu, by simpa using hold⟩)
  rw [withReverseEdges]
  split
  · rename_i hnone
    rw [length_eq_zero_iff.mp hnone] at hsplit
    exact .inl (hsplit.resolve_right not_mem_nil)
  · split
    · exact .inl (mem_append.mpr hsplit)
    · exact .inr rfl

end PruneFacts

theorem groupReverseEdges_grouped (edges : List (Nat × Nat)) :
    ∃ sorted : List (Nat × Nat), sorted.Nodup ∧ (∀ edge, edge ∈ sorted ↔ edge ∈ edges) ∧
      Grouped sorted (groupReverseEdges edges) := by
  refine ⟨_, nodup_dedup _, fun edge => ?_, keyRuns_grouped ?_⟩
  · rw [mem_dedup, mem_mergeSort]
  · have hsorted : (edges.mergeSort edgeLe).Pairwise fun a b => edgeLe a b :=
      pairwise_mergeSort (fun a b c => by simp [edgeLe]; omega)
        (fun a b => by simp [edgeLe]; omega) edges
    refine (hsorted.sublist (dedup_sublist _)).imp fun {a b} hle => ?_
    simp only [edgeLe, Bool.or_eq_true, Bool.and_eq_true, decide_eq_true_eq] at hle
    omega

theorem mem_groupReverseEdges {edges : List (Nat × Nat)} {group : Nat × List Nat}
    (h : group ∈ groupReverseEdges edges) :
    group.2.Nodup ∧ ∀ u, u ∈ group.2 ↔ (group.1, u) ∈ edges := by
  obtain ⟨sorted, hnodup, hmem, hgrouped⟩ := groupReverseEdges_grouped edges
  rw [hgrouped.values group h, valuesOf]
  constructor
  · refine (hnodup.filter _).map_on fun a ha b hb heq => ?_
    have ha := of_decide_eq_true (mem_filter.mp ha).2
    have hb := of_decide_eq_true (mem_filter.mp hb).2
    exact Prod.ext (ha.trans hb.symm) heq
  · intro u
    simp only [mem_map, mem_filter, decide_eq_true_eq, Prod.exists]
    constructor
    · rintro ⟨_, _, ⟨hin, rfl⟩, rfl⟩
      exact (hmem _).mp hin
    · intro hin
      exact ⟨group.1, u, ⟨(hmem _).mpr hin, rfl⟩, rfl⟩

theorem CompactAdjacency.nodeBuffer_replace_of_ne {capacity v : Nat}
    {adjacency adjacency' : CompactAdjacency nodeCount capacity} {l : List Nat}
    (h : adjacency.replace node l = .ok adjacency') (hnode : node < nodeCount) (hv : v ≠ node) :
    adjacency'.nodeBuffer v = adjacency.nodeBuffer v := by
  simp only [replace, accepted] at h
  obtain ⟨shard, hshard, rfl⟩ := h
  show ((Function.update adjacency.shards (shardIndex node) shard) (shardIndex v)).nodeBuffer v = _
  by_cases hsame : shardIndex v = shardIndex node
  · have hlocal := mt (local_eq_iff hsame).mp hv
    rw [hsame, Function.update_self, nodeBuffer, hsame]
    by_cases hlength : l.length ≤ capacity
    · rw [AdjacencyShard.replace, dif_pos hlength, Except.ok.injEq] at hshard
      subst hshard
      refine NodeBuffer.ext ?_ ?_
      · show overwrite _ 0 (block (overwrite _ _ _) capacity _ capacity) = _
        rw [block_overwrite_of_ne (Ne.symm hlocal) hlength le_rfl]
        rfl
      · exact (AdjacencyShard.getD_set_degrees (local_lt hnode) l.length v).trans (if_neg hlocal)
    · rw [AdjacencyShard.replace, dif_neg hlength] at hshard
      cases hshard
  · rw [Function.update_of_ne hsame]
    rfl

section Run

variable {nodeCount capacity : Nat} {K : Type} [Scalar K] [Mul K] (env : PruneEnvironment K)
  (search : CompactAdjacency nodeCount capacity → Nat → List Nat) {maxDegree : Nat}
  {adjacency : CompactAdjacency nodeCount capacity} {batch : List Nat}

def Write.Valid (maxDegree nodeCount : Nat) : Write → Prop
  | replace node selected => node < nodeCount ∧ Fits maxDegree nodeCount node selected
  | insertReverseEdges node incoming =>
    node < nodeCount ∧ incoming.Nodup ∧ ∀ u ∈ incoming, u < nodeCount ∧ u ≠ node

theorem mem_reverseEdges {u v : Nat} :
    (v, u) ∈ reverseEdges env search maxDegree adjacency batch ↔
      u ∈ batch ∧ v ∈ selectedFor env search maxDegree adjacency u := by
  simp [reverseEdges]

theorem batchWrites_valid (hbatch : ∀ node ∈ batch, node < nodeCount) :
    ∀ write ∈ batchWrites env search maxDegree adjacency batch,
      write.Valid maxDegree nodeCount := by
  intro write hwrite
  have hfits := fun node => robustPrune_fits env node (search adjacency node)
    (adjacency.neighbors node) nodeCount maxDegree
  rcases mem_append.mp hwrite with hmem | hmem
  · obtain ⟨node, hnode, rfl⟩ := mem_map.mp hmem
    exact ⟨hbatch node hnode, hfits node⟩
  · obtain ⟨group, hgroup, rfl⟩ := mem_map.mp hmem
    obtain ⟨hnodup, hsources⟩ := mem_groupReverseEdges hgroup
    -- A group is not empty, and its edges come from selected neighbours.
    have hedge : ∀ u ∈ group.2, u < nodeCount ∧ group.1 < nodeCount ∧ group.1 ≠ u := by
      intro u hu
      obtain ⟨hin, hselected⟩ := (mem_reverseEdges env search).mp ((hsources u).mp hu)
      exact ⟨hbatch u hin, (hfits u).mem _ hselected⟩
    obtain ⟨sorted, _, hmem, hgrouped⟩ :=
      groupReverseEdges_grouped (reverseEdges env search maxDegree adjacency batch)
    obtain ⟨edge, hin, hkey⟩ :=
      mem_map.mp ((hgrouped.key_mem _).mp (mem_map_of_mem hgroup))
    have hsource : edge.2 ∈ group.2 := by
      rw [hsources, ← hkey]
      exact (hmem edge).mp hin
    exact ⟨(hedge _ hsource).2.1, hnodup, fun u hu => ⟨(hedge u hu).1, (hedge u hu).2.2.symm⟩⟩

variable (hcapacity : min maxDegree (nodeCount - 1) ≤ capacity)

include hcapacity

theorem applyWrite_ok {write : Write} (hwrite : write.Valid maxDegree nodeCount)
    (h : AllFit maxDegree adjacency) :
    ∃ next, applyWrite env maxDegree adjacency write = .ok next ∧ AllFit maxDegree next ∧
      next.neighbors = Function.update adjacency.neighbors write.node
        (write.written env maxDegree adjacency) ∧
      ∀ v ≠ write.node, next.nodeBuffer v = adjacency.nodeBuffer v := by
  have hboth : write.node < nodeCount ∧
      Fits maxDegree nodeCount write.node (write.written env maxDegree adjacency) := by
    cases write with
    | replace node selected => exact hwrite
    | insertReverseEdges node incoming =>
      exact ⟨hwrite.1, withReverseEdges_fits env (h node hwrite.1) hwrite.2.1 hwrite.2.2⟩
  obtain ⟨hnode, hfits⟩ := hboth
  have hlength : (write.written env maxDegree adjacency).length ≤ capacity := by
    have hlt := hfits.length_lt hnode
    have hle := hfits.length_le
    omega
  obtain ⟨next, hnext⟩ : ∃ next, adjacency.replace write.node _ = .ok next :=
    replace_of_length hlength
  have hlists := neighbors_replace hnode hnext
  refine ⟨next, hnext, fun v hv => ?_, hlists,
    fun v => nodeBuffer_replace_of_ne hnext hnode⟩
  rw [hlists, Function.update_apply]
  split
  · rename_i heq
    rw [heq]
    exact hfits
  · exact h v hv

/-- After some writes all lists fit, and those of other nodes are as before. -/
theorem applyWrites_ok {writes : List Write}
    (hwrites : ∀ write ∈ writes, write.Valid maxDegree nodeCount) (h : AllFit maxDegree adjacency) :
    ∃ next, writes.foldlM (applyWrite env maxDegree) adjacency = .ok next ∧ AllFit maxDegree next ∧
      ∀ v, (∀ write ∈ writes, write.node ≠ v) → next.neighbors v = adjacency.neighbors v := by
  refine exists_foldlM_ok (fun write hwrite s hs => ?_) ⟨h, fun _ _ => rfl⟩
  obtain ⟨next, hnext, hfit, hlists, _⟩ := applyWrite_ok env hcapacity (hwrites write hwrite) hs.1
  refine ⟨next, hnext, hfit, fun v hv => ?_⟩
  rw [hlists, Function.update_of_ne (Ne.symm (hv write hwrite))]
  exact hs.2 v hv

theorem runBatch_ok (hbatch : ∀ node ∈ batch, node < nodeCount) (h : AllFit maxDegree adjacency) :
    ∃ next, runBatch env search maxDegree adjacency batch = .ok next ∧ AllFit maxDegree next := by
  obtain ⟨next, hnext, hfit, _⟩ :=
    applyWrites_ok env hcapacity (batchWrites_valid env search hbatch) h
  exact ⟨next, hnext, hfit⟩

/-- A forward edge leads to a reverse edge, or to a list that was pruned with its source. -/
theorem runBatch_covers (hbatch : ∀ node ∈ batch, node < nodeCount) (h : AllFit maxDegree adjacency)
    {final : CompactAdjacency nodeCount capacity}
    (hrun : runBatch env search maxDegree adjacency batch = .ok final) {u v : Nat} (hu : u ∈ batch)
    (hv : v ∈ selectedFor env search maxDegree adjacency u) :
    u ∈ final.neighbors v ∨ ∃ incoming neighbors, u ∈ incoming ∧ final.neighbors v =
      robustPruneCandidates env v incoming neighbors nodeCount maxDegree := by
  have hedge := (mem_reverseEdges env search).mpr ⟨hu, hv⟩
  obtain ⟨sorted, _, hmem, hgrouped⟩ :=
    groupReverseEdges_grouped (reverseEdges env search maxDegree adjacency batch)
  obtain ⟨group, hgroup, hkey⟩ := mem_map.mp ((hgrouped.key_mem v).mpr
    (mem_map.mpr ⟨(v, u), (hmem _).mpr hedge, rfl⟩))
  have hsource : u ∈ group.2 := by
    rw [(mem_groupReverseEdges hgroup).2, hkey]
    exact hedge
  obtain ⟨before, after, hsplit⟩ := append_of_mem hgroup
  have hwrites : batchWrites env search maxDegree adjacency batch =
      ((batch.map fun node => .replace node (selectedFor env search maxDegree adjacency node)) ++
        before.map fun group => .insertReverseEdges group.1 group.2) ++
      .insertReverseEdges group.1 group.2 ::
        after.map fun group => .insertReverseEdges group.1 group.2 := by
    rw [batchWrites, hsplit, map_append, map_cons, append_assoc]
  have hvalid : ∀ write ∈ batchWrites env search maxDegree adjacency batch, _ :=
    batchWrites_valid env search hbatch
  rw [hwrites] at hvalid
  obtain ⟨current, hcurrent, hfit, _⟩ := applyWrites_ok env hcapacity
    (fun write hwrite => hvalid write (mem_append_left _ hwrite)) h
  obtain ⟨next, hnext, hfit', hlists, _⟩ := applyWrite_ok env hcapacity
    (hvalid _ (mem_append_right _ mem_cons_self)) hfit
  obtain ⟨last, hlast, _, hkept⟩ := applyWrites_ok env hcapacity (fun write hwrite =>
    hvalid write (mem_append_right _ (mem_cons_of_mem _ hwrite))) hfit'
  have hother : ∀ write ∈ after.map fun group => Write.insertReverseEdges group.1 group.2,
      write.node ≠ v := by
    -- No later group has the same target.
    intro write hwrite heq
    obtain ⟨later, hlater, rfl⟩ := mem_map.mp hwrite
    have hnodup := hgrouped.nodup
    rw [hsplit, map_append, map_cons, nodup_append] at hnodup
    refine (nodup_cons.mp hnodup.2.1).1 (mem_map.mpr ⟨later, hlater, ?_⟩)
    rw [hkey]
    exact heq
  have hfinal : final = last := by
    rw [runBatch, hwrites, foldlM_append, hcurrent, ok_bind, foldlM_cons, hnext, ok_bind,
      hlast, Except.ok.injEq] at hrun
    exact hrun.symm
  have hlist : final.neighbors v =
      withReverseEdges env nodeCount maxDegree v group.2 (current.neighbors v) := by
    rw [hfinal, hkept v hother, hlists, ← hkey]
    exact Function.update_self ..
  rw [hlist]
  exact (withReverseEdges_covers env hsource _).imp_right fun heq => ⟨_, _, hsource, heq⟩

omit hcapacity in
/-- From lists that fit, no write of a pass fails, and after each of them all lists fit and
only the slots of the written node have changed. Every selected edge has its reverse edge
after the batch, or its target has been pruned with it. -/
theorem run_pass_keeps_lists {vectorsLen dimension : Nat} {order : List Nat}
    (hvalid : validateBuildInputs vectorsLen nodeCount dimension maxDegree = .ok ())
    (hcapacity : min maxDegree (nodeCount - 1) ≤ capacity)
    (horder : order.Perm (List.range nodeCount)) (h : AllFit maxDegree adjacency) :
    (∃ final, runPass env search maxDegree adjacency order = .ok final ∧ AllFit maxDegree final) ∧
    ∀ b, ∃ snapshot, beforeBatch env search maxDegree adjacency order b = .ok snapshot ∧
      ∀ batch, (Rows.chunks parallelBuildBatchNodes order)[b]? = some batch →
        (∀ k, ∃ current,
          ((batchWrites env search maxDegree snapshot batch).take k).foldlM
            (applyWrite env maxDegree) snapshot = .ok current ∧
          AllFit maxDegree current ∧
          (∀ v < nodeCount, (current.nodeBuffer v).degree < 2 ^ 16) ∧
          ∀ write, (batchWrites env search maxDegree snapshot batch)[k]? = some write →
            ∃ next, applyWrite env maxDegree current write = .ok next ∧
              ∀ v ≠ write.node, next.nodeBuffer v = current.nodeBuffer v) ∧
        ∃ final, runBatch env search maxDegree snapshot batch = .ok final ∧
          ∀ u ∈ batch, ∀ v ∈ selectedFor env search maxDegree snapshot u,
            u ∈ final.neighbors v ∨ ∃ incoming neighbors, u ∈ incoming ∧ final.neighbors v =
              robustPruneCandidates env v incoming neighbors nodeCount maxDegree := by
  simp only [validateBuildInputs, accepted] at hvalid
  obtain ⟨-, -, hdegree, -⟩ := hvalid
  have hbatches : ∀ batch ∈ Rows.chunks parallelBuildBatchNodes order, ∀ node ∈ batch,
      node < nodeCount := by
    intro batch hbatch node hnode
    have hmem : node ∈ (Rows.chunks parallelBuildBatchNodes order).flatten :=
      mem_flatten.mpr ⟨batch, hbatch, hnode⟩
    rw [Rows.chunks_flatten (by decide)] at hmem
    exact mem_range.mp (horder.mem_iff.mp hmem)
  refine ⟨exists_foldlM_ok (fun batch hbatch s hs =>
    runBatch_ok env search hcapacity (hbatches batch hbatch) hs) h, fun b => ?_⟩
  obtain ⟨snapshot, hsnapshot, hfit⟩ := exists_foldlM_ok (fun batch hbatch s hs =>
    runBatch_ok env search hcapacity (hbatches batch (mem_of_mem_take hbatch)) hs) h
  refine ⟨snapshot, hsnapshot, fun batch hget => ?_⟩
  have hbatch := hbatches batch (mem_of_getElem? hget)
  have hwrites : ∀ write ∈ batchWrites env search maxDegree snapshot batch, _ :=
    batchWrites_valid env search hbatch
  refine ⟨fun k => ?_, ?_⟩
  · obtain ⟨current, hcurrent, hfit', _⟩ := applyWrites_ok env hcapacity
      (fun write hwrite => hwrites write (mem_of_mem_take hwrite)) hfit
    refine ⟨current, hcurrent, hfit', fun v hv => ?_, fun write hwrite => ?_⟩
    · have hlength := (hfit' v hv).length_le
      have heq : (current.neighbors v).length = (current.nodeBuffer v).degree :=
        AdjacencyShard.neighbors_length (local_lt hv)
      omega
    · obtain ⟨next, hnext, _, _, hothers⟩ :=
        applyWrite_ok env hcapacity (hwrites write (mem_of_getElem? hwrite)) hfit'
      exact ⟨next, hnext, hothers⟩
  · obtain ⟨final, hfinal, _⟩ := runBatch_ok env search hcapacity hbatch hfit
    exact ⟨final, hfinal, fun u hu v hv =>
      runBatch_covers env search hcapacity hbatch hfit hfinal hu hv⟩

end Run

def onLine : PruneEnvironment Rat :=
  let distance := fun u v : Nat => ((u : Rat) - v) * (u - v)
  { metric := .l2
    dimension := 1
    alpha := 1
    distanceBetween := distance
    distanceBetweenFour := fun u a b c d => (distance u a, distance u b, distance u c, distance u d)
    distanceBetweenExceeds := fun u v scale threshold => decide (threshold < scale * distance u v) }

theorem run_pass_keeps_chained :
    ∃ final, runPass onLine (fun _ _ => [0, 1, 2]) 1 chained.adjacency [2, 0, 1] = .ok final ∧
      AllFit 1 final := by
  have hfit : AllFit 1 chained.adjacency := by
    intro v hv
    rw [show chained.adjacency.neighbors v = [[], [0], [1]].getD v [] from
      neighbors_fromNested (by decide) v]
    rcases v with _ | _ | _ | v
    · exact ⟨by simp, by simp, by simp⟩
    · exact ⟨by simp, by simp, by simp⟩
    · exact ⟨by simp, by simp, by simp⟩
    · omega
  have hvalid : validateBuildInputs 3 3 1 1 = .ok () := rfl
  exact (run_pass_keeps_lists onLine _ hvalid (by decide) (by decide) hfit).1

end PaimonVindex.Vamana
