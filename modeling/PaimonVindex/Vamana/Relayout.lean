import PaimonVindex.Lib.BreadthFirst
import PaimonVindex.Lib.CycleRotation
import PaimonVindex.Vamana.Connectivity

/-! The relayout of a graph before it is written: the nodes are numbered in
breadth-first order, and the slots are moved to their new places along the cycles of
the numbering through one buffer. -/

namespace PaimonVindex.Vamana

open Checked CycleRotation List Function

@[ext] structure NodeBuffer (maxDegree : Nat) where
  slots : List Nat
  degree : Nat
  slots_length : slots.length = maxDegree
  degree_le : degree ≤ maxDegree

namespace AdjacencyShard

variable {maxDegree startNode nodeCount : Nat}

def nodeSlots (shard : AdjacencyShard maxDegree startNode nodeCount) (node : Nat) : List Nat :=
  block shard.slots maxDegree (node - startNode) maxDegree

/-- `slots.copy_from_slice(node_slots)`, with the degree. -/
def nodeBuffer (shard : AdjacencyShard maxDegree startNode nodeCount) (node : Nat) :
    NodeBuffer maxDegree where
  slots := overwrite (List.replicate maxDegree 0) 0 (shard.nodeSlots node)
  degree := shard.degree node
  slots_length := by rw [overwrite_length, length_replicate]
  degree_le := shard.degree_le node

def swapNodeWithBuffer (shard : AdjacencyShard maxDegree startNode nodeCount) (node : Nat)
    (buffer : NodeBuffer maxDegree) :
    AdjacencyShard maxDegree startNode nodeCount × NodeBuffer maxDegree :=
  let localNode := node - startNode
  ({ slots := overwrite shard.slots (localNode * maxDegree) buffer.slots
     degrees := shard.degrees.set localNode buffer.degree
     slots_length := by rw [overwrite_length, shard.slots_length]
     degrees_length := by rw [length_set, shard.degrees_length]
     degrees_le := set_degrees_le buffer.degree_le },
   shard.nodeBuffer node)

theorem overwrite_replicate {l : List Nat} (h : l.length = maxDegree) :
    overwrite (List.replicate maxDegree 0) 0 l = l := by
  have hroom : (0 + 1) * maxDegree ≤ (List.replicate maxDegree 0).length := by simp
  have hblock := block_overwrite_self hroom h.le
  rw [Nat.zero_mul, block, Nat.zero_mul, drop_zero, take_of_length_le] at hblock
  · exact hblock
  · rw [overwrite_length, length_replicate, h]

variable {shard : AdjacencyShard maxDegree startNode nodeCount} {node : Nat}

theorem nodeBuffer_neighbors (hnode : node - startNode < nodeCount) :
    (shard.nodeBuffer node).slots.take (shard.nodeBuffer node).degree = shard.neighbors node := by
  have hlength : (shard.nodeSlots node).length = maxDegree := block_length (slots_room hnode) le_rfl
  show (overwrite _ 0 (shard.nodeSlots node)).take (shard.degree node) = _
  rw [overwrite_replicate hlength, nodeSlots, neighbors, block, block, take_take,
    min_eq_left (shard.degree_le node)]

theorem nodeBuffer_swap (hnode : node - startNode < nodeCount) (buffer : NodeBuffer maxDegree)
    (v : Nat) :
    (shard.swapNodeWithBuffer node buffer).1.nodeBuffer v =
      if v - startNode = node - startNode then buffer else shard.nodeBuffer v := by
  have hdegree : (shard.degrees.set (node - startNode) buffer.degree).getD (v - startNode) 0 =
      if v - startNode = node - startNode then buffer.degree else shard.degree v :=
    getD_set_degrees hnode buffer.degree v
  by_cases hv : v - startNode = node - startNode
  · rw [if_pos hv] at hdegree ⊢
    have hroom : (node - startNode + 1) * maxDegree ≤ shard.slots.length := slots_room hnode
    have hself := block_overwrite_self hroom buffer.slots_length.le
    rw [buffer.slots_length] at hself
    refine NodeBuffer.ext ?_ hdegree
    show overwrite _ 0 (block (overwrite _ _ _) maxDegree (v - startNode) maxDegree) = _
    rw [hv, hself, overwrite_replicate buffer.slots_length]
  · rw [if_neg hv] at hdegree ⊢
    refine NodeBuffer.ext ?_ hdegree
    show overwrite _ 0 (block (overwrite _ _ _) maxDegree (v - startNode) maxDegree) = _
    rw [block_overwrite_of_ne (Ne.symm hv) buffer.slots_length.le le_rfl]
    rfl

end AdjacencyShard

namespace CompactAdjacency

variable {nodeCount maxDegree : Nat}

def nodeBuffer (self : CompactAdjacency nodeCount maxDegree) (node : Nat) : NodeBuffer maxDegree :=
  (self.shards (shardIndex node)).nodeBuffer node

def swapNodeWithBuffer (self : CompactAdjacency nodeCount maxDegree) (node : Nat)
    (buffer : NodeBuffer maxDegree) :
    CompactAdjacency nodeCount maxDegree × NodeBuffer maxDegree :=
  let (shard, buffer) := (self.shards (shardIndex node)).swapNodeWithBuffer node buffer
  (⟨update self.shards (shardIndex node) shard⟩, buffer)

structure Relayout (nodeCount maxDegree : Nat) where
  adjacency : CompactAdjacency nodeCount maxDegree
  visited : Nat → Bool

/-- The loop over one cycle. It has at most as many rounds as there are nodes, so that the
fuel does not run out. -/
def followCycle (oldToNew : List Nat) (start : Nat) :
    (fuel current : Nat) → Relayout nodeCount maxDegree → NodeBuffer maxDegree →
      IoResult (Relayout nodeCount maxDegree)
  | 0, _, _, _ => .error (panicked "the cycle is not closed")
  | fuel + 1, current, s, buffer => do
    let visited := update s.visited current true
    let destination ← okOr oldToNew[current]? (panicked "index out of bounds")
    rejectIf (¬destination < nodeCount) (panicked "assertion failed: destination < self.node_count")
    let swapped := s.adjacency.swapNodeWithBuffer destination buffer
    if destination = start then return ⟨swapped.1, visited⟩
    else
      rejectIf (visited destination = true)
        (panicked "DiskANN locality mapping is not a permutation")
      followCycle oldToNew start fuel destination ⟨swapped.1, visited⟩ swapped.2

def permuteFrom (oldToNew : List Nat) (s : Relayout nodeCount maxDegree) (start : Nat) :
    IoResult (Relayout nodeCount maxDegree) :=
  if s.visited start then return s
  else followCycle oldToNew start nodeCount start s (s.adjacency.nodeBuffer start)

def mapNode (oldToNew : List Nat) (self : CompactAdjacency nodeCount maxDegree) (node : Nat) :
    IoResult (CompactAdjacency nodeCount maxDegree) := do
  let neighbors ← (self.neighbors node).mapM fun neighbor =>
    okOr oldToNew[neighbor]? (panicked "index out of bounds")
  self.replace node neighbors.mergeSort

def permuteAndMapNeighbors (self : CompactAdjacency nodeCount maxDegree) (oldToNew : List Nat) :
    IoResult (CompactAdjacency nodeCount maxDegree) := do
  rejectIf (oldToNew.length ≠ nodeCount) (panicked "assertion failed: left == right")
  let s ← (List.range nodeCount).foldlM (permuteFrom oldToNew) ⟨self, fun _ => false⟩
  (List.range nodeCount).foldlM (mapNode oldToNew) s.adjacency

structure Numbering (nodeCount : Nat) (oldToNew : List Nat) : Prop where
  length : oldToNew.length = nodeCount
  lt : ∀ v ∈ oldToNew, v < nodeCount
  nodup : oldToNew.Nodup

def renumber (oldToNew : List Nat) (node : Nat) : Nat := oldToNew.getD node 0

section Numbers

variable {oldToNew : List Nat}

variable (h : Numbering nodeCount oldToNew)

include h

theorem Numbering.get {node : Nat} (hnode : node < nodeCount) :
    oldToNew[node]? = some (renumber oldToNew node) := by
  have hlt : node < oldToNew.length := by rw [h.length]; exact hnode
  rw [renumber, getD_eq_getElem _ _ hlt, List.getElem?_eq_getElem hlt]

theorem Numbering.mapsTo :
    Set.MapsTo (renumber oldToNew) {u | u < nodeCount} {u | u < nodeCount} :=
  fun _ hu => h.lt _ (mem_of_getElem? (h.get hu))

theorem Numbering.injOn :
    Set.InjOn (renumber oldToNew) {u | u < nodeCount} := by
  intro u hu v hv heq
  have hu : u < nodeCount := hu
  have hsame : oldToNew[u]? = oldToNew[v]? := by rw [h.get hu, h.get hv, heq]
  exact (List.getElem?_inj (by rw [h.length]; exact hu) h.nodup).mp hsame

end Numbers

section Permute

variable {oldToNew : List Nat} {f : Nat → NodeBuffer maxDegree}
variable {self : CompactAdjacency nodeCount maxDegree}

theorem nodeBuffer_swap {node : Nat} (hnode : node < nodeCount) (buffer : NodeBuffer maxDegree) :
    (self.swapNodeWithBuffer node buffer).1.nodeBuffer =
      update self.nodeBuffer node buffer :=
  observe_update AdjacencyShard.nodeBuffer (fun _ => buffer)
    (AdjacencyShard.nodeBuffer_swap (local_lt hnode) buffer)

/-- The state after some cycles: what has been visited is in place. -/
def Placed (oldToNew : List Nat) (f : Nat → NodeBuffer maxDegree)
    (s : Relayout nodeCount maxDegree) : Prop :=
  Rotated {u | u < nodeCount} (renumber oldToNew) f s.adjacency.nodeBuffer s.visited

theorem followCycle_ok (h : Numbering nodeCount oldToNew) {start : Nat} {fuel current : Nat}
    {s : Relayout nodeCount maxDegree} {buffer : NodeBuffer maxDegree}
    (hrot : Rotating {u | u <
      nodeCount} (renumber oldToNew) f start current s.adjacency.nodeBuffer s.visited buffer)
    (hfuel : ((Finset.range nodeCount).filter fun v => s.visited v = false).card ≤ fuel) :
    ∃ s', followCycle oldToNew start fuel current s buffer = .ok s' ∧ Placed oldToNew f s' ∧
      s'.visited current = true ∧ ∀ v, s.visited v = true → s'.visited v = true := by
  induction fuel generalizing current s buffer with
  | zero =>
    have hmem : current ∈ (Finset.range nodeCount).filter fun v => s.visited v = false :=
      Finset.mem_filter.mpr ⟨Finset.mem_range.mpr hrot.current_mem, hrot.fresh⟩
    rw [Finset.card_eq_zero.mp (Nat.le_zero.mp hfuel)] at hmem
    exact absurd hmem (Finset.notMem_empty _)
  | succ fuel ih =>
    have hcurrent : current < nodeCount := hrot.current_mem
    have hdestination : renumber oldToNew current < nodeCount := h.mapsTo hcurrent
    have hbuffer : (s.adjacency.swapNodeWithBuffer _ buffer).1.nodeBuffer = _ :=
      nodeBuffer_swap hdestination buffer
    have hmono : ∀ v, s.visited v = true → update s.visited current true v = true := by
      intro v hv
      rw [update_apply]
      split
      · rfl
      · exact hv
    rw [followCycle, h.get hcurrent, okOr_some, ok_bind, rejectIf_bind (not_not.mpr hdestination)]
    dsimp only
    by_cases hlast : renumber oldToNew current = start
    · rw [if_pos hlast]
      refine ⟨_, rfl, ?_, update_self .., hmono⟩
      rw [Placed, hbuffer]
      exact hrot.leave h.injOn hlast
    · have hnext := hrot.step h.injOn h.mapsTo hlast
      rw [← hbuffer] at hnext
      rw [if_neg hlast, rejectIf_bind (by rw [hrot.next_fresh hlast]; exact Bool.false_ne_true)]
      -- The current node is no longer among the unvisited ones.
      have hless : ((Finset.range nodeCount).filter fun v =>
          update s.visited current true v = false).card ≤ fuel := by
        refine Nat.le_of_lt_succ (lt_of_lt_of_le (Finset.card_lt_card ?_) hfuel)
        refine Finset.ssubset_iff_subset_ne.mpr ⟨?_, ?_⟩
        · intro v hv
          obtain ⟨hin, hfalse⟩ := Finset.mem_filter.mp hv
          refine Finset.mem_filter.mpr ⟨hin, Bool.eq_false_iff.mpr fun htrue => ?_⟩
          rw [hmono v htrue] at hfalse
          cases hfalse
        · intro heq
          have hmem : current ∈ (Finset.range nodeCount).filter fun v => s.visited v = false :=
            Finset.mem_filter.mpr ⟨Finset.mem_range.mpr hcurrent, hrot.fresh⟩
          rw [← heq, Finset.mem_filter, update_self] at hmem
          cases hmem.2
      obtain ⟨s', hok, hplaced, _, hkept⟩ := ih
        (s := ⟨(s.adjacency.swapNodeWithBuffer _ buffer).1, update s.visited current true⟩)
        hnext hless
      exact ⟨s', hok, hplaced, hkept _ (update_self ..), fun v hv => hkept v (hmono v hv)⟩

theorem permuteNodes_ok (h : Numbering nodeCount oldToNew) {starts : List Nat}
    (hstarts : ∀ start ∈ starts, start < nodeCount) {s : Relayout nodeCount maxDegree}
    (hs : Placed oldToNew f s) :
    ∃ s', starts.foldlM (permuteFrom oldToNew) s = .ok s' ∧ Placed oldToNew f s' ∧
      (∀ v, s.visited v = true → s'.visited v = true) ∧
      ∀ start ∈ starts, s'.visited start = true := by
  induction starts generalizing s with
  | nil => exact ⟨s, rfl, hs, fun _ hv => hv, fun _ hmem => absurd hmem not_mem_nil⟩
  | cons start starts ih =>
    have hstart := hstarts start mem_cons_self
    have hone : ∃ s₁, permuteFrom oldToNew s start = .ok s₁ ∧ Placed oldToNew f s₁ ∧
        s₁.visited start = true ∧ ∀ v, s.visited v = true → s₁.visited v = true := by
      rw [permuteFrom]
      cases hvisited : s.visited start with
      | true => exact ⟨s, rfl, hs, hvisited, fun _ hv => hv⟩
      | false =>
        refine followCycle_ok h (hs.enter hstart hvisited) ?_
        exact le_trans (Finset.card_filter_le _ _) (Finset.card_range nodeCount).le
    obtain ⟨s₁, hok, hplaced, hdone, hkept⟩ := hone
    obtain ⟨s', hrest, hplaced', hkept', hdone'⟩ :=
      ih (fun v hv => hstarts v (mem_cons_of_mem _ hv)) hplaced
    refine ⟨s', ?_, hplaced', fun v hv => hkept' v (hkept v hv), fun v hv => ?_⟩
    · rw [foldlM_cons, hok, ok_bind, hrest]
    · rcases mem_cons.mp hv with rfl | hv
      · exact hkept' v hdone
      · exact hdone' v hv

theorem mapNodes_ok (h : Numbering nodeCount oldToNew) {nodes : List Nat} (hnodup : nodes.Nodup)
    (hnodes : ∀ node ∈ nodes, node < nodeCount)
    (hin : ∀ node ∈ nodes, ∀ v ∈ self.neighbors node, v < nodeCount) :
    ∃ self', nodes.foldlM (mapNode oldToNew) self = .ok self' ∧ ∀ v, self'.neighbors v =
      if v ∈ nodes then ((self.neighbors v).map (renumber oldToNew)).mergeSort
      else self.neighbors v := by
  induction nodes generalizing self with
  | nil => exact ⟨self, rfl, fun v => by rw [if_neg not_mem_nil]⟩
  | cons node nodes ih =>
    obtain ⟨hfresh, hnodup⟩ := nodup_cons.mp hnodup
    have hnode := hnodes node mem_cons_self
    have hmap : (self.neighbors node).mapM (fun neighbor =>
        okOr oldToNew[neighbor]? (panicked "index out of bounds")) =
          .ok ((self.neighbors node).map (renumber oldToNew)) := by
      refine mapM_eq_ok_map fun v hv => ?_
      rw [h.get (hin node mem_cons_self v hv), okOr_some]
    have hlength : ((self.neighbors node).map (renumber oldToNew)).mergeSort.length ≤
        maxDegree := by
      rw [length_mergeSort, length_map]
      exact neighbors_length_le hnode
    obtain ⟨self₁, hreplace⟩ : ∃ self₁, self.replace node _ = .ok self₁ := replace_of_length hlength
    have hlists := neighbors_replace hnode hreplace
    have hother : ∀ v ∈ nodes, self₁.neighbors v = self.neighbors v := by
      intro v hv
      rw [hlists, update_of_ne]
      rintro rfl
      exact hfresh hv
    have hin₁ : ∀ v ∈ nodes, ∀ w ∈ self₁.neighbors v, w < nodeCount := by
      intro v hv w hw
      rw [hother v hv] at hw
      exact hin v (mem_cons_of_mem _ hv) w hw
    obtain ⟨self', hrest, hfinal⟩ :=
      ih hnodup (fun v hv => hnodes v (mem_cons_of_mem _ hv)) hin₁
    refine ⟨self', ?_, fun v => ?_⟩
    · rw [foldlM_cons, mapNode, hmap, ok_bind, hreplace, ok_bind, hrest]
    · rw [hfinal]
      by_cases hv : v ∈ nodes
      · rw [if_pos hv, if_pos (mem_cons_of_mem _ hv), hother v hv]
      · rw [if_neg hv, hlists, update_apply]
        by_cases heq : v = node
        · rw [if_pos heq, if_pos (mem_cons.mpr (.inl heq)), heq]
        · rw [if_neg heq, if_neg fun hmem => (mem_cons.mp hmem).elim heq hv]

theorem nodeBuffer_neighbors {node : Nat} (hnode : node < nodeCount) :
    (self.nodeBuffer node).slots.take (self.nodeBuffer node).degree = self.neighbors node :=
  AdjacencyShard.nodeBuffer_neighbors (local_lt hnode)

/-- Under a numbering no assertion fails, and every list moves to the new number of its node
with its entries renumbered and sorted. -/
theorem permuteAndMapNeighbors_ok (h : Numbering nodeCount oldToNew)
    (hin : ∀ u < nodeCount, ∀ v ∈ self.neighbors u, v < nodeCount) :
    ∃ self', self.permuteAndMapNeighbors oldToNew = .ok self' ∧ ∀ u < nodeCount,
      self'.neighbors (renumber oldToNew u) =
        ((self.neighbors u).map (renumber oldToNew)).mergeSort := by
  have hstart : Placed oldToNew self.nodeBuffer ⟨self, fun _ => false⟩ :=
    rotated_start self.nodeBuffer
  obtain ⟨s, hpermute, hplaced, _, hall⟩ := permuteNodes_ok h
    (show ∀ start ∈ List.range nodeCount, start < nodeCount from fun v => mem_range.mp) hstart
  have hmoved : ∀ u < nodeCount,
      s.adjacency.neighbors (renumber oldToNew u) = self.neighbors u := by
    intro u hu
    rw [← nodeBuffer_neighbors (h.mapsTo hu),
      hplaced.placed u hu (hall u (mem_range.mpr hu)), nodeBuffer_neighbors hu]
  have hin' : ∀ node ∈ List.range nodeCount, ∀ v ∈ s.adjacency.neighbors node, v < nodeCount := by
    -- Every node is the new number of some node, as the numbering is onto.
    intro node hnode v hv
    have hsurj : ∃ u < nodeCount, renumber oldToNew u = node := by
      have hmem : node ∈ oldToNew := by
        have hsub : oldToNew ⊆ List.range nodeCount := fun w hw => mem_range.mpr (h.lt w hw)
        refine ((subperm_of_subset h.nodup hsub).perm_of_length_le ?_).mem_iff.mpr hnode
        rw [length_range, h.length]
      obtain ⟨u, hu, hget⟩ := getElem_of_mem hmem
      refine ⟨u, by rw [← h.length]; exact hu, ?_⟩
      rw [renumber, getD_eq_getElem _ _ hu, hget]
    obtain ⟨u, hu, rfl⟩ := hsurj
    rw [hmoved u hu] at hv
    exact hin u hu v hv
  obtain ⟨self', hmap, hlists⟩ := mapNodes_ok h nodup_range
    (fun v hv => mem_range.mp hv) hin'
  refine ⟨self', ?_, fun u hu => ?_⟩
  · rw [permuteAndMapNeighbors, rejectIf_bind (not_not.mpr h.length), hpermute, ok_bind,
      hmap]
  · rw [hlists, if_pos (mem_range.mpr (h.mapsTo hu)), hmoved u hu]

end Permute

end CompactAdjacency

section Locality

open SearchTree BreadthFirst CompactAdjacency

variable {nodeCount capacity : Nat}

structure LocalityPermutation where
  newToOld : List Nat
  oldToNew : List Nat

def localitySearch (graph : VamanaGraph nodeCount capacity) : Traversal Nat :=
  if graph.entryNode < nodeCount then
    drain (fun node => (graph.adjacency.neighbors node).filter fun neighbor =>
      decide (neighbor < nodeCount)) nodeCount (start graph.entryNode)
  else { start graph.entryNode with visited := fun _ => false, queue := [] }

def bfsLocalityPermutation (graph : VamanaGraph nodeCount capacity) : LocalityPermutation :=
  let s := localitySearch graph
  let newToOld := s.order ++ (List.range nodeCount).filter fun node => !s.visited node
  let oldToNew := newToOld.zipIdx.foldl (fun table entry => table.set entry.1 entry.2)
    (List.replicate nodeCount 0)
  { newToOld, oldToNew }

def remapGraphInPlace (graph : VamanaGraph nodeCount capacity) (permutation : LocalityPermutation) :
    IoResult (VamanaGraph nodeCount capacity) := do
  let adjacency ← graph.adjacency.permuteAndMapNeighbors permutation.oldToNew
  let entryNode ← okOr permutation.oldToNew[graph.entryNode]? (panicked "index out of bounds")
  return { entryNode, adjacency }

theorem getElem?_placeTable {l : List Nat} (hnodup : l.Nodup) (k : Nat) (table : List Nat)
    (v : Nat) :
    ((l.zipIdx k).foldl (fun table entry => table.set entry.1 entry.2) table)[v]? =
      if v ∈ l then table[v]?.map fun _ => k + l.idxOf v else table[v]? := by
  induction l generalizing k table with
  | nil => simp
  | cons w l ih =>
    obtain ⟨hfresh, hnodup⟩ := nodup_cons.mp hnodup
    rw [zipIdx_cons, foldl_cons, ih hnodup]
    by_cases hw : v = w
    · subst hw
      rw [if_neg hfresh, if_pos mem_cons_self, idxOf_cons_self]
      by_cases hlt : v < table.length
      · simp [hlt]
      · simp [hlt]
    · rw [List.getElem?_set_ne (Ne.symm hw), idxOf_cons_ne _ (Ne.symm hw)]
      simp only [mem_cons, hw, false_or]
      split
      · congr 1
        funext _
        omega
      · rfl

section Search

variable {graph : VamanaGraph nodeCount capacity}

theorem localitySearch_spec (hentry : graph.entryNode < nodeCount)
    (hin : ∀ u < nodeCount, ∀ v ∈ graph.adjacency.neighbors u, v < nodeCount) :
    Sound graph.adjacency.neighbors graph.entryNode (localitySearch graph) ∧
      (localitySearch graph).queue = [] := by
  have hadj : (fun node => (graph.adjacency.neighbors node).filter fun neighbor =>
      decide (neighbor < nodeCount)) = graph.adjacency.neighbors := by
    funext node
    refine filter_eq_self.mpr fun v hv => decide_eq_true ?_
    by_cases hnode : node < nodeCount
    · exact hin node hnode v hv
    · rw [neighbors_of_ge (Nat.le_of_not_lt hnode)] at hv
      exact absurd hv not_mem_nil
  rw [localitySearch, if_pos hentry, hadj]
  refine ⟨(start_sound _ _).drain nodeCount, drain_queue_of_visited (fun u v hv => ?_) hentry
    (start_visited.mpr rfl) rfl⟩
  rw [← hadj] at hv
  exact of_decide_eq_true (mem_filter.mp hv).2

variable (hentry : graph.entryNode < nodeCount)
  (hin : ∀ u < nodeCount, ∀ v ∈ graph.adjacency.neighbors u, v < nodeCount)

include hentry hin

theorem mem_order_iff {v : Nat} : v ∈ (localitySearch graph).order ↔ Reachable graph v := by
  obtain ⟨hsound, hqueue⟩ := localitySearch_spec hentry hin
  rw [hsound.mem_order_iff hqueue, exists_within_iff]
  rfl

theorem visited_iff {v : Nat} : (localitySearch graph).visited v = true ↔ Reachable graph v := by
  obtain ⟨hsound, hqueue⟩ := localitySearch_spec hentry hin
  rw [hsound.visited, Traversal.found, hqueue, append_nil, mem_order_iff hentry hin]

theorem reachable_in_range {v : Nat} (h : Reachable graph v) : v < nodeCount := by
  induction h with
  | refl => exact hentry
  | tail _ hedge ih => exact hin _ ih _ hedge

theorem newToOld_perm : (bfsLocalityPermutation graph).newToOld.Perm (List.range nodeCount) := by
  obtain ⟨hsound, hqueue⟩ := localitySearch_spec hentry hin
  have horder : (localitySearch graph).order.Nodup := by
    have hnodup := hsound.nodup
    rwa [Traversal.found, hqueue, append_nil] at hnodup
  have hunreached : ∀ v ∈ (List.range nodeCount).filter fun v => !(localitySearch graph).visited v,
      ¬Reachable graph v := by
    intro v hv hreach
    have hfalse := (mem_filter.mp hv).2
    rw [(visited_iff hentry hin).mpr hreach] at hfalse
    cases hfalse
  have hnodup : (bfsLocalityPermutation graph).newToOld.Nodup := by
    refine nodup_append.mpr ⟨horder, nodup_range.filter _, fun u hu v hv heq => ?_⟩
    rw [heq, mem_order_iff hentry hin] at hu
    exact hunreached v hv hu
  refine (perm_ext_iff_of_nodup hnodup nodup_range).mpr fun v => ?_
  rw [show (bfsLocalityPermutation graph).newToOld = _ ++ _ from rfl, mem_append,
    mem_filter, mem_range, mem_order_iff hentry hin]
  constructor
  · intro hv
    rcases hv with hreach | hv
    · exact reachable_in_range hentry hin hreach
    · exact hv.1
  · intro hv
    by_cases hreach : Reachable graph v
    · exact .inl hreach
    · refine .inr ⟨hv, ?_⟩
      rw [Bool.not_eq_true', Bool.eq_false_iff, ne_eq, visited_iff hentry hin]
      exact hreach

theorem oldToNew_eq : (bfsLocalityPermutation graph).oldToNew =
    (List.range nodeCount).map (bfsLocalityPermutation graph).newToOld.idxOf := by
  have hperm := newToOld_perm hentry hin
  apply ext_getElem?
  intro v
  have hplace := getElem?_placeTable (hperm.nodup_iff.mpr nodup_range) 0
    (List.replicate nodeCount 0) v
  simp only [hperm.mem_iff, mem_range] at hplace
  refine hplace.trans ?_
  by_cases hv : v < nodeCount
  · simp [hv]
  · simp [hv]

theorem oldToNew_numbering : Numbering nodeCount (bfsLocalityPermutation graph).oldToNew := by
  have hperm := newToOld_perm hentry hin
  have hlength : (bfsLocalityPermutation graph).newToOld.length = nodeCount := by
    rw [hperm.length_eq, length_range]
  rw [oldToNew_eq hentry hin]
  refine ⟨by rw [length_map, length_range], fun v hv => ?_, ?_⟩
  · obtain ⟨u, hu, rfl⟩ := mem_map.mp hv
    exact (idxOf_lt_length_iff.mpr (hperm.mem_iff.mpr hu)).trans_eq hlength
  · refine nodup_range.map_on fun u hu v hv heq => ?_
    exact (idxOf_inj (hperm.mem_iff.mpr hu)).mp heq

theorem newToOld_sorted : (bfsLocalityPermutation graph).newToOld.Pairwise
    (NoDeeper graph.adjacency.neighbors graph.entryNode) := by
  obtain ⟨hsound, hqueue⟩ := localitySearch_spec hentry hin
  -- No ball holds a node that the search has not reached.
  have hrest : ∀ u, ∀ v ∈ (List.range nodeCount).filter fun v => !(localitySearch graph).visited v,
      NoDeeper graph.adjacency.neighbors graph.entryNode u v := by
    intro u v hv n hn
    have hfalse := (mem_filter.mp hv).2
    rw [(visited_iff hentry hin).mpr (exists_within_iff.mp ⟨n, hn⟩)] at hfalse
    cases hfalse
  refine pairwise_append.mpr ⟨?_, ?_, fun u _ v hv => hrest u v hv⟩
  · have hsorted := hsound.sorted
    rwa [Traversal.found, hqueue, append_nil] at hsorted
  · exact pairwise_iff_forall_sublist.mpr fun {u v} hsub => hrest u v (hsub.subset (by simp))

theorem newToOld_head : (bfsLocalityPermutation graph).newToOld.head? = some graph.entryNode := by
  obtain ⟨hsound, hqueue⟩ := localitySearch_spec hentry hin
  have hhead := hsound.head
  rw [Traversal.found, hqueue, append_nil] at hhead
  rw [show (bfsLocalityPermutation graph).newToOld = _ ++ _ from rfl, List.head?_append, hhead]
  rfl

omit hentry hin in
/-- The numbering and its inverse are permutations of the nodes that put the entry node
first and every node behind the shallower ones. The relayout under it fails no assertion
and gives the graph with renumbered and sorted lists. -/
theorem locality_relayout_is_isomorphism (graph : VamanaGraph nodeCount capacity)
    (hentry : graph.entryNode < nodeCount)
    (hin : ∀ u < nodeCount, ∀ v ∈ graph.adjacency.neighbors u, v < nodeCount) :
    let permutation := bfsLocalityPermutation graph
    (permutation.newToOld.length = nodeCount ∧ permutation.oldToNew.length = nodeCount ∧
      (∀ old < nodeCount, ∃ new < nodeCount,
        permutation.oldToNew[old]? = some new ∧ permutation.newToOld[new]? = some old) ∧
      ∀ new < nodeCount, ∃ old < nodeCount,
        permutation.newToOld[new]? = some old ∧ permutation.oldToNew[old]? = some new) ∧
    permutation.oldToNew[graph.entryNode]? = some 0 ∧
    (permutation.newToOld.Pairwise fun u v =>
      (Reachable graph v → Reachable graph u) ∧
      depth graph.adjacency.neighbors graph.entryNode u ≤
        depth graph.adjacency.neighbors graph.entryNode v) ∧
    ∃ remapped, remapGraphInPlace graph permutation = .ok remapped ∧ remapped.entryNode = 0 ∧
      ∀ u < nodeCount, remapped.adjacency.neighbors (renumber permutation.oldToNew u) =
        ((graph.adjacency.neighbors u).map (renumber permutation.oldToNew)).mergeSort := by
  intro permutation
  have hperm := newToOld_perm hentry hin
  have hnumbering := oldToNew_numbering hentry hin
  have hlength : permutation.newToOld.length = nodeCount := by
    rw [hperm.length_eq, length_range]
  have hget : ∀ old < nodeCount,
      permutation.oldToNew[old]? = some (permutation.newToOld.idxOf old) := by
    intro old hold
    show (bfsLocalityPermutation graph).oldToNew[old]? = _
    rw [oldToNew_eq hentry hin, List.getElem?_map, List.getElem?_range hold]
    rfl
  have hentry_first : permutation.oldToNew[graph.entryNode]? = some 0 := by
    rw [hget _ hentry]
    obtain ⟨l, hl⟩ := List.head?_eq_some_iff.mp (newToOld_head hentry hin)
    show some ((bfsLocalityPermutation graph).newToOld.idxOf _) = _
    rw [hl, idxOf_cons_self]
  refine ⟨⟨hlength, hnumbering.length, fun old hold => ?_, fun new hnew => ?_⟩,
    hentry_first, ?_, ?_⟩
  · have hmem : old ∈ permutation.newToOld := hperm.mem_iff.mpr (mem_range.mpr hold)
    have hlt := idxOf_lt_length_iff.mpr hmem
    refine ⟨permutation.newToOld.idxOf old, hlt.trans_eq hlength, hget old hold, ?_⟩
    rw [List.getElem?_eq_getElem hlt, getElem_idxOf]
  · have hlt : new < permutation.newToOld.length := by rw [hlength]; exact hnew
    have hold : permutation.newToOld[new] < nodeCount :=
      mem_range.mp (hperm.mem_iff.mp (getElem_mem hlt))
    refine ⟨permutation.newToOld[new], hold, List.getElem?_eq_getElem hlt, ?_⟩
    rw [hget _ hold, (hperm.nodup_iff.mpr nodup_range).idxOf_getElem]
  · refine (newToOld_sorted hentry hin).imp fun {u v} hdeeper => ⟨fun hv => ?_, hdeeper.depth_le⟩
    obtain ⟨n, hn⟩ := exists_within_iff.mpr hv
    exact exists_within_iff.mp ⟨n, hdeeper n hn⟩
  · obtain ⟨adjacency, hadjacency, hlists⟩ := permuteAndMapNeighbors_ok hnumbering hin
    refine ⟨⟨0, adjacency⟩, ?_, rfl, hlists⟩
    rw [remapGraphInPlace, hadjacency, ok_bind, hentry_first, okOr_some, ok_bind]
    rfl

end Search

/-- Three nodes in a row, with the entry at the end of the table. -/
def chained : VamanaGraph 3 1 :=
  ⟨2, CompactAdjacency.fromNested [[], [0], [1]] 1 (by decide)⟩

theorem locality_relayout_chained :
    (bfsLocalityPermutation chained).oldToNew[2]? = some 0 ∧
      ∃ remapped, remapGraphInPlace chained (bfsLocalityPermutation chained) = .ok remapped ∧
        remapped.entryNode = 0 := by
  have hin : ∀ u < 3, ∀ v ∈ chained.adjacency.neighbors u, v < 3 := by
    intro u _ v hv
    rw [show chained.adjacency.neighbors u = [[], [0], [1]].getD u [] from
      neighbors_fromNested (by decide) u] at hv
    rcases u with _ | _ | _ | u <;> simp at hv <;> omega
  obtain ⟨_, hfirst, _, remapped, hok, hzero, _⟩ :=
    locality_relayout_is_isomorphism chained (by decide) hin
  exact ⟨hfirst, remapped, hok, hzero⟩

end Locality

end PaimonVindex.Vamana
