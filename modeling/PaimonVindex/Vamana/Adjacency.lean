import Mathlib.Data.List.GetD
import PaimonVindex.Io

/-! The compact adjacency of a Vamana graph: shards of 256 nodes, each with a
fixed number of slots for every node and the number of slots in use. -/

namespace PaimonVindex.Vamana

open Checked Words List Function

/-- The slots in use of row `i` of a table with `width` slots in a row. -/
def block (slots : List Nat) (width i degree : Nat) : List Nat :=
  (slots.drop (i * width)).take degree

variable {l : List Nat}

section Block

variable {slots : List Nat} {width i degree : Nat}

theorem getElem?_block (j : Nat) :
    (block slots width i degree)[j]? = if j < degree then slots[i * width + j]? else none := by
  rw [block, List.getElem?_take, List.getElem?_drop]

theorem block_length (hslots : (i + 1) * width ≤ slots.length) (hdegree : degree ≤ width) :
    (block slots width i degree).length = degree := by
  rw [Nat.add_mul, Nat.one_mul] at hslots
  rw [block, length_take, length_drop]
  omega

theorem row_end_le (width : Nat) {i' : Nat} (hrow : i' < i) : i' * width + width ≤ i * width := by
  rw [← Nat.succ_mul]
  exact Nat.mul_le_mul_right width hrow

theorem block_set_of_ne {i' j : Nat} (x : Nat) (hrow : i' ≠ i) (hj : j < width)
    (hdegree : degree ≤ width) :
    block (slots.set (i' * width + j) x) width i degree = block slots width i degree := by
  rw [block, drop_set]
  rcases Nat.lt_or_gt_of_ne hrow with hlt | hgt
  · have hend := row_end_le width hlt
    rw [if_pos (by omega)]
    rfl
  · have hend := row_end_le width hgt
    rw [if_neg (by omega), take_set_of_le (by omega)]
    rfl

theorem block_set_self (j x : Nat) :
    block (slots.set (i * width + j) x) width i degree = (block slots width i degree).set j x := by
  rw [block, drop_set, if_neg (by omega), Nat.add_sub_cancel_left, take_set, block]

theorem block_set_end {x : Nat} (hslots : (i + 1) * width ≤ slots.length)
    (hdegree : degree < width) :
    block (slots.set (i * width + degree) x) width i (degree + 1) =
      block slots width i degree ++ [x] := by
  have hlen := block_length hslots hdegree.le
  rw [Nat.add_mul, Nat.one_mul] at hslots
  rw [block_set_self, block, take_succ_eq_append_getElem (by rw [length_drop]; omega), ← block,
    set_append_right _ _ hlen.le, hlen, Nat.sub_self]
  rfl

theorem block_dropLast : (block slots width i degree).dropLast =
    block slots width i (min degree (slots.length - i * width) - 1) := by
  rw [block, block, dropLast_eq_take, take_take, length_take, length_drop]
  congr 1
  omega

/-- `slots[start..start + l.len()].copy_from_slice(l)`. -/
def overwrite (slots : List Nat) (start : Nat) (l : List Nat) : List Nat :=
  slots.mapIdx fun j x => if start ≤ j then l.getD (j - start) x else x

theorem overwrite_length (start : Nat) (l : List Nat) :
    (overwrite slots start l).length = slots.length :=
  length_mapIdx

theorem getElem?_overwrite (start : Nat) (l : List Nat) (j : Nat) :
    (overwrite slots start l)[j]? =
      slots[j]?.map fun x => if start ≤ j then l.getD (j - start) x else x :=
  List.getElem?_mapIdx

theorem block_overwrite_self (hslots : (i + 1) * width ≤ slots.length) (hl : l.length ≤ width) :
    block (overwrite slots (i * width) l) width i l.length = l := by
  rw [Nat.add_mul, Nat.one_mul] at hslots
  apply ext_getElem?
  intro k
  rw [getElem?_block, getElem?_overwrite]
  by_cases hk : k < l.length
  · rw [if_pos hk, List.getElem?_eq_getElem (show i * width + k < slots.length by omega),
      Option.map_some, if_pos (by omega), Nat.add_sub_cancel_left, getD_eq_getElem _ _ hk,
      List.getElem?_eq_getElem hk]
  · rw [if_neg hk, List.getElem?_eq_none (by omega)]

theorem block_overwrite_of_ne {i' : Nat} (hrow : i' ≠ i) (hl : l.length ≤ width)
    (hdegree : degree ≤ width) :
    block (overwrite slots (i' * width) l) width i degree = block slots width i degree := by
  apply ext_getElem?
  intro k
  rw [getElem?_block, getElem?_block, getElem?_overwrite]
  by_cases hk : k < degree
  · rw [if_pos hk, if_pos hk]
    have hout : i' * width ≤ i * width + k → l.length ≤ i * width + k - i' * width := by
      intro hle
      rcases Nat.lt_or_gt_of_ne hrow with hlt | hgt
      · have hend := row_end_le width hlt
        omega
      · have hend := row_end_le width hgt
        omega
    have hsame : ∀ x, (if i' * width ≤ i * width + k then
        l.getD (i * width + k - i' * width) x else x) = x := by
      intro x
      split
      · rename_i hle
        exact getD_eq_default _ _ (hout hle)
      · rfl
    simp only [hsame, Option.map_id_fun', id_eq]
  · rw [if_neg hk, if_neg hk]

end Block

def parallelAdjacencyNodesPerShard : Nat := 256

structure AdjacencyShard (maxDegree startNode nodeCount : Nat) where
  slots : List Nat
  degrees : List Nat
  slots_length : slots.length = nodeCount * maxDegree
  degrees_length : degrees.length = nodeCount
  degrees_le : ∀ degree ∈ degrees, degree ≤ maxDegree

variable {slot : Nat}

namespace AdjacencyShard

variable {maxDegree startNode nodeCount : Nat}

section

variable (shard : AdjacencyShard maxDegree startNode nodeCount)

def degree (node : Nat) : Nat :=
  shard.degrees.getD (node - startNode) 0

def neighbors (node : Nat) : List Nat :=
  block shard.slots maxDegree (node - startNode) (shard.degree node)

theorem degree_le (node : Nat) : shard.degree node ≤ maxDegree := by
  rw [degree, getD_eq_getElem?_getD]
  cases hget : shard.degrees[node - startNode]? with
  | none => exact Nat.zero_le _
  | some d => exact shard.degrees_le d (mem_of_getElem? hget)

theorem set_degrees_le {shard : AdjacencyShard maxDegree startNode nodeCount} {i degree : Nat}
    (h : degree ≤ maxDegree) : ∀ d ∈ shard.degrees.set i degree, d ≤ maxDegree := by
  intro d hd
  rcases mem_or_eq_of_mem_set hd with hold | rfl
  · exact shard.degrees_le d hold
  · exact h

def push (node neighbor : Nat) : IoResult (AdjacencyShard maxDegree startNode nodeCount) :=
  let localNode := node - startNode
  if h : shard.degree node < maxDegree then
    .ok
      { slots := shard.slots.set (localNode * maxDegree + shard.degree node) neighbor
        degrees := shard.degrees.set localNode (shard.degree node + 1)
        slots_length := by rw [length_set, shard.slots_length]
        degrees_length := by rw [length_set, shard.degrees_length]
        degrees_le := set_degrees_le h }
  else .error (panicked "compact adjacency node is full")

def swapRemove (node slot : Nat) : IoResult (AdjacencyShard maxDegree startNode nodeCount) :=
  let localNode := node - startNode
  let start := localNode * maxDegree
  if slot < shard.degree node then
    .ok
      { slots := shard.slots.set (start + slot)
          (shard.slots.getD (start + shard.degree node - 1) 0)
        degrees := shard.degrees.set localNode (shard.degree node - 1)
        slots_length := by rw [length_set, shard.slots_length]
        degrees_length := by rw [length_set, shard.degrees_length]
        degrees_le := set_degrees_le (by
          have hle := shard.degree_le node
          omega) }
  else .error (panicked "compact adjacency removal slot is invalid")

/-- The source asserts the length in debug builds only. -/
def replace (node : Nat) (neighbors : List Nat) :
    IoResult (AdjacencyShard maxDegree startNode nodeCount) :=
  let localNode := node - startNode
  if h : neighbors.length ≤ maxDegree then
    .ok
      { slots := overwrite shard.slots (localNode * maxDegree) neighbors
        degrees := shard.degrees.set localNode neighbors.length
        slots_length := by rw [overwrite_length, shard.slots_length]
        degrees_length := by rw [length_set, shard.degrees_length]
        degrees_le := set_degrees_le h }
  else .error (panicked "assertion failed: neighbors.len() <= max_degree")

end

section Ranges

variable {shard shard' : AdjacencyShard maxDegree startNode nodeCount} {node : Nat}

theorem slots_room (hnode : node - startNode < nodeCount) :
    (node - startNode + 1) * maxDegree ≤ shard.slots.length := by
  rw [shard.slots_length]
  exact Nat.mul_le_mul_right _ hnode

theorem neighbors_length (hnode : node - startNode < nodeCount) :
    (shard.neighbors node).length = shard.degree node :=
  block_length (slots_room hnode) (shard.degree_le node)

theorem push_of_lt (h : shard.degree node < maxDegree) (neighbor : Nat) :
    ∃ shard', shard.push node neighbor = .ok shard' := by
  rw [push, dif_pos h]
  exact ⟨_, rfl⟩

theorem swapRemove_of_lt (h : slot < shard.degree node) :
    ∃ shard', shard.swapRemove node slot = .ok shard' := by
  rw [swapRemove, if_pos h]
  exact ⟨_, rfl⟩

section

variable (hnode : node - startNode < nodeCount)

include hnode

theorem getD_set_degrees (d v : Nat) :
    (shard.degrees.set (node - startNode) d).getD (v - startNode) 0 =
      if v - startNode = node - startNode then d else shard.degree v := by
  by_cases hv : v - startNode = node - startNode
  · rw [if_pos hv, hv, getD_eq_getElem?_getD,
      List.getElem?_set_self (by rw [shard.degrees_length]; exact hnode), Option.getD_some]
  · rw [if_neg hv, getD_eq_getElem?_getD, List.getElem?_set_ne (Ne.symm hv), degree,
      getD_eq_getElem?_getD]

/-- One node's slots and degree have changed. -/
theorem neighbors_of_changed {d v : Nat}
    (hdegrees : shard'.degrees = shard.degrees.set (node - startNode) d)
    (hself : v - startNode = node - startNode →
      block shard'.slots maxDegree (node - startNode) d = l)
    (hothers : v - startNode ≠ node - startNode →
      block shard'.slots maxDegree (v - startNode) (shard.degree v) = shard.neighbors v) :
    shard'.neighbors v = if v - startNode = node - startNode then l else shard.neighbors v := by
  rw [AdjacencyShard.neighbors, degree, hdegrees, getD_set_degrees hnode]
  split
  · rename_i hv
    rw [hv, hself hv]
  · rename_i hv
    exact hothers hv

omit hnode in
theorem degree_eq {v : Nat} (hv : v - startNode = node - startNode) :
    shard.degree v = shard.degree node := by
  rw [degree, degree, hv]

theorem neighbors_push {neighbor : Nat} (h : shard.push node neighbor = .ok shard') (v : Nat) :
    shard'.neighbors v = if v - startNode = node - startNode then shard.neighbors v ++ [neighbor]
      else shard.neighbors v := by
  by_cases hroom : shard.degree node < maxDegree
  · rw [push, dif_pos hroom, Except.ok.injEq] at h
    subst h
    refine neighbors_of_changed hnode rfl (fun hv => ?_) fun hv => ?_
    · rw [AdjacencyShard.neighbors, hv, degree_eq hv]
      exact block_set_end (slots_room hnode) hroom
    · exact block_set_of_ne neighbor (Ne.symm hv) hroom (shard.degree_le v)
  · rw [push, dif_neg hroom] at h
    cases h

theorem neighbors_swapRemove (h : shard.swapRemove node slot = .ok shard') (v : Nat) :
    shard'.neighbors v = if v - startNode = node - startNode then
        ((shard.neighbors v).set slot ((shard.neighbors v).getD (shard.degree node - 1) 0)).dropLast
      else shard.neighbors v := by
  by_cases hslot : slot < shard.degree node
  · rw [swapRemove, if_pos hslot, Except.ok.injEq] at h
    subst h
    have hle := shard.degree_le node
    refine neighbors_of_changed hnode rfl (fun hv => ?_) fun hv => ?_
    · have hlast : (shard.neighbors v).getD (shard.degree node - 1) 0 =
          shard.slots.getD ((node - startNode) * maxDegree + shard.degree node - 1) 0 := by
        rw [AdjacencyShard.neighbors, hv, degree_eq hv, getD_eq_getElem?_getD,
          getD_eq_getElem?_getD, getElem?_block, if_pos (by omega), Nat.add_sub_assoc (by omega)]
      have hroom : (node - startNode + 1) * maxDegree ≤ shard.slots.length := slots_room hnode
      rw [Nat.add_mul, Nat.one_mul] at hroom
      have hmin : min (shard.degree node)
          (shard.slots.length - (node - startNode) * maxDegree) - 1 =
          shard.degree node - 1 := by omega
      rw [hlast, AdjacencyShard.neighbors, degree_eq hv, hv, ← block_set_self, block_dropLast,
        length_set, hmin]
    · exact block_set_of_ne _ (Ne.symm hv) (by omega) (shard.degree_le v)
  · rw [swapRemove, if_neg hslot] at h
    cases h

theorem neighbors_replace {neighbors : List Nat} (h : shard.replace node neighbors = .ok shard')
    (v : Nat) :
    shard'.neighbors v =
      if v - startNode = node - startNode then neighbors else shard.neighbors v := by
  by_cases hlength : neighbors.length ≤ maxDegree
  · rw [replace, dif_pos hlength, Except.ok.injEq] at h
    subst h
    exact neighbors_of_changed hnode rfl (fun _ => block_overwrite_self (slots_room hnode) hlength)
      fun hv => block_overwrite_of_ne (Ne.symm hv) hlength (shard.degree_le v)
  · rw [replace, dif_neg hlength] at h
    cases h

end

end Ranges

end AdjacencyShard

open AdjacencyShard

structure CompactAdjacency (nodeCount maxDegree : Nat) where
  shards : (i : Nat) → AdjacencyShard maxDegree (i * parallelAdjacencyNodesPerShard)
    (min parallelAdjacencyNodesPerShard (nodeCount - i * parallelAdjacencyNodesPerShard))

def shardIndex (node : Nat) : Nat := node / parallelAdjacencyNodesPerShard

namespace CompactAdjacency

variable {nodeCount maxDegree : Nat}

def neighbors (self : CompactAdjacency nodeCount maxDegree) (node : Nat) : List Nat :=
  (self.shards (shardIndex node)).neighbors node

def push (self : CompactAdjacency nodeCount maxDegree) (node neighbor : Nat) :
    IoResult (CompactAdjacency nodeCount maxDegree) := do
  let shard ← (self.shards (shardIndex node)).push node neighbor
  return ⟨update self.shards (shardIndex node) shard⟩

def swapRemove (self : CompactAdjacency nodeCount maxDegree) (node slot : Nat) :
    IoResult (CompactAdjacency nodeCount maxDegree) := do
  let shard ← (self.shards (shardIndex node)).swapRemove node slot
  return ⟨update self.shards (shardIndex node) shard⟩

def replace (self : CompactAdjacency nodeCount maxDegree) (node : Nat) (neighbors : List Nat) :
    IoResult (CompactAdjacency nodeCount maxDegree) := do
  let shard ← (self.shards (shardIndex node)).replace node neighbors
  return ⟨update self.shards (shardIndex node) shard⟩

section Nodes

variable {self self' : CompactAdjacency nodeCount maxDegree} {node : Nat}

theorem local_eq_iff {v : Nat} (hshard : shardIndex v = shardIndex node) :
    v - shardIndex node * parallelAdjacencyNodesPerShard =
      node - shardIndex node * parallelAdjacencyNodesPerShard ↔ v = node := by
  simp only [shardIndex, parallelAdjacencyNodesPerShard] at hshard ⊢
  omega

/-- What is read of a node changes at the node of the changed shard only. -/
theorem observe_update {β : Type}
    (observe : {start count : Nat} → AdjacencyShard maxDegree start count → Nat → β)
    {shard : AdjacencyShard maxDegree (shardIndex node * parallelAdjacencyNodesPerShard)
      (min parallelAdjacencyNodesPerShard
      (nodeCount - shardIndex node * parallelAdjacencyNodesPerShard))} (changed : β → β)
    (h : ∀ v, observe shard v = if v - shardIndex node * parallelAdjacencyNodesPerShard =
      node - shardIndex node * parallelAdjacencyNodesPerShard then changed
      (observe (self.shards (shardIndex node)) v) else observe (self.shards (shardIndex node)) v) :
    (fun v => observe (update self.shards (shardIndex node) shard (shardIndex v)) v) =
      update (fun v => observe (self.shards (shardIndex v)) v) node
        (changed (observe (self.shards (shardIndex node)) node)) := by
  funext v
  by_cases hshard : shardIndex v = shardIndex node
  · rw [hshard, update_self, h v]
    by_cases hv : v = node
    · subst hv
      rw [if_pos rfl, update_self]
    · rw [if_neg (mt (local_eq_iff hshard).mp hv), update_of_ne hv, hshard]
  · have hv : v ≠ node := fun hv => hshard (hv ▸ rfl)
    rw [update_of_ne hshard, update_of_ne hv]

section

variable (hnode : node < nodeCount)

include hnode

theorem local_lt :
    node - shardIndex node * parallelAdjacencyNodesPerShard <
      min parallelAdjacencyNodesPerShard
        (nodeCount - shardIndex node * parallelAdjacencyNodesPerShard) := by
  simp only [shardIndex, parallelAdjacencyNodesPerShard]
  omega

theorem neighbors_length_le :
    (self.neighbors node).length ≤ maxDegree := by
  rw [neighbors, neighbors_length (local_lt hnode)]
  exact degree_le _ _

theorem push_of_room (hroom : (self.neighbors node).length < maxDegree)
    (neighbor : Nat) : ∃ self', self.push node neighbor = .ok self' := by
  rw [neighbors, neighbors_length (local_lt hnode)] at hroom
  obtain ⟨shard, hshard⟩ := push_of_lt hroom neighbor
  rw [push, hshard, ok_bind]
  exact ⟨_, rfl⟩

theorem swapRemove_of_slot (hslot : slot < (self.neighbors node).length) :
    ∃ self', self.swapRemove node slot = .ok self' := by
  rw [neighbors, neighbors_length (local_lt hnode)] at hslot
  obtain ⟨shard, hshard⟩ := swapRemove_of_lt hslot
  rw [swapRemove, hshard, ok_bind]
  exact ⟨_, rfl⟩

theorem neighbors_push {neighbor : Nat} (h : self.push node neighbor = .ok self') :
    self'.neighbors = update self.neighbors node (self.neighbors node ++ [neighbor]) := by
  simp only [push, accepted] at h
  obtain ⟨shard, hshard, rfl⟩ := h
  exact observe_update AdjacencyShard.neighbors (fun l => l ++ [neighbor])
    (AdjacencyShard.neighbors_push (local_lt hnode) hshard)

theorem neighbors_swapRemove (h : self.swapRemove node slot = .ok self') :
    self'.neighbors = update self.neighbors node (((self.neighbors node).set slot
      ((self.neighbors node).getD ((self.neighbors node).length - 1) 0)).dropLast) := by
  simp only [swapRemove, accepted] at h
  obtain ⟨shard, hshard, rfl⟩ := h
  have hlen : (self.neighbors node).length = (self.shards (shardIndex node)).degree node :=
    AdjacencyShard.neighbors_length (local_lt hnode)
  rw [hlen]
  exact observe_update AdjacencyShard.neighbors
    (fun l =>
      (l.set slot (l.getD ((self.shards (shardIndex node)).degree node - 1) 0)).dropLast)
    (AdjacencyShard.neighbors_swapRemove (local_lt hnode) hshard)

theorem neighbors_replace {neighbors : List Nat} (h : self.replace node neighbors = .ok self') :
    self'.neighbors = update self.neighbors node neighbors := by
  simp only [replace, accepted] at h
  obtain ⟨shard, hshard, rfl⟩ := h
  exact observe_update AdjacencyShard.neighbors (fun _ => neighbors)
    (AdjacencyShard.neighbors_replace (local_lt hnode) hshard)

end

theorem replace_of_length {neighbors : List Nat} (hlength : neighbors.length ≤ maxDegree) :
    ∃ self', self.replace node neighbors = .ok self' := by
  rw [replace, AdjacencyShard.replace, dif_pos hlength, ok_bind]
  exact ⟨_, rfl⟩

theorem neighbors_of_ge (hnode : nodeCount ≤ node) : self.neighbors node = [] := by
  have hlen := (self.shards (shardIndex node)).degrees_length
  have hdegree : (self.shards (shardIndex node)).degree node = 0 := by
    refine getD_eq_default _ _ ?_
    rw [hlen]
    simp only [shardIndex, parallelAdjacencyNodesPerShard]
    omega
  rw [neighbors, AdjacencyShard.neighbors, hdegree, block, take_zero]

end Nodes

section FromNested

/-- The slots of a node: its neighbours, then unused ones. -/
def paddedSlots (maxDegree : Nat) (neighbors : List Nat) : List Nat :=
  neighbors ++ List.replicate (maxDegree - neighbors.length) 0

theorem paddedSlots_length {maxDegree : Nat} {neighbors : List Nat}
    (h : neighbors.length ≤ maxDegree) :
    (paddedSlots maxDegree neighbors).length = maxDegree := by
  rw [paddedSlots, length_append, length_replicate]
  omega

def shardNodes (adjacency : List (List Nat)) (i : Nat) : List (List Nat) :=
  (adjacency.drop (i * parallelAdjacencyNodesPerShard)).take parallelAdjacencyNodesPerShard

theorem mem_of_mem_shardNodes {adjacency : List (List Nat)} {i : Nat}
    (h : l ∈ shardNodes adjacency i) : l ∈ adjacency :=
  mem_of_mem_drop (mem_of_mem_take h)

/-- The assertions of the source on the lengths are the hypothesis. -/
def fromNested (adjacency : List (List Nat)) (maxDegree : Nat)
    (h : ∀ neighbors ∈ adjacency, neighbors.length ≤ maxDegree) :
    CompactAdjacency adjacency.length maxDegree where
  shards i :=
    { slots := (shardNodes adjacency i).flatMap (paddedSlots maxDegree)
      degrees := (shardNodes adjacency i).map List.length
      slots_length := by
        rw [flatMap_length_of_width fun l hl => paddedSlots_length (h l (mem_of_mem_shardNodes hl)),
          shardNodes, length_take, length_drop]
      degrees_length := by rw [length_map, shardNodes, length_take, length_drop]
      degrees_le := by
        intro degree hdegree
        obtain ⟨l, hl, rfl⟩ := mem_map.mp hdegree
        exact h l (mem_of_mem_shardNodes hl) }

theorem neighbors_fromNested {adjacency : List (List Nat)} {maxDegree : Nat}
    (h : ∀ neighbors ∈ adjacency, neighbors.length ≤ maxDegree) (v : Nat) :
    (fromNested adjacency maxDegree h).neighbors v = adjacency.getD v [] := by
  rcases Nat.lt_or_ge v adjacency.length with hv | hv
  · set j := v - shardIndex v * parallelAdjacencyNodesPerShard with hj
    have hlocal : j < parallelAdjacencyNodesPerShard := by
      simp only [hj, shardIndex, parallelAdjacencyNodesPerShard]
      omega
    have hjv : shardIndex v * parallelAdjacencyNodesPerShard + j = v := by
      simp only [hj, shardIndex, parallelAdjacencyNodesPerShard]
      omega
    have hget : (shardNodes adjacency (shardIndex v))[j]? = some adjacency[v] := by
      rw [shardNodes, List.getElem?_take_of_lt hlocal, List.getElem?_drop, hjv,
        List.getElem?_eq_getElem hv]
    obtain ⟨hlt, hnode⟩ := List.getElem?_eq_some_iff.mp hget
    show block ((shardNodes adjacency (shardIndex v)).flatMap (paddedSlots maxDegree)) maxDegree j
      (((shardNodes adjacency (shardIndex v)).map List.length).getD j 0) = _
    have hdegree : ((shardNodes adjacency (shardIndex v)).map List.length).getD j 0 =
        adjacency[v].length := by
      rw [getD_eq_getElem?_getD, List.getElem?_map, hget, Option.map_some, Option.getD_some]
    rw [block, hdegree, drop_flatMap_of_width fun l hl =>
        paddedSlots_length (h l (mem_of_mem_shardNodes hl)), drop_eq_getElem_cons hlt, hnode,
      flatMap_cons, paddedSlots, append_assoc, take_left, getD_eq_getElem _ _ hv]
  · rw [neighbors_of_ge hv, getD_eq_default _ _ hv]

end FromNested

end CompactAdjacency

end PaimonVindex.Vamana
