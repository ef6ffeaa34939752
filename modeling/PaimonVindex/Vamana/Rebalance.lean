import Mathlib.Algebra.Group.Action.Defs
import Mathlib.Combinatorics.Enumerative.DoubleCounting
import PaimonVindex.Scalar

/-! The rebalancing of overlapping shards. Every node is in two shards, and a shard above
its capacity hands its last nodes to the nearest shards with room. -/

namespace PaimonVindex.Vamana

open Checked Function List Scalar

def overlappingShardCapacity (nodeCount shardCount : Nat) : Option Nat :=
  if shardCount < 2 then none
  else if shardCount = 2 then some nodeCount
  else ((checkedMul nodeCount 2).bind (checkedAdd · (shardCount - 2))).map (· / (shardCount - 1))

/-- The two shards of every node, and the nodes of every shard. -/
structure ShardTable where
  assignments : Nat → Nat × Nat
  memberships : Nat → List Nat

def offerShard (distance : Nat → F32) (best : Option Nat × F32) (candidate : Nat) :
    Option Nat × F32 :=
  if F32.lt (distance candidate) best.2 ||
      (ge (distance candidate) best.2 && ge best.2 (distance candidate) &&
        best.1.all fun current => decide (candidate < current)) then
    (some candidate, distance candidate)
  else best

def replacementShard (distance : Nat → F32) (shardCount capacity other : Nat)
    (memberships : Nat → List Nat) : Option Nat :=
  (((List.range shardCount).filter fun candidate =>
    decide (candidate ≠ other) && decide ((memberships candidate).length < capacity)).foldl
      (offerShard distance) (none, F32.infinity)).1

section Rebalance

variable (distance : Nat → Nat → F32) (shardCount capacity : Nat)

/-- One round of the loop over an overflowing shard. -/
def moveLast (shard : Nat) (table : ShardTable) : IoResult ShardTable := do
  let node ← okOr (table.memberships shard).getLast?
    (panicked "an overflowing Vamana shard is non-empty")
  let memberships := update table.memberships shard (table.memberships shard).dropLast
  let (first, second) := table.assignments node
  let other := if first = shard then second else first
  let replacement ← okOr
    (replacementShard (distance node) shardCount capacity other memberships)
    (invalidInput "Vamana overlapping shards cannot be capacity-balanced")
  return {
    assignments := update table.assignments node
      (if first = shard then (replacement, second) else (first, replacement))
    memberships := update memberships replacement (memberships replacement ++ [node]) }

/-- A loop that is not over after `rounds` rounds counts as one that does not return. -/
def drainShard (shard : Nat) : (rounds : Nat) → ShardTable → IoResult ShardTable
  | 0, table =>
    if (table.memberships shard).length ≤ capacity then .ok table
    else .error (panicked "the shard still overflows")
  | rounds + 1, table =>
    if (table.memberships shard).length ≤ capacity then .ok table
    else moveLast distance shardCount capacity shard table >>= drainShard shard rounds

def rebalanceOverlappingShards (nodeCount rounds : Nat) (table : ShardTable) :
    IoResult ShardTable := do
  let capacity ← okOr (overlappingShardCapacity nodeCount shardCount)
    (invalidInput "Vamana overlapping-shard capacity overflows")
  (List.range shardCount).foldlM
    (fun table shard => drainShard distance shardCount capacity shard rounds table) table

end Rebalance

def ShardTable.shards (table : ShardTable) (node : Nat) : Finset Nat :=
  {(table.assignments node).1, (table.assignments node).2}

/-- Every node is in two shards, and the shards list exactly their nodes. -/
structure ShardTable.Consistent (nodeCount shardCount : Nat) (table : ShardTable) : Prop where
  bounded : ∀ node < nodeCount, table.shards node ⊆ Finset.range shardCount
  two : ∀ node < nodeCount, (table.shards node).card = 2
  nodup : ∀ shard, (table.memberships shard).Nodup
  mem : ∀ shard node, node ∈ table.memberships shard ↔
    node < nodeCount ∧ shard ∈ table.shards node

section Counting

variable {nodeCount shardCount capacity shard : Nat} {table : ShardTable}

theorem overlappingShardCapacity_spec (hshards : 2 ≤ shardCount)
    (hfits : 2 * nodeCount + shardCount < wordSize) :
    ∃ capacity, overlappingShardCapacity nodeCount shardCount = some capacity ∧
      (capacity < nodeCount → 2 * nodeCount ≤ (shardCount - 1) * capacity) := by
  rw [overlappingShardCapacity, if_neg (by omega)]
  split
  · exact ⟨nodeCount, rfl, fun h => absurd h (lt_irrefl _)⟩
  · refine ⟨(nodeCount * 2 + (shardCount - 2)) / (shardCount - 1), ?_, fun _ => ?_⟩
    · rw [checkedMul_of_lt (by omega), Option.bind_some, checkedAdd_of_lt (by omega),
        Option.map_some]
    · have hpos : 0 < shardCount - 1 := by omega
      have hlt := Nat.lt_mul_div_succ (nodeCount * 2 + (shardCount - 2)) hpos
      rw [Nat.mul_add, Nat.mul_one] at hlt
      omega

variable (h : table.Consistent nodeCount shardCount)

include h

theorem ShardTable.Consistent.length_le (shard : Nat) :
    (table.memberships shard).length ≤ nodeCount := by
  have hsub : table.memberships shard ⊆ List.range nodeCount :=
    fun v hv => mem_range.mpr ((h.mem shard v).mp hv).1
  have hlength := (subperm_of_subset (h.nodup shard) hsub).length_le
  rwa [length_range] at hlength

theorem ShardTable.Consistent.sum_length :
    ∑ shard ∈ Finset.range shardCount, (table.memberships shard).length = 2 * nodeCount := by
  have hcount : ∀ shard ∈ Finset.range shardCount, (table.memberships shard).length =
      ((Finset.range nodeCount).bipartiteAbove (· ∈ table.shards ·) shard).card := by
    intro shard _
    rw [← toFinset_card_of_nodup (h.nodup shard)]
    congr 1
    ext node
    simp [Finset.bipartiteAbove, h.mem shard node]
  have htwo : ∀ node ∈ Finset.range nodeCount,
      ((Finset.range shardCount).bipartiteBelow (· ∈ table.shards ·) node).card = 2 := by
    intro node hnode
    have hnode := Finset.mem_range.mp hnode
    rw [Finset.bipartiteBelow, Finset.filter_mem_eq_inter,
      Finset.inter_eq_right.mpr (h.bounded node hnode), h.two node hnode]
  rw [Finset.sum_congr rfl hcount, Finset.sum_card_bipartiteAbove_eq_sum_card_bipartiteBelow,
    Finset.sum_congr rfl htwo, Finset.sum_const, Finset.card_range, smul_eq_mul, Nat.mul_comm]

/-- Without one node of a shard, not all shards but one can be full. -/
theorem ShardTable.Consistent.exists_free {other : Nat}
    (hcapacity : 2 * nodeCount ≤ (shardCount - 1) * capacity) (hshard : shard < shardCount)
    (hother : other < shardCount) (members : List Nat)
    (hmembers : members.length < (table.memberships shard).length) :
    ∃ candidate < shardCount, candidate ≠ other ∧
      (update table.memberships shard members candidate).length < capacity := by
  have hfewer : ∑ candidate ∈ Finset.range shardCount,
      (update table.memberships shard members candidate).length < 2 * nodeCount := by
    rw [← h.sum_length]
    refine Finset.sum_lt_sum (fun candidate _ => ?_) ⟨shard, Finset.mem_range.mpr hshard, ?_⟩
    · rw [update_apply]
      split
      · rename_i heq
        rw [heq]
        exact hmembers.le
      · exact le_rfl
    · rwa [update_self]
  have hpart := Finset.sum_le_sum_of_subset (f := fun candidate =>
    (update table.memberships shard members candidate).length)
    (Finset.erase_subset other (Finset.range shardCount))
  have hroom : ∑ candidate ∈ (Finset.range shardCount).erase other,
      (update table.memberships shard members candidate).length <
      ∑ _candidate ∈ (Finset.range shardCount).erase other, capacity := by
    rw [Finset.sum_const, Finset.card_erase_of_mem (Finset.mem_range.mpr hother), Finset.card_range,
      smul_eq_mul]
    omega
  obtain ⟨candidate, hcandidate, hlt⟩ := Finset.exists_lt_of_sum_lt hroom
  obtain ⟨hne, hin⟩ := Finset.mem_erase.mp hcandidate
  exact ⟨candidate, Finset.mem_range.mp hin, hne, hlt⟩

end Counting

section Replacement

variable {distance : Nat → F32} {shardCount capacity other : Nat} {memberships : Nat → List Nat}

theorem offerShard_none {candidate : Nat} (h : (distance candidate).isNan = false) :
    offerShard distance (none, F32.infinity) candidate = (some candidate, distance candidate) := by
  have hkey : (distance candidate).key ≤ F32.infinity.key := by
    have hnumber : ¬((distance candidate).exponent = 255 ∧
        (distance candidate).bits.toNat % 2 ^ 23 ≠ 0) := of_decide_eq_false h
    rw [F32.exponent] at hnumber
    rw [show F32.infinity.key = 2139095040 from rfl]
    simp only [F32.key, F32.isNegative, F32.magnitude, decide_eq_true_eq]
    split <;> omega
  have hinfinity : F32.infinity.isNan = false := rfl
  rw [offerShard, if_pos]
  rcases hkey.lt_or_eq with hlt | heq
  · simp [F32.lt, h, hinfinity, hlt]
  · simp [ge, h, hinfinity, heq]

theorem foldl_offerShard (candidates : List Nat) (best : Option Nat × F32) {current : Nat}
    (h : best.1 = some current) : ∃ found,
      (candidates.foldl (offerShard distance) best).1 = some found ∧
      (found = current ∨ found ∈ candidates) := by
  induction candidates generalizing best current with
  | nil => exact ⟨current, h, .inl rfl⟩
  | cons candidate candidates ih =>
    rw [foldl_cons, offerShard]
    split
    · obtain ⟨found, hfound, hin⟩ := ih (some candidate, distance candidate) rfl
      exact ⟨found, hfound, .inr (mem_cons.mpr hin)⟩
    · obtain ⟨found, hfound, hin⟩ := ih _ h
      exact ⟨found, hfound, hin.imp_right (mem_cons_of_mem candidate)⟩

/-- With a free shard and without NaNs there is a replacement, and it is free. -/
theorem exists_replacementShard (hnan : ∀ candidate, (distance candidate).isNan = false)
    (hfree : ∃ candidate < shardCount, candidate ≠ other ∧
      (memberships candidate).length < capacity) :
    ∃ replacement, replacementShard distance shardCount capacity other memberships =
        some replacement ∧
      replacement < shardCount ∧ replacement ≠ other ∧
      (memberships replacement).length < capacity := by
  rw [replacementShard]
  set free := (List.range shardCount).filter fun candidate =>
    decide (candidate ≠ other) && decide ((memberships candidate).length < capacity) with hdef
  have hmem : ∀ candidate, candidate ∈ free ↔ candidate < shardCount ∧ candidate ≠ other ∧
      (memberships candidate).length < capacity := by simp [hdef]
  obtain ⟨candidate, hcandidate⟩ := hfree
  cases hcases : free with
  | nil =>
    have := (hmem candidate).mpr hcandidate
    simp [hcases] at this
  | cons first rest =>
    rw [foldl_cons, offerShard_none (hnan first)]
    obtain ⟨found, hfound, hin⟩ := foldl_offerShard rest (some first, distance first) rfl
    exact ⟨found, hfound, (hmem found).mp (hcases ▸ mem_cons.mpr hin)⟩

end Replacement

section Run

variable {distance : Nat → Nat → F32} {nodeCount shardCount capacity shard : Nat}
  {table : ShardTable}
  (hnan : ∀ node candidate, (distance node candidate).isNan = false)
  (hroom : capacity < nodeCount → 2 * nodeCount ≤ (shardCount - 1) * capacity)
  (hshard : shard < shardCount)

/-- A node that leaves one of its two shards for a third one. -/
theorem ShardTable.Consistent.move {node other replacement : Nat} {members : List Nat}
    (h : table.Consistent nodeCount shardCount) (pair : Nat × Nat)
    (hlast : table.memberships shard = members ++ [node])
    (hold : table.shards node = {shard, other})
    (hnew : ({pair.1, pair.2} : Finset Nat) = {replacement, other})
    (hne : replacement ≠ shard) (hother : replacement ≠ other) (hlt : replacement < shardCount) :
    (⟨update table.assignments node pair,
      update (update table.memberships shard members) replacement
      (table.memberships replacement ++ [node])⟩ : ShardTable).Consistent nodeCount shardCount := by
  have hnode := ((h.mem shard node).mp (by simp [hlast])).1
  have hdistinct : shard ≠ other := by
    have htwo := h.two node hnode
    rw [hold] at htwo
    rintro rfl
    simp at htwo
  have hmem : ∀ s, node ∈ table.memberships s ↔ s = shard ∨ s = other := by
    simp [h.mem, hnode, hold]
  have hshared := h.nodup shard
  rw [hlast, nodup_append_comm, singleton_append, nodup_cons] at hshared
  have hshards : ∀ v, ShardTable.shards ⟨update table.assignments node pair, update (update
      table.memberships shard members) replacement (table.memberships replacement ++ [node])⟩ v =
      if v = node then {replacement, other} else table.shards v := by
    intro v
    by_cases hv : v = node
    · simp [shards, hv, hnew]
    · simp [shards, hv]
  constructor
  · intro v hv
    rw [hshards]
    split
    · have hbounded := h.bounded v hv
      simp_all [Finset.insert_subset_iff]
    · exact h.bounded v hv
  · intro v hv
    rw [hshards]
    split
    · exact Finset.card_pair hother
    · exact h.two v hv
  · intro s
    dsimp only
    rw [update_apply, update_apply]
    split
    · refine (h.nodup _).append (nodup_singleton node) (disjoint_singleton.mpr ?_)
      rw [hmem]
      omega
    · split
      · exact hshared.2
      · exact h.nodup s
  · intro s v
    have hlastMem : v ∈ table.memberships shard ↔ v ∈ members ∨ v = node := by simp [hlast]
    have hold := h.mem s v
    rw [hshards]
    dsimp only
    rw [update_apply, update_apply]
    split_ifs <;> grind

include hnan hroom hshard in
theorem moveLast_ok (h : table.Consistent nodeCount shardCount)
    (hover : capacity < (table.memberships shard).length) :
    ∃ table', moveLast distance shardCount capacity shard table = .ok table' ∧
      table'.Consistent nodeCount shardCount ∧
      (table'.memberships shard).length + 1 = (table.memberships shard).length ∧
      ∀ s, s ≠ shard →
        (table'.memberships s).length ≤ max capacity (table.memberships s).length := by
  obtain hnil | ⟨members, node, hlast⟩ := eq_nil_or_concat' (table.memberships shard)
  · rw [hnil] at hover
    exact absurd hover (Nat.not_lt_zero _)
  have hlength : (table.memberships shard).length = members.length + 1 := by simp [hlast]
  obtain ⟨hnode, hin⟩ := (h.mem shard node).mp (by simp [hlast])
  have hlarge := h.length_le shard
  set other := if (table.assignments node).1 = shard then (table.assignments node).2
    else (table.assignments node).1 with hdef
  have hpair : table.shards node = {shard, other} := by
    simp only [ShardTable.shards, Finset.mem_insert, Finset.mem_singleton] at hin ⊢
    by_cases hfirst : (table.assignments node).1 = shard
    · rw [hdef, if_pos hfirst, hfirst]
    · rw [hdef, if_neg hfirst, Finset.pair_comm, hin.resolve_left (Ne.symm hfirst)]
  have hother : other < shardCount :=
    Finset.mem_range.mp (h.bounded node hnode (by simp [hpair]))
  obtain ⟨replacement, hreplacement, hlt, hne, hfree⟩ := exists_replacementShard (hnan node)
    (h.exists_free (hroom (by omega)) hshard hother members (by omega))
  have hshardNe : replacement ≠ shard := by
    rintro rfl
    rw [update_self] at hfree
    omega
  rw [update_of_ne hshardNe] at hfree
  refine ⟨_, ?_, h.move (if (table.assignments node).1 = shard then
      (replacement, (table.assignments node).2) else ((table.assignments node).1, replacement))
      hlast hpair ?_ hshardNe hne hlt, ?_, fun s hs => ?_⟩
  · rw [moveLast, hlast, getLast?_concat, okOr_some, ok_bind, dropLast_concat]
    dsimp only
    rw [hreplacement, okOr_some, ok_bind, pure_eq_ok, update_of_ne hshardNe]
  · by_cases hfirst : (table.assignments node).1 = shard
    · rw [hdef, if_pos hfirst, if_pos hfirst]
    · rw [hdef, if_neg hfirst, if_neg hfirst, Finset.pair_comm]
  · dsimp only
    rw [update_of_ne hshardNe.symm, update_self, hlength]
  · dsimp only
    rw [update_apply]
    split
    · rename_i heq
      rw [heq, length_append, length_singleton]
      omega
    · rw [update_of_ne hs]
      exact le_max_right _ _

theorem drainShard_of_le (rounds : Nat) (h : (table.memberships shard).length ≤ capacity) :
    drainShard distance shardCount capacity shard rounds table = .ok table := by
  cases rounds with
  | zero => exact if_pos h
  | succ rounds => exact if_pos h

include hnan hroom hshard in
theorem drainShard_ok (h : table.Consistent nodeCount shardCount) :
    ∃ table', (∀ rounds, (table.memberships shard).length ≤ capacity + rounds →
        drainShard distance shardCount capacity shard rounds table = .ok table') ∧
      table'.Consistent nodeCount shardCount ∧ (table'.memberships shard).length ≤ capacity ∧
      ∀ s, s ≠ shard →
        (table'.memberships s).length ≤ max capacity (table.memberships s).length := by
  induction hlength : (table.memberships shard).length generalizing table with
  | zero =>
    exact ⟨table, fun rounds _ => drainShard_of_le rounds (by omega), h, by omega,
      fun s _ => le_max_right _ _⟩
  | succ length ih =>
    by_cases hfits : length + 1 ≤ capacity
    · exact ⟨table, fun rounds _ => drainShard_of_le rounds (by omega), h, by omega,
        fun s _ => le_max_right _ _⟩
    · obtain ⟨next, hmove, hnext, hshorter, hothers⟩ := moveLast_ok hnan hroom hshard h (by omega)
      obtain ⟨table', hdrain, hconsistent, hdone, hkept⟩ := ih hnext (by omega)
      refine ⟨table', fun rounds hrounds => ?_, hconsistent, hdone, fun s hs => ?_⟩
      · cases rounds with
        | zero => omega
        | succ rounds =>
          rw [drainShard, if_neg (by omega), hmove, ok_bind]
          exact hdrain rounds (by omega)
      · have := hothers s hs
        have := hkept s hs
        omega

end Run

/-- Rebalancing succeeds within one round for every node. -/
theorem rebalance_overlapping_shards_balances {distance : Nat → Nat → F32}
    {nodeCount shardCount : Nat} {table : ShardTable} (hshards : 2 ≤ shardCount)
    (hfits : 2 * nodeCount + shardCount < wordSize)
    (hnan : ∀ node candidate, (distance node candidate).isNan = false)
    (h : table.Consistent nodeCount shardCount) :
    ∃ capacity balanced, overlappingShardCapacity nodeCount shardCount = some capacity ∧
      (∀ rounds, nodeCount ≤ rounds →
        rebalanceOverlappingShards distance shardCount nodeCount rounds table = .ok balanced) ∧
      balanced.Consistent nodeCount shardCount ∧
      ∀ shard < shardCount, (balanced.memberships shard).length ≤ capacity := by
  obtain ⟨capacity, hcapacity, hroom⟩ := overlappingShardCapacity_spec hshards hfits
  -- the first shards have been drained, and stay so
  have hrun : ∀ n ≤ shardCount, ∃ reached : ShardTable, (∀ rounds, nodeCount ≤ rounds →
        (List.range n).foldlM (fun table shard =>
          drainShard distance shardCount capacity shard rounds table) table = .ok reached) ∧
      reached.Consistent nodeCount shardCount ∧
      ∀ shard < n, (reached.memberships shard).length ≤ capacity := by
    intro n hn
    induction n with
    | zero => exact ⟨table, fun _ _ => rfl, h, fun _ hlt => absurd hlt (Nat.not_lt_zero _)⟩
    | succ n ih =>
      obtain ⟨reached, hreached, hconsistent, hbelow⟩ := ih (by omega)
      obtain ⟨next, hdrain, hnext, hdone, hkept⟩ := drainShard_ok hnan hroom hn hconsistent
      have hlarge := hconsistent.length_le n
      refine ⟨next, fun rounds hrounds => ?_, hnext, fun shard hlt => ?_⟩
      · rw [range_succ, foldlM_append, hreached rounds hrounds, ok_bind, foldlM_cons,
          hdrain rounds (by omega), ok_bind, foldlM_nil, pure_eq_ok]
      · rcases Nat.lt_succ_iff_lt_or_eq.mp hlt with hlt | rfl
        · have := hkept shard (by omega)
          have := hbelow shard hlt
          omega
        · exact hdone
  obtain ⟨balanced, hrun, hconsistent, hall⟩ := hrun shardCount le_rfl
  refine ⟨capacity, balanced, hcapacity, fun rounds hrounds => ?_, hconsistent, hall⟩
  rw [rebalanceOverlappingShards, hcapacity, okOr_some, ok_bind]
  exact hrun rounds hrounds

/-- Three nodes that are all in the first two of four shards. -/
def crowded : ShardTable where
  assignments _ := (0, 1)
  memberships shard := if shard < 2 then [0, 1, 2] else []

theorem crowded_consistent : crowded.Consistent 3 4 where
  bounded _ _ := by simp [ShardTable.shards, crowded, Finset.insert_subset_iff]
  two _ _ := by simp [ShardTable.shards, crowded]
  nodup shard := by
    dsimp only [crowded]
    split <;> decide
  mem shard node := by
    simp only [ShardTable.shards, crowded, Finset.mem_insert, Finset.mem_singleton]
    split
    · simp only [mem_cons, not_mem_nil, or_false]
      omega
    · simp only [not_mem_nil, false_iff]
      omega

theorem rebalance_overlapping_shards_crowded :
    ∃ balanced, rebalanceOverlappingShards (fun _ _ => F32.one) 4 3 3 crowded = .ok balanced ∧
      ∀ shard < 4, (balanced.memberships shard).length ≤ 2 := by
  obtain ⟨capacity, balanced, hcapacity, hrun, -, hall⟩ := rebalance_overlapping_shards_balances
    (by decide) (by decide) (show ∀ _ _ : Nat, F32.one.isNan = false from fun _ _ => rfl)
    crowded_consistent
  cases hcapacity
  exact ⟨balanced, hrun 3 le_rfl, hall⟩

end PaimonVindex.Vamana
