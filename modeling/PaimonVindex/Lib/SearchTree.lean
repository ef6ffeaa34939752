import Mathlib.Algebra.Order.BigOperators.Group.Finset

/-! Breadth-first traversal of a graph with a parent for every discovered node.
The traversal can be continued after the graph has been changed, as long as the
edges of the tree are kept. -/

namespace SearchTree

open SearchTree List Function

variable {α : Type*} [DecidableEq α]

structure Traversal (α : Type*) where
  visited : α → Bool
  parent : α → Option α
  queue : List α
  /-- The nodes in the order of their discovery. -/
  reached : List α
  /-- The nodes in the order in which they left the queue. -/
  order : List α

def start (root : α) : Traversal α where
  visited := update (fun _ => false) root true
  parent _ := none
  queue := [root]
  reached := []
  order := []

def discover (node : α) (t : Traversal α) (neighbor : α) : Traversal α :=
  if t.visited neighbor then t
  else
    { t with
      visited := update t.visited neighbor true
      parent := update t.parent neighbor (some node)
      queue := t.queue ++ [neighbor]
      reached := t.reached ++ [neighbor] }

def Traversal.found (t : Traversal α) : List α := t.order ++ t.queue

abbrev Traversal.dequeue (t : Traversal α) (node : α) (rest : List α) : Traversal α :=
  { t with queue := rest, order := t.order ++ [node] }

def expand (neighbors : List α) (node : α) (t : Traversal α) : Traversal α :=
  neighbors.foldl (discover node) t

/-- At most `fuel` nodes are taken from the queue. -/
def drain (adj : α → List α) : (fuel : Nat) → Traversal α → Traversal α
  | 0, t => t
  | fuel + 1, t =>
    match t.queue with
    | [] => t
    | node :: rest => drain adj fuel (expand (adj node) node (t.dequeue node rest))

/-- What the expansion of a node does: it discovers the new ones among its neighbours. -/
structure Expands (neighbors : List α) (node : α) (t t' : Traversal α) (found : List α) : Prop where
  visited : ∀ v, t'.visited v = true ↔ t.visited v = true ∨ v ∈ neighbors
  parent : ∀ v, t'.parent v = if v ∈ found then some node else t.parent v
  queue : t'.queue = t.queue ++ found
  reached : t'.reached = t.reached ++ found
  order : t'.order = t.order
  mem_found : ∀ v, v ∈ found ↔ t.visited v = false ∧ v ∈ neighbors
  nodup : found.Nodup

theorem expand_expands (neighbors : List α) (node : α) (t : Traversal α) :
    ∃ found, Expands neighbors node t (expand neighbors node t) found := by
  induction neighbors generalizing t with
  | nil => exact ⟨[], by simp [expand], by simp [expand], by simp [expand], by simp [expand], rfl,
      by simp, nodup_nil⟩
  | cons w ws ih =>
    obtain ⟨found, h⟩ := ih (discover node t w)
    have hstep : expand (w :: ws) node t = expand ws node (discover node t w) := rfl
    by_cases hw : t.visited w = true
    · have hsame : discover node t w = t := by rw [discover, if_pos hw]
      rw [hsame] at h hstep
      rw [hstep]
      refine ⟨found, fun v => ?_, h.parent, h.queue, h.reached, h.order, fun v => ?_, h.nodup⟩
      · rw [h.visited, mem_cons]
        by_cases hv : v = w
        · simp [hv, hw]
        · simp [hv]
      · rw [h.mem_found, mem_cons]
        by_cases hv : v = w
        · simp [hv, hw]
        · simp [hv]
    · have hnew : discover node t w =
          { t with
            visited := update t.visited w true
            parent := update t.parent w (some node)
            queue := t.queue ++ [w]
            reached := t.reached ++ [w] } := by rw [discover, if_neg hw]
      have hvisited : ∀ v, (discover node t w).visited v = true ↔ t.visited v = true ∨ v = w := by
        intro v
        by_cases hv : v = w
        · simp [hnew, hv]
        · simp [hnew, hv]
      have hmem : ∀ v, v ∈ found ↔ v ≠ w ∧ t.visited v = false ∧ v ∈ ws := by
        intro v
        rw [h.mem_found, ← Bool.not_eq_true, hvisited, not_or, Bool.not_eq_true]
        tauto
      rw [hstep]
      refine ⟨w :: found, fun v => ?_, fun v => ?_, ?_, ?_, ?_, fun v => ?_, ?_⟩
      · rw [h.visited, hvisited, mem_cons, or_assoc]
      · rw [h.parent, hnew]
        by_cases hv : v = w
        · simp [hv]
        · simp [hv]
      · rw [h.queue, hnew, append_assoc, singleton_append]
      · rw [h.reached, hnew, append_assoc, singleton_append]
      · rw [h.order, hnew]
      · rw [mem_cons, hmem, mem_cons]
        by_cases hv : v = w
        · simp [hv, hw]
        · simp [hv]
      · exact nodup_cons.mpr ⟨fun hin => ((hmem w).mp hin).1 rfl, h.nodup⟩

def TreeReaches (parent : α → Option α) : α → α → Prop :=
  Relation.ReflTransGen fun p v => parent v = some p

/-- The parents form a tree of edges on the visited nodes, and only nodes of the
queue can have neighbours that are not visited. -/
structure Tree (adj : α → List α) (root : α) (t : Traversal α) : Prop where
  root_visited : t.visited root = true
  root_parent : t.parent root = none
  parent_edge : ∀ {v p}, t.parent v = some p → v ∈ adj p
  parent_visited : ∀ {v p}, t.parent v = some p → t.visited v = true ∧ t.visited p = true
  reaches : ∀ {v}, t.visited v = true → TreeReaches t.parent root v
  queue_visited : ∀ {v}, v ∈ t.queue → t.visited v = true
  closed : ∀ {v w}, t.visited v = true → v ∉ t.queue → w ∈ adj v → t.visited w = true

section Tree

variable {adj : α → List α} {root : α} {t : Traversal α}

omit [DecidableEq α] in
theorem TreeReaches.mono {parent parent' : α → Option α} {a b : α}
    (h : ∀ v p, parent v = some p → parent' v = some p) (hab : TreeReaches parent a b) :
    TreeReaches parent' a b :=
  Relation.ReflTransGen.mono (fun p v hpv => h v p hpv) _ _ hab

omit [DecidableEq α] in
theorem Tree.reachable (h : Tree adj root t) {v : α} (hv : t.visited v = true) :
    Relation.ReflTransGen (fun p w => w ∈ adj p) root v :=
  Relation.ReflTransGen.mono (fun _ _ hpw => h.parent_edge hpw) _ _ (h.reaches hv)

theorem start_visited {root v : α} : (start root).visited v = true ↔ v = root := by
  simp [start, update_apply]

theorem Tree.start (adj : α → List α) (root : α) : Tree adj root (start root) := by
  refine ⟨start_visited.mpr rfl, rfl, fun hp => ?_, fun hp => ?_, fun hv => ?_, fun hv => ?_,
    fun hv hout _ => ?_⟩
  · cases hp
  · cases hp
  · rw [start_visited.mp hv]
    exact Relation.ReflTransGen.refl
  · exact start_visited.mpr (mem_singleton.mp hv)
  · exact absurd (mem_singleton.mpr (start_visited.mp hv)) hout

theorem Tree.expand (h : Tree adj root t) {node : α} {rest : List α}
    (hqueue : t.queue = node :: rest) :
    Tree adj root (expand (adj node) node (t.dequeue node rest)) := by
  obtain ⟨found, he⟩ := expand_expands (adj node) node (t.dequeue node rest)
  have hnode : t.visited node = true := h.queue_visited (by simp [hqueue])
  have hmem := he.mem_found
  have hkeep : ∀ v p, t.parent v = some p →
      (SearchTree.expand (adj node) node (t.dequeue node rest)).parent v = some p := by
    intro v p hp
    have hv : v ∉ found := by
      intro hin
      have hfalse := ((hmem v).mp hin).1
      rw [(h.parent_visited hp).1] at hfalse
      cases hfalse
    rw [he.parent, if_neg hv]
    exact hp
  refine ⟨?_, ?_, ?_, ?_, ?_, ?_, ?_⟩
  · exact (he.visited root).mpr (.inl h.root_visited)
  · have hroot : root ∉ found := by
      intro hin
      have hfalse := ((hmem root).mp hin).1
      rw [h.root_visited] at hfalse
      cases hfalse
    rw [he.parent, if_neg hroot]
    exact h.root_parent
  · intro v p hp
    rw [he.parent] at hp
    by_cases hv : v ∈ found
    · rw [if_pos hv] at hp
      cases hp
      exact ((hmem v).mp hv).2
    · rw [if_neg hv] at hp
      exact h.parent_edge hp
  · intro v p hp
    rw [he.parent] at hp
    by_cases hv : v ∈ found
    · rw [if_pos hv] at hp
      cases hp
      exact ⟨(he.visited v).mpr (.inr ((hmem v).mp hv).2), (he.visited node).mpr (.inl hnode)⟩
    · rw [if_neg hv] at hp
      have hold := h.parent_visited hp
      exact ⟨(he.visited v).mpr (.inl hold.1), (he.visited p).mpr (.inl hold.2)⟩
  · intro v hv
    by_cases hold : t.visited v = true
    · exact (h.reaches hold).mono hkeep
    · -- A new node hangs below the expanded one.
      have hin : v ∈ adj node := ((he.visited v).mp hv).resolve_left hold
      have hfound : v ∈ found := (hmem v).mpr ⟨by simpa using hold, hin⟩
      refine Relation.ReflTransGen.tail ((h.reaches hnode).mono hkeep) ?_
      rw [he.parent, if_pos hfound]
  · intro v hv
    rw [he.queue] at hv
    rcases mem_append.mp hv with hv | hv
    · exact (he.visited v).mpr (.inl (h.queue_visited (by simp [hqueue, hv])))
    · exact (he.visited v).mpr (.inr ((hmem v).mp hv).2)
  · intro v w hv hout hw
    rw [he.queue, mem_append, not_or] at hout
    by_cases hnv : v = node
    · subst hnv
      exact (he.visited w).mpr (.inr hw)
    · have hold : t.visited v = true := by
        rcases (he.visited v).mp hv with hold | hin
        · exact hold
        · by_contra hfalse
          exact hout.2 ((hmem v).mpr ⟨by simpa using hfalse, hin⟩)
      have hq : v ∉ t.queue := by
        rw [hqueue, mem_cons, not_or]
        exact ⟨hnv, hout.1⟩
      exact (he.visited w).mpr (.inl (h.closed hold hq hw))

theorem Tree.drain (h : Tree adj root t) (fuel : Nat) : Tree adj root (drain adj fuel t) := by
  induction fuel generalizing t with
  | zero => exact h
  | succ fuel ih =>
    cases hqueue : t.queue with
    | nil =>
      rw [drain, hqueue]
      exact h
    | cons node rest =>
      rw [drain, hqueue]
      exact ih (h.expand hqueue)

/-- What a traversal keeps: visited nodes, their parents, and the record of the
nodes that it discovers. -/
structure Extends (t t' : Traversal α) : Prop where
  visited : ∀ {v}, t.visited v = true → t'.visited v = true
  parent : ∀ {v}, t.visited v = true → t'.parent v = t.parent v
  reached : ∀ {v}, v ∈ t'.reached ↔
    v ∈ t.reached ∨ (t.visited v = false ∧ t'.visited v = true)

omit [DecidableEq α] in
theorem Extends.refl (t : Traversal α) : Extends t t :=
  ⟨id, fun _ => rfl, fun {v} => by cases t.visited v <;> simp⟩

omit [DecidableEq α] in
theorem Extends.trans {a b c : Traversal α} (hab : Extends a b) (hbc : Extends b c) :
    Extends a c := by
  refine ⟨fun h => hbc.visited (hab.visited h), fun h => ?_, fun {v} => ?_⟩
  · rw [hbc.parent (hab.visited h), hab.parent h]
  · rw [hbc.reached, hab.reached]
    cases ha : a.visited v with
    | true => simp [hab.visited ha]
    | false =>
      cases hb : b.visited v with
      | true => simp [hbc.visited hb]
      | false => simp

theorem expand_extends (neighbors : List α) (node : α) (rest : List α) (t : Traversal α) :
    Extends t (expand neighbors node (t.dequeue node rest)) := by
  obtain ⟨found, he⟩ := expand_expands neighbors node (t.dequeue node rest)
  have hmem := he.mem_found
  refine ⟨fun h => (he.visited _).mpr (.inl h), fun {v} h => ?_, fun {v} => ?_⟩
  · have hv : v ∉ found := by
      intro hin
      have hfalse : t.visited v = false := ((hmem v).mp hin).1
      rw [h] at hfalse
      cases hfalse
    rw [he.parent, if_neg hv]
  · rw [he.reached, mem_append, hmem, he.visited]
    cases t.visited v <;> simp

theorem drain_extends (adj : α → List α) (fuel : Nat) (t : Traversal α) :
    Extends t (drain adj fuel t) := by
  induction fuel generalizing t with
  | zero => exact Extends.refl t
  | succ fuel ih =>
    cases hqueue : t.queue with
    | nil =>
      rw [drain, hqueue]
      exact Extends.refl t
    | cons node rest =>
      rw [drain, hqueue]
      exact (expand_extends (adj node) node rest t).trans (ih _)

def unvisited (nodes : Finset α) (t : Traversal α) : Finset α :=
  nodes.filter fun v => t.visited v = false

/-- As many steps as there are nodes to discover and nodes waiting empty the queue. -/
theorem drain_queue_eq_nil (nodes : Finset α) (hadj : ∀ v w, w ∈ adj v → w ∈ nodes) {fuel : Nat}
    (hfuel : (unvisited nodes t).card + t.queue.length ≤ fuel) :
    (drain adj fuel t).queue = [] := by
  induction fuel generalizing t with
  | zero => exact length_eq_zero_iff.mp (by rw [drain]; omega)
  | succ fuel ih =>
    cases hqueue : t.queue with
    | nil => rw [drain, hqueue, hqueue]
    | cons node rest =>
      rw [drain, hqueue]
      obtain ⟨found, he⟩ := expand_expands (adj node) node (t.dequeue node rest)
      refine ih ?_
      -- Every discovered node moves from the one summand to the other.
      have hsplit : (unvisited nodes (expand (adj node) node (t.dequeue node rest))) ∪
          found.toFinset ⊆ unvisited nodes t := by
        intro v hv
        rw [Finset.mem_union, mem_toFinset, he.mem_found] at hv
        simp only [unvisited, Finset.mem_filter] at hv ⊢
        rcases hv with ⟨hin, hfalse⟩ | ⟨hfalse, hin⟩
        · refine ⟨hin, ?_⟩
          rw [← Bool.not_eq_true, he.visited, not_or, Bool.not_eq_true] at hfalse
          exact hfalse.1
        · exact ⟨hadj node v hin, hfalse⟩
      have hdisjoint : Disjoint
          (unvisited nodes (expand (adj node) node (t.dequeue node rest)))
          found.toFinset := by
        rw [Finset.disjoint_left]
        intro v hv hin
        rw [mem_toFinset, he.mem_found] at hin
        simp only [unvisited, Finset.mem_filter] at hv
        have htrue := (he.visited v).mpr (.inr hin.2)
        rw [hv.2] at htrue
        cases htrue
      have hcard := Finset.card_le_card hsplit
      rw [Finset.card_union_of_disjoint hdisjoint, toFinset_card_of_nodup he.nodup] at hcard
      rw [he.queue, length_append]
      rw [hqueue, length_cons] at hfuel
      show _ + (rest.length + found.length) ≤ fuel
      omega

theorem drain_queue_of_visited {adj : Nat → List Nat} {count v : Nat}
    (hadj : ∀ u w, w ∈ adj u → w < count) (hv : v < count) {t : Traversal Nat}
    (hvisited : t.visited v = true) (hqueue : t.queue = [v]) : (drain adj count t).queue = [] := by
  refine drain_queue_eq_nil (Finset.range count)
    (fun u w hw => Finset.mem_range.mpr (hadj u w hw)) ?_
  have hsub : unvisited (Finset.range count) t ⊆ (Finset.range count).erase v := by
    intro w hw
    obtain ⟨hin, hfalse⟩ := Finset.mem_filter.mp hw
    refine Finset.mem_erase.mpr ⟨?_, hin⟩
    rintro rfl
    rw [hvisited] at hfalse
    cases hfalse
  have hcard := Finset.card_le_card hsub
  rw [Finset.card_erase_of_mem (Finset.mem_range.mpr hv), Finset.card_range] at hcard
  rw [hqueue, length_singleton]
  omega

end Tree

section Graft

variable {adj adj' : α → List α} {root : α} {t : Traversal α}

def graft (t : Traversal α) (source target : α) : Traversal α :=
  { t with
    visited := update t.visited target true
    parent := update t.parent target (some source)
    queue := [target]
    reached := [target] }

/-- A new node is hung below a visited one. The lists of neighbours may lose
edges that are not in the tree, and gain this one. -/
theorem Tree.graft (h : Tree adj root t) (hqueue : t.queue = []) {source target : α}
    (hsource : t.visited source = true) (htarget : t.visited target = false)
    (hkeep : ∀ v p, t.parent v = some p → v ∈ adj' p) (hedge : target ∈ adj' source)
    (hgain : ∀ v w, w ∈ adj' v → w ∈ adj v ∨ w = target) :
    Tree adj' root (graft t source target) := by
  have hne : ∀ v, t.visited v = true → v ≠ target := by
    rintro v hv rfl
    rw [htarget] at hv
    cases hv
  have hparent : ∀ v p, t.parent v = some p →
      (SearchTree.graft t source target).parent v = some p := by
    intro v p hp
    simp [SearchTree.graft, hne v (h.parent_visited hp).1, hp]
  refine ⟨?_, ?_, ?_, ?_, ?_, ?_, ?_⟩
  · simp [SearchTree.graft, hne root h.root_visited, h.root_visited]
  · simp [SearchTree.graft, hne root h.root_visited, h.root_parent]
  · intro v p hp
    by_cases hv : v = target
    · subst hv
      simp only [SearchTree.graft, update_self, Option.some.injEq] at hp
      exact hp ▸ hedge
    · simp only [SearchTree.graft, update_of_ne hv] at hp
      exact hkeep v p hp
  · intro v p hp
    by_cases hv : v = target
    · subst hv
      simp only [SearchTree.graft, update_self, Option.some.injEq] at hp
      subst hp
      simp [SearchTree.graft, hne source hsource, hsource]
    · simp only [SearchTree.graft, update_of_ne hv] at hp ⊢
      have hold := h.parent_visited hp
      simp [hold.1, hne p hold.2, hold.2]
  · intro v hv
    by_cases hvt : v = target
    · subst hvt
      refine Relation.ReflTransGen.tail ((h.reaches hsource).mono hparent) ?_
      simp [SearchTree.graft]
    · simp only [SearchTree.graft, update_of_ne hvt] at hv
      exact (h.reaches hv).mono hparent
  · intro v hv
    have hvt : v = target := by simpa [SearchTree.graft] using hv
    simp [SearchTree.graft, hvt]
  · intro v w hv hout hw
    have hvt : v ≠ target := by simpa [SearchTree.graft] using hout
    simp only [SearchTree.graft, update_of_ne hvt] at hv
    rcases hgain v w hw with hold | hnew
    · have hwv := h.closed hv (by simp [hqueue]) hold
      simp [SearchTree.graft, hne w hwv, hwv]
    · simp [SearchTree.graft, hnew]

end Graft

section Counting

/-- In a finite tree not every node can have `degree` children: the children are
all nodes but the root. -/
theorem exists_card_children_lt {parent : α → Option α} {root : α} {nodes : Finset α}
    (hroot : root ∈ nodes) (hparent : parent root = none) {degree : Nat} (hdegree : 0 < degree) :
    ∃ v ∈ nodes, (nodes.filter fun w => parent w = some v).card < degree := by
  by_contra hall
  push Not at hall
  have hsum : ∑ v ∈ nodes, (nodes.filter fun w => parent w = some v).card ≤
      (nodes.erase root).card := by
    rw [← Finset.card_biUnion]
    · refine Finset.card_le_card fun w hw => ?_
      obtain ⟨v, -, hwv⟩ := Finset.mem_biUnion.mp hw
      rw [Finset.mem_filter] at hwv
      refine Finset.mem_erase.mpr ⟨?_, hwv.1⟩
      rintro rfl
      rw [hparent] at hwv
      cases hwv.2
    · intro a _ b _ hab
      refine Finset.disjoint_left.mpr fun w hwa hwb => ?_
      rw [Finset.mem_filter] at hwa hwb
      exact hab (Option.some.inj (hwa.2.symm.trans hwb.2))
  have hlower : nodes.card * degree ≤
      ∑ v ∈ nodes, (nodes.filter fun w => parent w = some v).card :=
    Finset.card_nsmul_le_sum _ _ _ hall
  have herase := Finset.card_erase_lt_of_mem hroot
  have hmul : nodes.card ≤ nodes.card * degree := Nat.le_mul_of_pos_right _ hdegree
  omega

end Counting

end SearchTree
