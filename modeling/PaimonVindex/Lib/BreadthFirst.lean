import Mathlib.Data.ENat.Lattice
import PaimonVindex.Lib.SearchTree

/-! The order in which the nodes leave the queue of a breadth-first traversal lists what is
reachable by increasing depth. -/

namespace BreadthFirst

open SearchTree List

variable {α : Type*}

/-- The nodes that some walk of at most `n` edges joins to the root. -/
def Within (adj : α → List α) (root : α) : Nat → α → Prop
  | 0, v => v = root
  | n + 1, v => Within adj root n v ∨ ∃ u, Within adj root n u ∧ v ∈ adj u

noncomputable def depth (adj : α → List α) (root v : α) : ℕ∞ :=
  ⨅ n, ⨅ _ : Within adj root n v, (n : ℕ∞)

/-- Every ball around the root that holds `v` holds `u`. -/
def NoDeeper (adj : α → List α) (root u v : α) : Prop :=
  ∀ n, Within adj root n v → Within adj root n u

section Depth

variable {adj : α → List α} {root u v : α}

theorem NoDeeper.depth_le (h : NoDeeper adj root u v) : depth adj root u ≤ depth adj root v :=
  le_iInf₂ fun n hn => iInf₂_le n (h n hn)

theorem exists_within_iff :
    (∃ n, Within adj root n v) ↔ Relation.ReflTransGen (fun u v => v ∈ adj u) root v := by
  constructor
  · intro ⟨n, h⟩
    induction n generalizing v with
    | zero =>
      rw [show v = root from h]
    | succ n ih =>
      rcases h with h | ⟨u, hu, huv⟩
      · exact ih h
      · exact (ih hu).tail huv
  · intro h
    induction h with
    | refl => exact ⟨0, rfl⟩
    | tail _ huv ih =>
      obtain ⟨n, hn⟩ := ih
      exact ⟨n + 1, .inr ⟨_, hn, huv⟩⟩

end Depth

structure Sound (adj : α → List α) (root : α) (s : Traversal α) : Prop where
  visited : ∀ v, s.visited v = true ↔ v ∈ s.found
  nodup : s.found.Nodup
  head : s.found.head? = some root
  closed : ∀ u ∈ s.order, ∀ v ∈ adj u, v ∈ s.found
  within : ∀ v ∈ s.found, ∃ n, Within adj root n v
  sorted : s.found.Pairwise (NoDeeper adj root)
  /-- What is found is at most one step deeper than the head of the queue. -/
  shallow : ∀ node ∈ s.queue.head?, ∀ v ∈ s.found, ∀ n, Within adj root n node →
    Within adj root (n + 1) v

section Invariant

variable {adj : α → List α} {root node : α} {rest : List α} {s : Traversal α}

theorem Sound.root_mem (h : Sound adj root s) : root ∈ s.found :=
  mem_of_mem_head? h.head

/-- A ball without the head of the queue has left the queue entirely. -/
theorem Sound.mem_order (h : Sound adj root s) (hqueue : s.queue = node :: rest) {n : Nat}
    (hnode : ¬Within adj root n node) {v : α} (hv : Within adj root n v) : v ∈ s.order := by
  have hsorted := h.sorted
  rw [Traversal.found, hqueue, pairwise_append] at hsorted
  -- What is found and still waits lies outside of the ball with the head of the queue.
  have hplaced : ∀ w ∈ s.found, Within adj root n w → w ∈ s.order := by
    intro w hw hwithin
    rw [Traversal.found, hqueue, mem_append, mem_cons] at hw
    rcases hw with hw | rfl | hw
    · exact hw
    · exact absurd hwithin hnode
    · exact absurd ((pairwise_cons.mp hsorted.2.1).1 w hw n hwithin) hnode
  clear hsorted
  induction n generalizing v with
  | zero =>
    rw [show v = root from hv]
    exact hplaced root h.root_mem rfl
  | succ n ih =>
    have hless : ¬Within adj root n node := fun hn => hnode (.inl hn)
    have hsmaller : ∀ w ∈ s.found, Within adj root n w → w ∈ s.order :=
      fun w hw hn => hplaced w hw (.inl hn)
    rcases hv with hv | ⟨u, hu, huv⟩
    · exact ih hless hv hsmaller
    · exact hplaced v (h.closed u (ih hless hu hsmaller) v huv) (.inr ⟨u, hu, huv⟩)

/-- A node that is found next lies one step behind the head of the queue. -/
theorem Sound.new_deeper (h : Sound adj root s) (hqueue : s.queue = node :: rest) {w : α}
    (hw : w ∉ s.found) {n : Nat} (hn : Within adj root n w) :
    ∃ m, n = m + 1 ∧ Within adj root m node := by
  cases n with
  | zero =>
    rw [show w = root from hn] at hw
    exact absurd h.root_mem hw
  | succ m =>
    refine ⟨m, rfl, ?_⟩
    by_contra hnode
    rcases hn with hn | ⟨u, hu, huw⟩
    · exact hw (mem_append_left _ (h.mem_order hqueue hnode hn))
    · exact hw (h.closed u (h.mem_order hqueue hnode hu) w huw)

/-- A finished search has listed exactly what is reachable. -/
theorem Sound.mem_order_iff (h : Sound adj root s) (hqueue : s.queue = []) {v : α} :
    v ∈ s.order ↔ ∃ n, Within adj root n v := by
  have hfound : s.found = s.order := by rw [Traversal.found, hqueue, append_nil]
  constructor
  · intro hv
    exact h.within v (by rw [hfound]; exact hv)
  · intro ⟨n, hn⟩
    induction n generalizing v with
    | zero =>
      rw [show v = root from hn, ← hfound]
      exact h.root_mem
    | succ n ih =>
      rcases hn with hn | ⟨u, hu, huv⟩
      · exact ih hn
      · rw [← hfound]
        exact h.closed u (ih hu) v huv

variable [DecidableEq α]

theorem start_sound (adj : α → List α) (root : α) : Sound adj root (start root) where
  visited v := start_visited.trans mem_singleton.symm
  nodup := nodup_singleton root
  head := rfl
  closed u hu := absurd hu not_mem_nil
  within v hv := ⟨0, by simpa [start, Traversal.found, Within] using hv⟩
  sorted := pairwise_singleton _ root
  shallow := by
    intro node hnode v hv n hn
    have hroot : v = node := by
      have hv : v = root := by simpa [start, Traversal.found] using hv
      have hnode : root = node := by simpa [start] using hnode
      rw [hv, hnode]
    rw [hroot]
    exact .inl hn

theorem Sound.step (h : Sound adj root s) (hqueue : s.queue = node :: rest) :
    Sound adj root (expand (adj node) node (s.dequeue node rest)) := by
  obtain ⟨new, hscan⟩ := expand_expands (adj node) node (s.dequeue node rest)
  set s' := expand (adj node) node (s.dequeue node rest)
  have hfound : s'.found = s.found ++ new := by
    rw [Traversal.found, hscan.order, hscan.queue, Traversal.found, hqueue]
    simp
  have hnode : node ∈ s.found := by simp [Traversal.found, hqueue]
  have hnew : ∀ w ∈ new, w ∉ s.found := by
    intro w hw hmem
    have hfalse : s.visited w = false := ((hscan.mem_found w).mp hw).1
    rw [(h.visited w).mpr hmem] at hfalse
    cases hfalse
  have hshallow : ∀ v ∈ s'.found, ∀ n, Within adj root n node → Within adj root (n + 1) v := by
    intro v hv n hn
    rw [hfound, mem_append] at hv
    rcases hv with hv | hv
    · exact h.shallow node (by rw [hqueue]; rfl) v hv n hn
    · exact .inr ⟨node, hn, ((hscan.mem_found v).mp hv).2⟩
  -- Whatever is s.foundo far is no deeper than a new node, and so are the other new ones.
  have hdeeper : ∀ v ∈ s'.found, ∀ w ∈ new, NoDeeper adj root v w := by
    intro v hv w hw n hn
    obtain ⟨m, rfl, hm⟩ := h.new_deeper hqueue (hnew w hw) hn
    exact hshallow v hv m hm
  have hsorted : s'.found.Pairwise (NoDeeper adj root) := by
    rw [hfound, pairwise_append]
    refine ⟨h.sorted, ?_, fun v hv w hw => hdeeper v ?_ w hw⟩
    · exact pairwise_iff_forall_sublist.mpr fun {v w} hsub =>
        hdeeper v (by rw [hfound]; exact mem_append_right _ (hsub.subset (by simp))) w
          (hsub.subset (by simp))
    · rw [hfound]
      exact mem_append_left _ hv
  refine ⟨fun v => ?_, ?_, ?_, ?_, ?_, hsorted, ?_⟩
  · rw [hscan.visited, hfound, mem_append, ← h.visited, hscan.mem_found]
    cases s.visited v <;> simp
  · rw [hfound, nodup_append]
    exact ⟨h.nodup, hscan.nodup, fun v hv w hw heq => hnew w hw (heq ▸ hv)⟩
  · rw [hfound, List.head?_append, h.head]
    rfl
  · intro u hu v hv
    rw [hscan.order, mem_append, mem_singleton] at hu
    rw [hfound, mem_append]
    rcases hu with hu | rfl
    · exact .inl (h.closed u hu v hv)
    · by_cases hold : s.visited v = true
      · exact .inl ((h.visited v).mp hold)
      · exact .inr ((hscan.mem_found v).mpr ⟨Bool.eq_false_iff.mpr hold, hv⟩)
  · intro v hv
    obtain ⟨n, hn⟩ := h.within node hnode
    exact ⟨n + 1, hshallow v hv n hn⟩
  · -- The next head is no shallower than this one, as the found nodes are sorted.
    intro next hnext v hv n hn
    have hqueue' : s'.queue = rest ++ new := hscan.queue
    have hmem : next ∈ rest ++ new := by
      rw [← hqueue']
      exact mem_of_mem_head? hnext
    have hpair : NoDeeper adj root node next := by
      have hsplit : s'.found = s.order ++ node :: (rest ++ new) := by
        rw [hfound, Traversal.found, hqueue]
        simp
      rw [hsplit, pairwise_append] at hsorted
      exact (pairwise_cons.mp hsorted.2.1).1 next hmem
    exact hshallow v hv n (hpair n hn)

theorem Sound.drain (h : Sound adj root s) (fuel : Nat) : Sound adj root (drain adj fuel s) := by
  induction fuel generalizing s with
  | zero => exact h
  | succ fuel ih =>
    cases hqueue : s.queue with
    | nil =>
      rw [SearchTree.drain, hqueue]
      exact h
    | cons node rest =>
      rw [SearchTree.drain, hqueue]
      exact ih (h.step hqueue)

end Invariant

end BreadthFirst
