import PaimonVindex.Vamana.Repair

/-! The repair always succeeds and leaves every node reachable. A tree on the
visited nodes has fewer edges than nodes, so some visited node has a free slot or
an edge outside the tree. -/

namespace PaimonVindex.Vamana

open Checked SearchTree CompactAdjacency List Function

variable {l : List Nat}

section Lists

theorem swapRemoveAt_perm {i : Nat} (h : i < l.length) :
    (swapRemoveAt l i).Perm (l.eraseIdx i) := by
  induction l using List.reverseRecOn with
  | nil => simp at h
  | append_singleton front last _ =>
    have hlast : (front ++ [last]).getD ((front ++ [last]).length - 1) 0 = last := by simp
    rw [swapRemoveAt, hlast]
    rcases Nat.lt_or_ge i front.length with hi | hi
    · rw [set_append_left _ _ hi, dropLast_concat, eraseIdx_append_of_lt_length hi]
      exact (set_perm_cons_eraseIdx hi last).trans (perm_append_singleton _ _).symm
    · have hi' : i = front.length := by
        simp at h
        omega
      subst hi'
      simp [eraseIdx_append_of_length_le]

theorem mem_swapRemoveAt_of_ne {i x y : Nat} (hi : l[i]? = some y) (hx : x ∈ l) (hne : x ≠ y) :
    x ∈ swapRemoveAt l i := by
  obtain ⟨hlt, hy⟩ := List.getElem?_eq_some_iff.mp hi
  rw [(swapRemoveAt_perm hlt).mem_iff, mem_eraseIdx_iff_getElem?]
  obtain ⟨j, hj⟩ := mem_iff_getElem?.mp hx
  refine ⟨j, ?_, hj⟩
  rintro rfl
  rw [hi] at hj
  exact hne (Option.some.inj hj).symm

theorem mem_of_mem_swapRemoveAt {i x : Nat} (h : i < l.length) (hx : x ∈ swapRemoveAt l i) :
    x ∈ l :=
  mem_of_mem_eraseIdx ((swapRemoveAt_perm h).mem_iff.mp hx)

end Lists

variable {target source : Nat}

section Sources

variable {nodeCount capacity maxDegree : Nat} {adjacency : CompactAdjacency nodeCount capacity}
  {parent : Nat → Option Nat} {K : Type} [Scalar K] (distance : Nat → Nat → K)

theorem isRepairSource_iff :
    isRepairSource adjacency maxDegree parent source = true ↔
      (adjacency.neighbors source).length < maxDegree ∨
        ∃ w ∈ adjacency.neighbors source, parent w ≠ some source := by
  simp [isRepairSource]

def Selectable (adjacency : CompactAdjacency nodeCount capacity) (maxDegree : Nat)
    (parent : Nat → Option Nat) (eligible : List Nat) (choice : Nat × Nat) : Prop :=
  eligible[choice.1]? = some choice.2 ∧
    isRepairSource adjacency maxDegree parent choice.2 = true

theorem sampleSource_selectable {eligible : List Nat} {start offset : Nat} {sample : Sample K}
    (hne : eligible ≠ [])
    (h : ∀ best ∈ sample.best, Selectable adjacency maxDegree parent eligible (best.1, best.2.1)) :
    ∀ best ∈ (sampleSource distance adjacency maxDegree parent eligible target start sample
      offset).best, Selectable adjacency maxDegree parent eligible (best.1, best.2.1) := by
  have hlt : (start + offset) % eligible.length < eligible.length :=
    Nat.mod_lt _ (length_pos_iff.mpr hne)
  intro best hbest
  rw [sampleSource] at hbest
  split at hbest
  · rename_i hsource
    dsimp only at hbest
    split at hbest
    · cases hbest
      refine ⟨?_, hsource⟩
      rw [getD_eq_getElem _ _ hlt]
      exact List.getElem?_eq_getElem hlt
    · exact h best hbest
  · exact h best hbest

theorem selectRepairSource_ok {eligible : List Nat} (hmem : source ∈ eligible)
    (hsource : isRepairSource adjacency maxDegree parent source = true) (target edgesAdded : Nat) :
    ∃ choice evaluations, selectRepairSource distance adjacency maxDegree parent eligible target
        edgesAdded = .ok (choice, evaluations) ∧
      Selectable adjacency maxDegree parent eligible choice := by
  have hne : eligible ≠ [] := ne_nil_of_mem hmem
  rw [selectRepairSource, rejectIf_bind hne]
  dsimp only
  set start := (derivedSeed (UInt64.ofNat target) (UInt64.ofNat edgesAdded)).toNat %
    eligible.length
  have hbest : ∀ best ∈ ((List.range (min connectivitySourceSampleSize eligible.length)).foldl
      (sampleSource distance adjacency maxDegree parent eligible target start) ⟨none, 0⟩).best,
      Selectable adjacency maxDegree parent eligible (best.1, best.2.1) := by
    apply foldlRecOn (motive := fun sample : Sample K => ∀ best ∈ sample.best,
      Selectable adjacency maxDegree parent eligible (best.1, best.2.1))
    · simp
    · exact fun sample h offset _ => sampleSource_selectable distance hne h
  generalize (List.range (min connectivitySourceSampleSize eligible.length)).foldl
    (sampleSource distance adjacency maxDegree parent eligible target start) ⟨none, 0⟩ = sample
    at hbest ⊢
  obtain ⟨best, evaluations⟩ := sample
  cases best with
  | some choice =>
    obtain ⟨index, chosen, value⟩ := choice
    exact ⟨(index, chosen), evaluations, rfl, hbest _ rfl⟩
  | none =>
    -- The sample held no source, so the whole list is searched.
    obtain ⟨i, hi⟩ := mem_iff_getElem?.mp hmem
    have hsome : (eligible.zipIdx.find? fun entry =>
        isRepairSource adjacency maxDegree parent entry.1).isSome := by
      rw [List.find?_isSome]
      exact ⟨(source, i), mem_zipIdx_iff_getElem?.mpr hi, hsource⟩
    obtain ⟨⟨chosen, index⟩, hfound⟩ := Option.isSome_iff_exists.mp hsome
    refine ⟨(index, chosen), evaluations, ?_, ?_, ?_⟩
    · simp only [hfound]
      rfl
    · exact mem_zipIdx_iff_getElem?.mp (mem_of_find?_eq_some hfound)
    · have hchosen := List.find?_some hfound
      exact hchosen

theorem maxSlot_mem {slots : List (Nat × K)} (hne : slots ≠ []) :
    ∃ slot, maxSlot slots = some slot ∧ slot ∈ slots := by
  cases slots with
  | nil => exact absurd rfl hne
  | cons first rest =>
    refine ⟨_, rfl, ?_⟩
    apply foldlRecOn (motive := fun best => best ∈ first :: rest)
    · exact mem_cons_self
    · intro best hbest slot hslot
      split
      · exact hbest
      · exact mem_cons_of_mem _ hslot

/-- What the room is made from: a list with a free place that keeps all children. -/
structure Roomy (parent : Nat → Option Nat) (maxDegree source : Nat) (l l' : List Nat) : Prop where
  subset : ∀ w ∈ l', w ∈ l
  children : ∀ w ∈ l, parent w = some source → w ∈ l'
  nodup : l.Nodup → l'.Nodup
  room : l'.length < maxDegree
  length_le : l'.length ≤ l.length

theorem makeRoom_ok (hnode : source < nodeCount)
    (hdegree : (adjacency.neighbors source).length ≤ maxDegree)
    (hsource : isRepairSource adjacency maxDegree parent source = true) :
    ∃ roomy l', makeRoom distance adjacency maxDegree parent source = .ok roomy ∧
      roomy.neighbors = update adjacency.neighbors source l' ∧
      Roomy parent maxDegree source (adjacency.neighbors source) l' := by
  by_cases hfull : (adjacency.neighbors source).length = maxDegree
  · -- A full source has an edge outside the tree.
    have hother : ∃ w ∈ adjacency.neighbors source, parent w ≠ some source :=
      (isRepairSource_iff.mp hsource).resolve_left (by omega)
    obtain ⟨w, hw, hparent⟩ := hother
    obtain ⟨j, hj⟩ := mem_iff_getElem?.mp hw
    have hne : removableSlots distance (adjacency.neighbors source) parent source ≠ [] := by
      refine ne_nil_of_mem (a := (j, distance w source)) ?_
      refine mem_map.mpr ⟨(w, j), mem_filter.mpr ⟨?_, by simpa using hparent⟩, rfl⟩
      exact mem_zipIdx_iff_getElem?.mpr hj
    obtain ⟨slot, hslot, hmem⟩ := maxSlot_mem hne
    obtain ⟨⟨y, i⟩, hentry, rfl⟩ := mem_map.mp hmem
    obtain ⟨hzip, hy⟩ := mem_filter.mp hentry
    have hi : (adjacency.neighbors source)[i]? = some y := mem_zipIdx_iff_getElem?.mp hzip
    obtain ⟨hlt, -⟩ := List.getElem?_eq_some_iff.mp hi
    have hy' : parent y ≠ some source := by simpa using hy
    obtain ⟨roomy, hroomy⟩ := swapRemove_of_slot hnode hlt
    have hperm := swapRemoveAt_perm hlt
    have hlen := hperm.length_eq
    rw [length_eraseIdx_of_lt hlt] at hlen
    refine ⟨roomy, swapRemoveAt (adjacency.neighbors source) i, ?_,
      neighbors_swapRemove hnode hroomy, ?_, ?_, ?_, ?_, ?_⟩
    · rw [makeRoom, if_pos hfull, hslot, okOr_some, ok_bind]
      exact hroomy
    · exact fun x hx => mem_of_mem_swapRemoveAt hlt hx
    · intro x hx hchild
      refine mem_swapRemoveAt_of_ne hi hx ?_
      rintro rfl
      exact hy' hchild
    · exact fun hnodup => hperm.nodup_iff.mpr (hnodup.sublist (eraseIdx_sublist _ _))
    · omega
    · omega
  · refine ⟨adjacency, adjacency.neighbors source, by rw [makeRoom, if_neg hfull],
      (update_eq_self _ _).symm, fun _ h => h, fun _ h _ => h, id, by omega, Nat.le_refl _⟩

end Sources

section Run

variable {nodeCount capacity maxDegree : Nat} {K : Type} [Scalar K] (distance : Nat → Nat → K)

/-- Edges between nodes of the graph, none doubled and none from a node to itself. -/
structure Simple (adjacency : CompactAdjacency nodeCount capacity) : Prop where
  in_range : ∀ v w, w ∈ adjacency.neighbors v → v < nodeCount ∧ w < nodeCount
  no_self : ∀ v, v ∉ adjacency.neighbors v
  nodup : ∀ v, (adjacency.neighbors v).Nodup

/-- The reachable nodes of a state, its tree and its list of sources. -/
structure RepairInv (maxDegree entry : Nat) (s : RepairState nodeCount capacity) : Prop where
  simple : Simple s.adjacency
  tree : Tree s.adjacency.neighbors entry s.tree
  queue : s.tree.queue = []
  sources_visited : ∀ v ∈ s.eligibleSources, s.tree.visited v = true
  sources_complete : ∀ v, s.tree.visited v = true →
    isRepairSource s.adjacency maxDegree s.tree.parent v = true → v ∈ s.eligibleSources
  before_cursor : ∀ v < s.targetCursor, s.tree.visited v = true

variable {adjacency : CompactAdjacency nodeCount capacity} {v : Nat}

theorem reachable_lt (hsimple : Simple adjacency) {entry : Nat} (hentry : entry < nodeCount)
    (h : Relation.ReflTransGen (fun p w => w ∈ adjacency.neighbors p) entry v) : v < nodeCount := by
  cases h with
  | refl => exact hentry
  | tail _ hedge => exact (hsimple.in_range _ _ hedge).2

section Step

variable {entry : Nat} {s : RepairState nodeCount capacity}

theorem RepairInv.visited_lt (h : RepairInv maxDegree entry s) (hentry : entry < nodeCount)
    (hv : s.tree.visited v = true) : v < nodeCount :=
  reachable_lt h.simple hentry (h.tree.reachable hv)

theorem RepairInv.exists_source (h : RepairInv maxDegree entry s) (hentry : entry < nodeCount)
    (hpos : 0 < maxDegree) : ∃ v, s.tree.visited v = true ∧
      isRepairSource s.adjacency maxDegree s.tree.parent v = true := by
  let nodes := (Finset.range nodeCount).filter fun v => s.tree.visited v = true
  have hroot : entry ∈ nodes :=
    Finset.mem_filter.mpr ⟨Finset.mem_range.mpr hentry, h.tree.root_visited⟩
  obtain ⟨v, hv, hfew⟩ := exists_card_children_lt hroot h.tree.root_parent hpos
  have hvisited : s.tree.visited v = true := (Finset.mem_filter.mp hv).2
  refine ⟨v, hvisited, isRepairSource_iff.mpr ?_⟩
  by_contra hnone
  push Not at hnone
  -- Otherwise all neighbours are children, and there are too many of them.
  have hsub : (s.adjacency.neighbors v).toFinset ⊆
      nodes.filter fun w => s.tree.parent w = some v := by
    intro w hw
    rw [mem_toFinset] at hw
    have hwv := h.tree.closed hvisited (by simp [h.queue]) hw
    refine Finset.mem_filter.mpr ⟨Finset.mem_filter.mpr ⟨?_, hwv⟩, hnone.2 w hw⟩
    exact Finset.mem_range.mpr (h.visited_lt hentry hwv)
  have hcard := Finset.card_le_card hsub
  rw [toFinset_card_of_nodup (h.simple.nodup v)] at hcard
  omega

theorem neighbors_length_lt_capacity (hsimple : Simple adjacency)
    (hcapacity : capacity = min maxDegree (nodeCount - 1)) (hsource : source < nodeCount)
    (htarget : target < nodeCount) (hne : target ≠ source)
    (hout : target ∉ adjacency.neighbors source) (hroomy : l.length < maxDegree)
    (hsub : ∀ w ∈ l, w ∈ adjacency.neighbors source) (hnodup : l.Nodup) : l.length < capacity := by
  have hsubset : l.toFinset ⊆ ((Finset.range nodeCount).erase source).erase target := by
    intro w hw
    have hin := hsub w (mem_toFinset.mp hw)
    refine Finset.mem_erase.mpr ⟨?_, Finset.mem_erase.mpr ⟨?_, ?_⟩⟩
    · rintro rfl
      exact hout hin
    · rintro rfl
      exact hsimple.no_self _ hin
    · exact Finset.mem_range.mpr (hsimple.in_range _ _ hin).2
  have hcard := Finset.card_le_card hsubset
  rw [toFinset_card_of_nodup hnodup,
    Finset.card_erase_of_mem (Finset.mem_erase.mpr ⟨hne, Finset.mem_range.mpr htarget⟩),
    Finset.card_erase_of_mem (Finset.mem_range.mpr hsource), Finset.card_range] at hcard
  omega

theorem mem_of_mem_update {lists : Nat → List Nat} {w : Nat} (hsub : ∀ w ∈ l, w ∈ lists source)
    (hw : w ∈ update lists source (l ++ [target]) v) : w ∈ lists v ∨ v = source ∧ w = target := by
  by_cases hvs : v = source
  · subst hvs
    rw [update_self, mem_append, mem_singleton] at hw
    exact hw.imp (hsub w) fun hw => ⟨rfl, hw⟩
  · rw [update_of_ne hvs] at hw
    exact .inl hw

theorem Simple.update {adjacency' : CompactAdjacency nodeCount capacity} (h : Simple adjacency)
    (hneighbors : adjacency'.neighbors = update adjacency.neighbors source (l ++ [target]))
    (hsource : source < nodeCount) (htarget : target < nodeCount) (hne : target ≠ source)
    (hsub : ∀ w ∈ l, w ∈ adjacency.neighbors source) (hnodup : l.Nodup)
    (hout : target ∉ adjacency.neighbors source) : Simple adjacency' := by
  refine ⟨fun v w hw => ?_, fun v hv => ?_, fun v => ?_⟩
  · rw [hneighbors] at hw
    rcases mem_of_mem_update hsub hw with hw | ⟨rfl, rfl⟩
    · exact h.in_range v w hw
    · exact ⟨hsource, htarget⟩
  · rw [hneighbors] at hv
    rcases mem_of_mem_update hsub hv with hv | ⟨rfl, htarget⟩
    · exact h.no_self v hv
    · exact hne htarget.symm
  · rw [hneighbors]
    by_cases hvs : v = source
    · subst hvs
      rw [update_self]
      exact nodup_append.mpr ⟨hnodup, nodup_singleton _, fun a ha b hb hab => by
        rw [mem_singleton] at hb
        exact hout (hb ▸ hab ▸ hsub a ha)⟩
    · rw [update_of_ne hvs]
      exact h.nodup v

theorem isRepairSource_congr {adjacency' : CompactAdjacency nodeCount capacity}
    {parent parent' : Nat → Option Nat} (hlist : adjacency'.neighbors v = adjacency.neighbors v)
    (hparent : ∀ w ∈ adjacency.neighbors v, parent' w = parent w)
    (h : isRepairSource adjacency' maxDegree parent' v = true) :
    isRepairSource adjacency maxDegree parent v = true := by
  rw [isRepairSource_iff, hlist] at h
  rw [isRepairSource_iff]
  rcases h with hroom | ⟨w, hw, hne⟩
  · exact .inl hroom
  · exact .inr ⟨w, hw, hparent w hw ▸ hne⟩

/-- The source for a target and the graph with the new edge. -/
structure Choice (maxDegree : Nat) (s : RepairState nodeCount capacity) (target index source : Nat)
    (l : List Nat) (adjacency : CompactAdjacency nodeCount capacity) : Prop where
  index_eq : s.eligibleSources[index]? = some source
  visited : s.tree.visited source = true
  source_lt : source < nodeCount
  ne : target ≠ source
  out : target ∉ s.adjacency.neighbors source
  roomy : Roomy s.tree.parent maxDegree source (s.adjacency.neighbors source) l
  neighbors : adjacency.neighbors = update s.adjacency.neighbors source (l ++ [target])

theorem RepairInv.exists_choice (h : RepairInv maxDegree entry s) (hentry : entry < nodeCount)
    (hpos : 0 < maxDegree) (hcapacity : capacity = min maxDegree (nodeCount - 1))
    (htarget : target < nodeCount) (hunvisited : s.tree.visited target = false) :
    ∃ index source evaluations roomy l adjacency,
      selectRepairSource distance s.adjacency maxDegree s.tree.parent s.eligibleSources target
        s.stats.edgesAdded = .ok ((index, source), evaluations) ∧
      makeRoom distance s.adjacency maxDegree s.tree.parent source = .ok roomy ∧
      roomy.push source target = .ok adjacency ∧
      Choice maxDegree s target index source l adjacency := by
  obtain ⟨v, hv, hvsource⟩ := h.exists_source hentry hpos
  obtain ⟨⟨index, source⟩, evaluations, hselect, hindex, hsource⟩ :=
    selectRepairSource_ok distance (h.sources_complete v hv hvsource) hvsource target
      s.stats.edgesAdded
  have hvisited : s.tree.visited source = true :=
    h.sources_visited source (mem_of_getElem? hindex)
  have hlt := h.visited_lt hentry hvisited
  have hne : target ≠ source := by
    rintro rfl
    rw [hunvisited] at hvisited
    cases hvisited
  have hout : target ∉ s.adjacency.neighbors source := by
    intro hin
    have htrue := h.tree.closed hvisited (by simp [h.queue]) hin
    rw [hunvisited] at htrue
    cases htrue
  have hdegree : (s.adjacency.neighbors source).length ≤ capacity :=
    neighbors_length_le hlt
  obtain ⟨roomy, l, hroom, hneighbors, hroomy⟩ :=
    makeRoom_ok distance hlt (by omega) hsource
  have hl : roomy.neighbors source = l := by rw [hneighbors, update_self]
  have hslot : (roomy.neighbors source).length < capacity := by
    rw [hl]
    exact neighbors_length_lt_capacity h.simple hcapacity hlt htarget hne hout hroomy.room
      hroomy.subset (hroomy.nodup (h.simple.nodup source))
  obtain ⟨adjacency, hpush⟩ := push_of_room hlt hslot target
  refine ⟨index, source, evaluations, roomy, l, adjacency, hselect, hroom, hpush, hindex, hvisited,
    hlt, hne, hout, hroomy, ?_⟩
  rw [neighbors_push hlt hpush, hl, hneighbors, update_idem]

section Graft

variable {target index source : Nat} {l : List Nat}
  {adjacency : CompactAdjacency nodeCount capacity}

theorem graft_visited_of_ne (hv : v ≠ target) :
    (graft s.tree source target).visited v = s.tree.visited v :=
  update_of_ne hv _ _

variable (hc : Choice maxDegree s target index source l adjacency)

include hc

variable (h : RepairInv maxDegree entry s)

include h

theorem Choice.simple (htarget : target < nodeCount) : Simple adjacency :=
  h.simple.update hc.neighbors hc.source_lt htarget hc.ne hc.roomy.subset
    (hc.roomy.nodup (h.simple.nodup source)) hc.out

theorem Choice.grafted_tree (hunvisited : s.tree.visited target = false) :
    Tree adjacency.neighbors entry (graft s.tree source target) := by
  refine h.tree.graft h.queue hc.visited hunvisited ?_ ?_ ?_
  · intro v p hp
    have hold := h.tree.parent_edge hp
    rw [hc.neighbors]
    by_cases hps : p = source
    · subst hps
      rw [update_self]
      exact mem_append_left _ (hc.roomy.children v hold hp)
    · rw [update_of_ne hps]
      exact hold
  · rw [hc.neighbors, update_self]
    exact mem_append_right _ (mem_singleton_self target)
  · intro v w hw
    rw [hc.neighbors] at hw
    exact (mem_of_mem_update hc.roomy.subset hw).imp_right And.right

theorem Choice.sources_complete (hunvisited : s.tree.visited target = false) {tree : Traversal Nat}
    (htree : Extends (graft s.tree source target) tree) (hv : tree.visited v = true)
    (hsource : isRepairSource adjacency maxDegree tree.parent v = true) :
    v ∈ swapRemoveAt s.eligibleSources index ++
      (source :: tree.reached).filter (isRepairSource adjacency maxDegree tree.parent) := by
  by_cases hnew : v ∈ source :: tree.reached
  · exact mem_append_right _ (mem_filter.mpr ⟨hnew, hsource⟩)
  · rw [mem_cons, not_or, htree.reached, not_or, not_and, Bool.eq_false_iff] at hnew
    obtain ⟨hvs, hvt, hold⟩ := hnew
    have hvt' : v ≠ target := by simpa [graft] using hvt
    have hvisited : s.tree.visited v = true := by
      have hsame : (graft s.tree source target).visited v = s.tree.visited v :=
        graft_visited_of_ne hvt'
      rw [← hsame]
      by_contra hfalse
      exact hold hfalse hv
    -- The neighbours of an old node were visited before, so their parents are kept.
    have hparent : ∀ w ∈ s.adjacency.neighbors v, tree.parent w = s.tree.parent w := by
      intro w hw
      have hwv := h.tree.closed hvisited (by simp [h.queue]) hw
      have hwt : w ≠ target := by
        rintro rfl
        rw [hunvisited] at hwv
        cases hwv
      rw [htree.parent (by rw [graft_visited_of_ne hwt]; exact hwv)]
      exact update_of_ne hwt _ _
    have hlist : adjacency.neighbors v = s.adjacency.neighbors v := by
      rw [hc.neighbors, update_of_ne hvs]
    have holdSource := isRepairSource_congr hlist hparent hsource
    exact mem_append_left _
      (mem_swapRemoveAt_of_ne hc.index_eq (h.sources_complete v hvisited holdSource) hvs)

theorem Choice.sources_visited {tree : Traversal Nat}
    (htree : Extends (graft s.tree source target) tree)
    (hkeep : ∀ v, s.tree.visited v = true → tree.visited v = true)
    (htarget : tree.visited target = true)
    (hv : v ∈ swapRemoveAt s.eligibleSources index ++
      (source :: tree.reached).filter (isRepairSource adjacency maxDegree tree.parent)) :
    tree.visited v = true := by
  rcases mem_append.mp hv with hv | hv
  · have hlt := (List.getElem?_eq_some_iff.mp hc.index_eq).1
    exact hkeep v (h.sources_visited v (mem_of_mem_swapRemoveAt hlt hv))
  · rcases mem_cons.mp (mem_filter.mp hv).1 with rfl | hin
    · exact hkeep _ hc.visited
    · rw [htree.reached] at hin
      rcases hin with hin | hin
      · have hvt : v = target := by simpa [graft] using hin
        rw [hvt]
        exact htarget
      · exact hin.2

end Graft

theorem RepairInv.repairTarget (h : RepairInv maxDegree entry s) (hentry : entry < nodeCount)
    (hpos : 0 < maxDegree) (hcapacity : capacity = min maxDegree (nodeCount - 1))
    (htarget : target < nodeCount) (hunvisited : s.tree.visited target = false)
    (hbefore : ∀ v < target, s.tree.visited v = true) :
    ∃ s', repairTarget distance maxDegree s target = .ok s' ∧ RepairInv maxDegree entry s' ∧
      (∀ v, s.tree.visited v = true → s'.tree.visited v = true) ∧
      s'.tree.visited target = true := by
  obtain ⟨index, source, evaluations, roomy, l, adjacency, hselect, hroom, hpush, hc⟩ :=
    h.exists_choice distance hentry hpos hcapacity htarget hunvisited
  have hsimple := hc.simple h htarget
  have htree := (hc.grafted_tree h hunvisited).drain nodeCount
  have hextends := drain_extends adjacency.neighbors nodeCount (graft s.tree source target)
  have hnew : (drain adjacency.neighbors nodeCount (graft s.tree source target)).visited target =
      true := hextends.visited (update_self _ _ _)
  have hkeep : ∀ v, s.tree.visited v = true →
      (drain adjacency.neighbors nodeCount (graft s.tree source target)).visited v = true := by
    intro v hv
    by_cases hvt : v = target
    · rw [hvt]
      exact hnew
    · exact hextends.visited (by rw [graft_visited_of_ne hvt]; exact hv)
  refine ⟨afterEdge maxDegree s target index source evaluations adjacency, ?_, ?_, hkeep, hnew⟩
  · rw [Vamana.repairTarget, hselect, ok_bind]
    dsimp only
    rw [hroom, ok_bind, hpush, ok_bind, pure_eq_ok]
  · exact
      { simple := hsimple
        tree := htree
        queue := drain_queue_of_visited (fun u w hw => (hsimple.in_range u w hw).2) htarget
          (update_self _ _ _) rfl
        sources_visited := fun v hv => hc.sources_visited h hextends hkeep hnew hv
        sources_complete := fun v hv hsource => hc.sources_complete h hunvisited hextends hv hsource
        before_cursor := fun v hv => hkeep v (hbefore v hv) }

theorem advance_spec (visited : Nat → Bool) (remaining cursor : Nat) :
    advance visited remaining cursor ≤ cursor + remaining ∧
      (∀ v, cursor ≤ v → v < advance visited remaining cursor → visited v = true) ∧
      (advance visited remaining cursor < cursor + remaining →
        visited (advance visited remaining cursor) = false) := by
  induction remaining generalizing cursor with
  | zero =>
    rw [advance]
    exact ⟨Nat.le_refl _, fun v hge hlt => by omega, fun hlt => by omega⟩
  | succ remaining ih =>
    rw [advance]
    by_cases hvisited : visited cursor = true
    · rw [if_pos hvisited]
      obtain ⟨hle, hbefore, hstop⟩ := ih (cursor + 1)
      refine ⟨by omega, fun v hge hlt => ?_, fun hlt => hstop (by omega)⟩
      rcases Nat.eq_or_lt_of_le hge with rfl | hgt
      · exact hvisited
      · exact hbefore v hgt hlt
    · rw [if_neg hvisited]
      exact ⟨by omega, fun v hge hlt => by omega, fun _ => by simpa using hvisited⟩

theorem RepairInv.nextTarget_spec (h : RepairInv maxDegree entry s)
    (hcursor : s.targetCursor ≤ nodeCount) :
    nextTarget s ≤ nodeCount ∧ (∀ v < nextTarget s, s.tree.visited v = true) ∧
      (nextTarget s < nodeCount → s.tree.visited (nextTarget s) = false) := by
  obtain ⟨hle, hbefore, hstop⟩ :=
    advance_spec s.tree.visited (nodeCount - s.targetCursor) s.targetCursor
  rw [nextTarget]
  refine ⟨by omega, fun v hv => ?_, fun hlt => hstop (by omega)⟩
  rcases Nat.lt_or_ge v s.targetCursor with hlt | hge
  · exact h.before_cursor v hlt
  · exact hbefore v hge hv

end Step

theorem repairLoop_ok {entry : Nat} (hentry : entry < nodeCount) (hpos : 0 < maxDegree)
    (hcapacity : capacity = min maxDegree (nodeCount - 1)) {rounds : Nat}
    {s : RepairState nodeCount capacity} (h : RepairInv maxDegree entry s)
    (hcursor : s.targetCursor ≤ nodeCount)
    (hrounds : (unvisited (Finset.range nodeCount) s.tree).card < rounds) :
    ∃ s', repairLoop distance maxDegree rounds s = .ok (some s') ∧ RepairInv maxDegree entry s' ∧
      ∀ v < nodeCount, s'.tree.visited v = true := by
  induction rounds generalizing s with
  | zero => omega
  | succ rounds ih =>
    obtain ⟨hle, hbefore, hunvisited⟩ := h.nextTarget_spec hcursor
    rw [repairLoop]
    by_cases hdone : nextTarget s = nodeCount
    · rw [if_pos hdone]
      exact ⟨s, rfl, h, fun v hv => hbefore v (by omega)⟩
    · have hlt : nextTarget s < nodeCount := by omega
      obtain ⟨s', hstep, hinv, hkeep, hnew⟩ :=
        h.repairTarget distance hentry hpos hcapacity hlt (hunvisited hlt) hbefore
      -- The target leaves the nodes to reach, and none comes back.
      have hfewer : (unvisited (Finset.range nodeCount) s'.tree).card <
          (unvisited (Finset.range nodeCount) s.tree).card := by
        refine Finset.card_lt_card (Finset.ssubset_iff_of_subset ?_ |>.mpr ⟨nextTarget s, ?_, ?_⟩)
        · intro v hv
          simp only [unvisited, Finset.mem_filter] at hv ⊢
          refine ⟨hv.1, ?_⟩
          by_contra hfalse
          rw [hkeep v (by simpa using hfalse)] at hv
          cases hv.2
        · exact Finset.mem_filter.mpr ⟨Finset.mem_range.mpr hlt, hunvisited hlt⟩
        · simp [unvisited, hnew]
      have hcursor' : s'.targetCursor ≤ nodeCount := by
        by_contra hgt
        have hin := hinv.visited_lt hentry (hinv.before_cursor nodeCount (by omega))
        omega
      rw [if_neg hdone, hstep, ok_bind]
      exact ih hinv hcursor' (by omega)

theorem startRepair_inv {graph : VamanaGraph nodeCount capacity} (hsimple : Simple graph.adjacency)
    (hentry : graph.entryNode < nodeCount) :
    RepairInv maxDegree graph.entryNode (startRepair graph maxDegree) := by
  have hroot := Tree.start graph.adjacency.neighbors graph.entryNode
  have hqueue : (reachabilityTree graph).queue = [] :=
    drain_queue_of_visited (fun u w hw => (hsimple.in_range u w hw).2) hentry hroot.root_visited rfl
  have htree := hroot.drain nodeCount
  refine ⟨hsimple, htree, hqueue, fun v hv => ?_, fun v hv hsource => ?_, fun v hv => ?_⟩
  · have hboth := (mem_filter.mp hv).2
    rw [Bool.and_eq_true] at hboth
    exact hboth.1
  · have hlt := reachable_lt hsimple hentry (htree.reachable hv)
    refine mem_filter.mpr ⟨mem_range.mpr hlt, ?_⟩
    rw [Bool.and_eq_true]
    exact ⟨hv, hsource⟩
  · exact absurd hv (Nat.not_lt_zero v)

/-- A graph as the builders hand it over. -/
structure Repairable (graph : VamanaGraph nodeCount capacity) (maxDegree : Nat) : Prop where
  entry_lt : graph.entryNode < nodeCount
  degree_pos : 0 < maxDegree
  capacity_eq : capacity = min maxDegree (nodeCount - 1)
  simple : Simple graph.adjacency

def Reachable (graph : VamanaGraph nodeCount capacity) : Nat → Prop :=
  Relation.ReflTransGen (fun v w => w ∈ graph.adjacency.neighbors v) graph.entryNode

/-- The repair succeeds for all distances and ends within one round for every node.
Afterwards every node is reachable, and the lists are as short and as simple as before. -/
theorem repair_connectivity_succeeds {graph : VamanaGraph nodeCount capacity}
    (h : Repairable graph maxDegree) {rounds : Nat} (hrounds : nodeCount < rounds) :
    ∃ repaired stats,
      repairConnectivityWithStats distance graph maxDegree rounds = .ok (some (repaired, stats)) ∧
      repaired.entryNode = graph.entryNode ∧
      (∀ v < nodeCount, Reachable repaired v) ∧
      (∀ v, Reachable graph v → Reachable repaired v) ∧
      ∀ v < nodeCount, (repaired.adjacency.neighbors v).length ≤ maxDegree ∧
        (repaired.adjacency.neighbors v).Nodup ∧
        ∀ w ∈ repaired.adjacency.neighbors v, w < nodeCount ∧ w ≠ v := by
  have hcard : (unvisited (Finset.range nodeCount) (startRepair graph maxDegree).tree).card ≤
      nodeCount := by
    have hle := Finset.card_filter_le (Finset.range nodeCount)
      fun v => (startRepair graph maxDegree).tree.visited v = false
    rwa [Finset.card_range] at hle
  obtain ⟨s, hloop, hinv, hall⟩ := repairLoop_ok distance h.entry_lt h.degree_pos h.capacity_eq
    (startRepair_inv h.simple h.entry_lt) (Nat.zero_le _) (lt_of_le_of_lt hcard hrounds)
  refine ⟨⟨graph.entryNode, s.adjacency⟩, s.stats, ?_, rfl, ?_, ?_, ?_⟩
  · rw [repairConnectivityWithStats, hloop, ok_bind]
    rfl
  · exact fun v hv => hinv.tree.reachable (hall v hv)
  · exact fun v hv => hinv.tree.reachable (hall v (reachable_lt h.simple h.entry_lt hv))
  · intro v hv
    have hlength : (s.adjacency.neighbors v).length ≤ capacity :=
      neighbors_length_le hv
    have hcapacity := h.capacity_eq
    refine ⟨?_, hinv.simple.nodup v, fun w hw => ⟨(hinv.simple.in_range v w hw).2, ?_⟩⟩
    · show (s.adjacency.neighbors v).length ≤ maxDegree
      omega
    · rintro rfl
      exact hinv.simple.no_self _ hw

def separated : VamanaGraph 3 1 :=
  ⟨0, fromNested [[1], [0], []] 1 (by decide)⟩

theorem separated_repairable : Repairable separated 1 := by
  have hlists : ∀ v, separated.adjacency.neighbors v = [[1], [0], []].getD v [] :=
    neighbors_fromNested (by decide)
  refine ⟨by decide, by decide, by decide, fun v w hw => ?_, fun v hv => ?_, fun v => ?_⟩
  · rw [hlists] at hw
    rcases v with _ | _ | _ | v
    · simp at hw
      omega
    · simp at hw
      omega
    · simp at hw
    · simp at hw
  · rw [hlists] at hv
    rcases v with _ | _ | _ | v <;> simp at hv
  · rw [hlists]
    rcases v with _ | _ | _ | v <;> simp

theorem repair_connectivity_separated :
    ∃ repaired stats,
      repairConnectivityWithStats (fun _ _ => F32.max) separated 1 4 =
        .ok (some (repaired, stats)) ∧
      ∀ v < 3, Reachable repaired v := by
  obtain ⟨repaired, stats, hok, -, hreach, -⟩ :=
    repair_connectivity_succeeds (fun _ _ => F32.max) separated_repairable (show 3 < 4 by decide)
  exact ⟨repaired, stats, hok, hreach⟩

end Run

end PaimonVindex.Vamana
