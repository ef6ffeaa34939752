import PaimonVindex.DiskAnn.LoadWindows

/-! Which windows of a round are available once its pages are loaded. -/

namespace PaimonVindex

open Checked List
open Effect (forEach moves_forEach run_bind_eq_ok)

variable {nodes : List Nat} {node : Nat}

namespace DiskAnnReader

variable (reader : DiskAnnReader)

def pageOf (node : Nat) : Option Nat :=
  (reader.adjacencyIndex.locator node).map fun locator => locator.pageIndex.toNat

def windowOf (node : Nat) : Option ReadWindow :=
  (reader.pageOf node).bind reader.planner.windowForLogicalPage

def WindowAvailable (cache : AdjacencyWindowCache) (node : Nat) : Prop :=
  ∃ window, reader.windowOf node = some window ∧
    (reader.isHot window = true ∨ cache.containsKey window.offset = true)

def coldWindows (nodes : List Nat) : List ReadWindow :=
  (nodes.filterMap reader.windowOf).filter fun window => !reader.isHot window

section Round

variable {World : Type} (s : QueryState World)

def windowHeld (window : ReadWindow) : Bool :=
  reader.isHot window || s.windowCache.containsKey window.offset

def mustLoad (node : Nat) : Bool :=
  (reader.pageOf node).any fun page => page ∉ s.loadedPages ||
    (reader.windowOf node).any fun window => !reader.windowHeld s window

/-- The windows a round reads anew or reads pages of for the first time. -/
def readWindows (nodes : List Nat) : List ReadWindow :=
  (reader.coldWindows (nodes.filter (reader.mustLoad s))).dedup

def incomingBytes (nodes : List Nat) : Nat :=
  (((reader.readWindows s nodes).filter
    fun window => !s.windowCache.containsKey window.offset).map ReadWindow.length).sum

def heldOffsets (nodes : List Nat) : List Nat :=
  (((reader.coldWindows nodes).map ReadWindow.offset).filter s.windowCache.containsKey).dedup

/-- Every held window the round needs and does not read fits, together with the
held windows of later nodes, into what the incoming bytes leave of the limit. -/
def RoundFits (nodes : List Nat) : Prop :=
  nodes.any (reader.mustLoad s) = true →
    ∀ window ∈ reader.coldWindows nodes, s.windowCache.containsKey window.offset = true →
      window ∉ reader.readWindows s nodes →
        Recency.weight (capacityAt s.windowCache.entries)
            (Recency.since (reader.heldOffsets s nodes) window.offset) ≤
          queryAdjacencyWindowLimitBytes - reader.incomingBytes s nodes

end Round

theorem adjacencyLocator_eq_ok {locator : AdjacencyLocator} :
    reader.adjacencyLocator node = .ok locator ↔
      reader.adjacencyIndex.locator node = some locator := okOr_eq_ok

variable {window : ReadWindow}

theorem pageWindow_eq_ok {page : Nat} :
    reader.pageWindow page = .ok window ↔
      reader.planner.windowForLogicalPage page = some window := okOr_eq_ok

variable {reader}

theorem windowOf_eq_some :
    reader.windowOf node = some window ↔ ∃ page, reader.pageOf node = some page ∧
      reader.planner.windowForLogicalPage page = some window := Option.bind_eq_some_iff

theorem mem_coldWindows :
    window ∈ reader.coldWindows nodes ↔
      (∃ node ∈ nodes, reader.windowOf node = some window) ∧ reader.isHot window = false := by
  simp [coldWindows, mem_filter, mem_filterMap]

theorem window_ext_of_nodes {m n : Nat} {v w : ReadWindow} (hv : reader.windowOf m = some v)
    (hw : reader.windowOf n = some w) (h : v.offset = w.offset) : v = w := by
  obtain ⟨p, -, hp⟩ := windowOf_eq_some.mp hv
  obtain ⟨q, -, hq⟩ := windowOf_eq_some.mp hw
  exact ReadWindowPlanner.window_ext hp hq h

end DiskAnnReader

open DiskAnnReader

section Plan

variable {World : Type} {reader : DiskAnnReader} {s : QueryState World}

theorem planNode_eq_ok {plan plan' : RoundPlan} (h : planNode reader s plan node = .ok plan') :
    ∃ page window, reader.pageOf node = some page ∧
      reader.windowOf node = some window ∧
      plan'.requiredWindows = plan.requiredWindows ++ reader.coldWindows [node] ∧
      ∀ p, p ∈ plan'.pages ↔ p ∈ plan.pages ∨ (p = page ∧ reader.mustLoad s node = true) := by
  simp only [planNode, bind_eq_ok, adjacencyLocator_eq_ok, pageWindow_eq_ok, pure_ok_iff] at h
  obtain ⟨locator, hlocator, window, hwindow, rfl⟩ := h
  have hpage : reader.pageOf node = some locator.pageIndex.toNat := by simp [pageOf, hlocator]
  have hwin : reader.windowOf node = some window := windowOf_eq_some.mpr ⟨_, hpage, hwindow⟩
  have hmust : reader.mustLoad s node = true ↔ locator.pageIndex.toNat ∉ s.loadedPages ∨
      (reader.isHot window || s.windowCache.containsKey window.offset) = false := by
    simp [mustLoad, hpage, hwin, windowHeld]
  refine ⟨_, window, hpage, hwin, ?_, ?_⟩
  · by_cases hhot : reader.isHot window = true
    · simp [coldWindows, hwin, hhot]
    · simp [coldWindows, hwin, hhot]
  · intro p
    rw [hmust]
    dsimp only
    split
    · rename_i hneeded
      have hinsert : p ∈ Ordered.insert id locator.pageIndex.toNat plan.pages ↔
          p = locator.pageIndex.toNat ∨ p ∈ plan.pages :=
        Ordered.mem_insert_iff fun _ _ heq => heq
      rw [hinsert, or_comm, and_iff_left hneeded]
    · rename_i hnot
      exact (or_iff_left fun h => hnot h.2).symm

theorem planNodes_eq_ok {plan plan' : RoundPlan}
    (h : nodes.foldlM (planNode reader s) plan = .ok plan') :
    (∀ node ∈ nodes, ∃ window, reader.windowOf node = some window) ∧
      plan'.requiredWindows = plan.requiredWindows ++ reader.coldWindows nodes ∧
      ∀ p, p ∈ plan'.pages ↔ p ∈ plan.pages ∨
        ∃ node ∈ nodes, reader.pageOf node = some p ∧ reader.mustLoad s node = true := by
  induction nodes generalizing plan with
  | nil =>
    cases h
    simp [coldWindows]
  | cons node rest ih =>
    rw [foldlM_cons, bind_eq_ok] at h
    obtain ⟨plan₁, hnode, hrest⟩ := h
    obtain ⟨page, window, hpage, hwindow, hrequired, hpages⟩ := planNode_eq_ok hnode
    obtain ⟨hwindows, hrequired', hpages'⟩ := ih hrest
    refine ⟨?_, ?_, ?_⟩
    · intro m hm
      rcases mem_cons.mp hm with rfl | hmem
      · exact ⟨window, hwindow⟩
      · exact hwindows m hmem
    · have hsplit : reader.coldWindows (node :: rest) =
          reader.coldWindows [node] ++ reader.coldWindows rest := by
        rw [coldWindows, coldWindows, coldWindows, ← filter_append, ← filterMap_append,
          singleton_append]
      rw [hrequired', hrequired, hsplit, append_assoc]
    · intro p
      rw [hpages', hpages, exists_mem_cons_iff, hpage, Option.some.injEq, or_assoc,
        eq_comm (a := p)]

theorem planned_windows_perm {pages : List Nat}
    (hpages : ∀ p, p ∈ pages ↔ ∃ node ∈ nodes, reader.pageOf node = some p ∧
      reader.mustLoad s node = true) :
    ((reader.planner.planLogicalPages pages).filter fun window => !reader.isHot window).Perm
      (reader.readWindows s nodes) := by
  have hnd : (reader.planner.planLogicalPages pages).Nodup := Ordered.collect_nodup _
  rw [readWindows, perm_ext_iff_of_nodup (hnd.filter _) (nodup_dedup _)]
  intro window
  rw [mem_dedup, mem_coldWindows, mem_filter,
    ReadWindowPlanner.mem_planLogicalPages, Bool.not_eq_true']
  refine and_congr_left fun _ => ?_
  constructor
  · rintro ⟨page, hpage, hwindow⟩
    obtain ⟨node, hnode, hof, hmust⟩ := (hpages page).mp hpage
    exact ⟨node, mem_filter.mpr ⟨hnode, hmust⟩, windowOf_eq_some.mpr ⟨page, hof, hwindow⟩⟩
  · rintro ⟨node, hnode, hwindow⟩
    obtain ⟨hmem, hmust⟩ := mem_filter.mp hnode
    obtain ⟨page, hof, hplanned⟩ := windowOf_eq_some.mp hwindow
    exact ⟨page, (hpages page).mpr ⟨node, hmem, hof, hmust⟩, hplanned⟩

theorem foldl_length (windows : List ReadWindow) (total : Nat) :
    windows.foldl (fun total window => total + window.length) total =
      total + (windows.map ReadWindow.length).sum := by
  induction windows generalizing total with
  | nil => simp
  | cons window rest ih =>
    rw [foldl_cons, ih, map_cons, sum_cons, Nat.add_assoc]

end Plan

section Load

variable {World : Type} {env : QueryEnvironment World} {reader : DiskAnnReader}
  {s s' : QueryState World} {rounds : Nat} {nodes : List Nat}

theorem page_loaded_of_not_mustLoad {page : Nat} (hpage : reader.pageOf node = some page)
    (h : reader.mustLoad s node = false) : page ∈ s.loadedPages := by
  by_contra hnot
  simp [mustLoad, hpage, hnot] at h

theorem pages_empty_iff {pages : List Nat}
    (hwindows : ∀ node ∈ nodes, ∃ window, reader.windowOf node = some window)
    (hpages : ∀ p, p ∈ pages ↔
      ∃ node ∈ nodes, reader.pageOf node = some p ∧ reader.mustLoad s node = true) :
    pages = [] ↔ nodes.any (reader.mustLoad s) = false := by
  rw [any_eq_false]
  constructor
  · intro hempty node hnode hmust
    obtain ⟨window, hwindow⟩ := hwindows node hnode
    obtain ⟨page, hpage, -⟩ := windowOf_eq_some.mp hwindow
    have hin := (hpages page).mpr ⟨node, hnode, hpage, hmust⟩
    rw [hempty] at hin
    cases hin
  · intro hnone
    rw [eq_nil_iff_forall_not_mem]
    intro page hpage
    obtain ⟨node, hnode, -, hmust⟩ := (hpages page).mp hpage
    exact hnone node hnode hmust

theorem loadAdjacencyPages_eq_ok
    (h : Effect.run (loadAdjacencyPages env reader rounds nodes) s = (.ok (), s')) :
    (∀ node ∈ nodes, ∃ window, reader.windowOf node = some window) ∧
      (∀ node ∈ nodes, ∀ page, reader.pageOf node = some page → page ∈ s'.loadedPages) ∧
      (nodes.any (reader.mustLoad s) = false ∧ s' = s ∨
        nodes.any (reader.mustLoad s) = true ∧ ∀ offset,
          (s'.windowCache.containsKey offset = true ↔
            (prepareAdjacencyWindowCache (reader.coldWindows nodes)
              (reader.incomingBytes s nodes) s.windowCache s.windowBuffers).1.containsKey
                offset = true ∨
            offset ∈ (reader.readWindows s nodes).map ReadWindow.offset)) := by
  obtain ⟨_, _, hget, h⟩ := run_bind_eq_ok.mp h
  cases hget
  obtain ⟨plan, s₁, hplan, h⟩ := run_bind_eq_ok.mp h
  rw [Effect.run_lift, Prod.mk.injEq] at hplan
  obtain ⟨hplan, rfl⟩ := hplan
  obtain ⟨hwindows, hrequired, hpages⟩ := planNodes_eq_ok hplan
  simp only [List.nil_append, List.not_mem_nil, false_or] at hrequired hpages
  have hperm := planned_windows_perm hpages
  have hempty := pages_empty_iff hwindows hpages
  refine ⟨hwindows, ?_⟩
  split at h
  · rename_i hnil
    have hnone := hempty.mp (List.isEmpty_iff.mp hnil)
    cases h
    refine ⟨fun node hnode page hpage => ?_, .inl ⟨hnone, rfl⟩⟩
    exact page_loaded_of_not_mustLoad hpage
      (Bool.eq_false_iff.mpr (List.any_eq_false.mp hnone node hnode))
  · rename_i hne
    have hsome : nodes.any (reader.mustLoad s) = true := by
      rw [← Bool.not_eq_false, ← hempty, ← List.isEmpty_iff]
      exact hne
    obtain ⟨_, s₂, hprepare, h⟩ := run_bind_eq_ok.mp h
    obtain ⟨_, s₃, hload, hvalidate⟩ := run_bind_eq_ok.mp h
    obtain ⟨hcache, hkept, hmarked⟩ := validatePages_loaded hvalidate
    have hloadPages := ((moves_loadAdjacencyWindows rounds _).of_run hload).pages
    have hincoming : ((reader.planner.planLogicalPages plan.pages).filter
          (fun window => !reader.isHot window) |>.filter
          fun window => !s.windowCache.containsKey window.offset).foldl
        (fun total window => total + window.length) 0 = reader.incomingBytes s nodes := by
      rw [foldl_length, Nat.zero_add, incomingBytes]
      exact ((hperm.filter _).map _).sum_nat
    cases hprepare
    refine ⟨fun node hnode page hpage => ?_, .inr ⟨hsome, fun offset => ?_⟩⟩
    · by_cases hmust : reader.mustLoad s node = true
      · exact hmarked page ((hpages page).mpr ⟨node, hnode, hpage, hmust⟩)
      · have hold := page_loaded_of_not_mustLoad hpage (Bool.eq_false_iff.mpr hmust)
        rw [hloadPages] at hkept
        exact hkept hold
    · rw [hcache, loadAdjacencyWindows_containsKey hload offset, (hperm.map _).mem_iff,
        hrequired, hincoming]
      exact Iff.rfl

end Load

end PaimonVindex
