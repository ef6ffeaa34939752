import PaimonVindex.DiskAnn.LoadSuccess
import PaimonVindex.DiskAnn.RoundTrip

/-! The rounds of a query: what a successful load leaves available. -/

namespace PaimonVindex

open Checked Paging List
open DiskAnnReader

section Available

variable {World : Type} {env : QueryEnvironment World} {reader : DiskAnnReader}
  {s s' : QueryState World} {rounds : Nat} {nodes : List Nat}
variable {node : Nat} {window : ReadWindow}

theorem held_of_not_mustLoad (hwindow : reader.windowOf node = some window)
    (h : reader.mustLoad s node = false) :
    reader.isHot window = true ∨ s.windowCache.containsKey window.offset = true := by
  obtain ⟨page, hpage, -⟩ := windowOf_eq_some.mp hwindow
  have hheld : reader.windowHeld s window = true := by
    by_contra hnot
    simp [mustLoad, hpage, hwindow, hnot] at h
  simpa [windowHeld] using hheld

theorem mustLoad_of_unloaded {page : Nat} (hpage : reader.pageOf node = some page)
    (h : page ∉ s.loadedPages) : reader.mustLoad s node = true := by
  simp [mustLoad, hpage, h]

theorem mustLoad_of_missing (hwindow : reader.windowOf node = some window)
    (hcold : reader.isHot window = false)
    (hmissing : s.windowCache.containsKey window.offset = false) :
    reader.mustLoad s node = true := by
  obtain ⟨page, hpage, -⟩ := windowOf_eq_some.mp hwindow
  simp [mustLoad, hpage, hwindow, windowHeld, hcold, hmissing]

theorem not_mustLoad {page : Nat} (hpage : reader.pageOf node = some page)
    (hwindow : reader.windowOf node = some window) (hloaded : page ∈ s.loadedPages)
    (hheld : s.windowCache.containsKey window.offset = true) :
    reader.mustLoad s node = false := by
  simp [mustLoad, hpage, hwindow, windowHeld, hloaded, hheld]

theorem available_iff_roundFits
    (h : Effect.run (loadAdjacencyPages env reader rounds nodes) s = (.ok (), s')) :
    (∀ node ∈ nodes, reader.WindowAvailable s'.windowCache node) ↔ reader.RoundFits s nodes := by
  obtain ⟨hwindows, -, ⟨hnone, rfl⟩ | ⟨hsome, hkeys⟩⟩ := loadAdjacencyPages_eq_ok h
  · constructor
    · intro _ hany
      rw [hnone] at hany
      cases hany
    · intro _ node hnode
      obtain ⟨window, hwindow⟩ := hwindows node hnode
      have hmust := Bool.eq_false_iff.mpr (any_eq_false.mp hnone node hnode)
      exact ⟨window, hwindow, held_of_not_mustLoad hwindow hmust⟩
  · constructor
    · intro havailable _ window hcold hheld hread
      obtain ⟨⟨node, hnode, hwindow⟩, hhot⟩ := mem_coldWindows.mp hcold
      obtain ⟨window', hwindow', hin⟩ := havailable node hnode
      rw [hwindow, Option.some.injEq] at hwindow'
      subst hwindow'
      rw [hhot, or_iff_right Bool.false_ne_true, hkeys] at hin
      rcases hin with hsurvives | hmem
      · exact (prepare_containsKey_iff (mem_map_of_mem hcold) hheld).mp hsurvives
      · obtain ⟨other, hother, hoffset⟩ := mem_map.mp hmem
        obtain ⟨⟨m, -, hm⟩, -⟩ := mem_coldWindows.mp (mem_dedup.mp hother)
        exact absurd (window_ext_of_nodes hm hwindow hoffset ▸ hother) hread
    · intro hfits node hnode
      obtain ⟨window, hwindow⟩ := hwindows node hnode
      refine ⟨window, hwindow, ?_⟩
      by_cases hhot : reader.isHot window = true
      · exact .inl hhot
      · rw [Bool.not_eq_true] at hhot
        have hcold := mem_coldWindows.mpr ⟨⟨node, hnode, hwindow⟩, hhot⟩
        refine .inr ((hkeys window.offset).mpr ?_)
        by_cases hread : window ∈ reader.readWindows s nodes
        · exact .inr (mem_map_of_mem hread)
        · -- a node that had to be loaded would have its window read
          have hmust : reader.mustLoad s node = false := by
            by_contra hmust
            rw [Bool.not_eq_false] at hmust
            refine hread (mem_dedup.mpr (mem_coldWindows.mpr ⟨⟨node, ?_, hwindow⟩, hhot⟩))
            exact mem_filter.mpr ⟨hnode, hmust⟩
          have hheld := (held_of_not_mustLoad hwindow hmust).resolve_left (by simp [hhot])
          exact .inl ((prepare_containsKey_iff (mem_map_of_mem hcold) hheld).mpr
            (hfits hsome window hcold hheld hread))

variable {cache : AdjacencyWindowCache}

theorem windowPayload_of_available
    (h : reader.isHot window = true ∨ cache.containsKey window.offset = true) (missing : IoError) :
    ∃ payload, reader.windowPayload cache window missing = .ok payload := by
  rw [windowPayload]
  cases hbytes : reader.hotAdjacencyWindow window with
  | some bytes => exact ⟨bytes, rfl⟩
  | none =>
    have hcold : ¬reader.isHot window = true := by simp [isHot, hbytes]
    obtain ⟨payload, hget⟩ := Option.isSome_iff_exists.mp (h.resolve_left hcold)
    exact ⟨payload.asSlice, by rw [AdjacencyWindowCache.get, hget]; rfl⟩

/-- Both lookups read the window of the node and go on with its bytes. -/
theorem lookups_eq (cache : AdjacencyWindowCache) (hwindow : reader.windowOf node = some window) :
    (∃ rest : List UInt8 → IoResult (List UInt32), reader.decodeAdjacencyNeighbors cache node =
        (reader.windowPayload cache window decodeWindowMissing >>= rest) ∧
      ∀ payload, Fails (· ≠ decodeWindowMissing) (rest payload)) ∧
    ∃ rest : List UInt8 → IoResult (List UInt8), reader.rerankRecord cache node =
        (reader.windowPayload cache window rerankWindowMissing >>= rest) ∧
      ∀ payload, Fails (· ≠ rerankWindowMissing) (rest payload) := by
  obtain ⟨page, hpage, hplanned⟩ := windowOf_eq_some.mp hwindow
  obtain ⟨locator, hlocator, rfl⟩ := Option.map_eq_some_iff.mp hpage
  rw [decodeAdjacencyNeighbors, rerankRecord, reader.adjacencyLocator_eq_ok.mpr hlocator, ok_bind,
    ok_bind]
  dsimp only
  rw [reader.pageWindow_eq_ok.mpr hplanned, ok_bind, ok_bind]
  refine ⟨⟨_, rfl, fun payload => ?_⟩, _, rfl, fun payload => ?_⟩
  · refine fails_bind (fails_okOr (by decide)) fun bytes _ => ?_
    refine fails_bind (fun e he => ?_) fun _ _ => fails_ok _
    rintro rfl
    exact absurd (decodeAdjacencyList_fails _ _ _ _ he) (by decide)
  · exact fails_bind (fails_okOr (by decide)) fun _ _ => fails_okOr (by decide)

theorem lookups_of_available (h : reader.WindowAvailable cache node) :
    reader.decodeAdjacencyNeighbors cache node ≠ .error decodeWindowMissing ∧
      reader.rerankRecord cache node ≠ .error rerankWindowMissing := by
  obtain ⟨window, hwindow, havailable⟩ := h
  obtain ⟨⟨_, hdecode, hlater⟩, _, hrerank, hlater'⟩ := lookups_eq cache hwindow
  obtain ⟨payload, hpayload⟩ := windowPayload_of_available havailable decodeWindowMissing
  obtain ⟨payload', hpayload'⟩ := windowPayload_of_available havailable rerankWindowMissing
  rw [hdecode, hrerank, hpayload, hpayload', ok_bind, ok_bind]
  exact ⟨fun heq => hlater payload _ heq rfl, fun heq => hlater' payload' _ heq rfl⟩

theorem lookups_of_missing (hwindow : reader.windowOf node = some window)
    (hcold : reader.isHot window = false) (hmissing : cache.containsKey window.offset = false) :
    reader.decodeAdjacencyNeighbors cache node = .error decodeWindowMissing ∧
      reader.rerankRecord cache node = .error rerankWindowMissing := by
  obtain ⟨⟨_, hdecode, -⟩, _, hrerank, -⟩ := lookups_eq cache hwindow
  have hget : cache.get window.offset = none := by
    simpa [AdjacencyWindowCache.containsKey, AdjacencyWindowCache.get] using hmissing
  have hhot : reader.hotAdjacencyWindow window = none := by simpa [isHot] using hcold
  rw [hdecode, hrerank, windowPayload, windowPayload, hhot, hget]
  exact ⟨rfl, rfl⟩

end Available

inductive QueryStep where
  | load (nodes : List Nat)
  | trim (capacityLimit : Nat)

section Run

variable {World : Type} (env : QueryEnvironment World) (reader : DiskAnnReader) (rounds : Nat)

def runStep (s : QueryState World) : QueryStep → QueryState World
  | .load nodes => (Effect.run (loadAdjacencyPages env reader rounds nodes) s).2
  | .trim capacityLimit =>
    let (cache, pool, _) := s.windowCache.trim s.windowBuffers capacityLimit
    { s with windowCache := cache, windowBuffers := pool }

def runQuery (pool : WindowBufferPool) (world : World) (steps : List QueryStep) :
    QueryState World :=
  steps.foldl (runStep env reader rounds) ⟨.empty, ∅, pool, world⟩

end Run

section OneRecordAPage

/-! Interleaved records of which each fills a page, over an all-zero section. -/

/-- Vectors of 1023 components leave room for one edge in their page. -/
def wideHeader : DiskAnnHeader where
  storageLayout := .interleaved
  dimension := 1023
  vectorCount := 2049
  entryNode := 0
  maxDegree := 1
  buildSearchListSize := 1
  pqM := 1
  pqBits := 8
  rawVectorEncoding := .f32
  vectorRecordSize := 4092
  fileLen := 9465856
  sections := {
    codebook := ⟨4096, 1047592⟩
    rowIds := ⟨1051688, 32⟩
    pqCodes := ⟨1051720, 2049⟩
    rowIdOrder := ⟨1053769, 8196⟩
    adjacencyIndex := ⟨1061965, 9228⟩
    adjacency := ⟨1073152, 8392704⟩
    vectors := ⟨9465856, 0⟩ }

def wideGraph : List (List UInt32) := List.replicate 2049 []

/-- The index of records that start at every page. -/
def wideIndex : AdjacencyIndex where
  blockOffsets := (List.range 129).map fun block => UInt64.ofNat (block * 65536 + 4092)
  relativeOffsets := (List.range 2049).map fun node => UInt16.ofNat (node % 16 * 4096)
  degreeAndFlags := List.replicate 2049 0

variable {node : Nat}

theorem wideIndex_relative (h : node < 2049) :
    wideIndex.relativeOffsets[node]? = some (UInt16.ofNat (node % 16 * 4096)) := by
  rw [wideIndex, List.getElem?_map, List.getElem?_range h, Option.map_some]

theorem wideIndex_relative_outside (h : 2049 ≤ node) :
    wideIndex.relativeOffsets[node]? = none := by
  apply List.getElem?_eq_none
  rwa [wideIndex, length_map, length_range]

theorem wideIndex_locator (h : node < 2049) :
    wideIndex.locator node = some ⟨UInt32.ofNat node, 4092, 0⟩ := by
  have hblock : node / 16 < 129 := by omega
  have hblockOffset : (UInt64.ofNat (node / 16 * 65536 + 4092)).toNat =
      node / 16 * 65536 + 4092 := by
    rw [UInt64.toNat_ofNat']
    omega
  have hrelative : (UInt16.ofNat (node % 16 * 4096)).toNat = node % 16 * 4096 := by
    rw [UInt16.toNat_ofNat']
    omega
  have habsolute : node / 16 * 65536 + 4092 + node % 16 * 4096 = node * 4096 + 4092 := by omega
  have hpage : toU32 ((node * 4096 + 4092) / 4096) = some (UInt32.ofNat node) := by
    rw [show (node * 4096 + 4092) / 4096 = node by omega, toU32, if_pos (by omega)]
  have hbyte : toU16 ((node * 4096 + 4092) % 4096) = some 4092 := by
    rw [show (node * 4096 + 4092) % 4096 = 4092 by omega]
    rfl
  have hadd : checkedAdd (node / 16 * 65536 + 4092) (node % 16 * 4096) =
      some (node * 4096 + 4092) := by
    rw [checkedAdd_of_lt (by rw [habsolute, wordSize]; omega), habsolute]
  have hflags : wideIndex.degreeAndFlags[node]? = some 0 := List.getElem?_replicate_of_lt h
  have hblocks : wideIndex.blockOffsets[node / adjacencyLocatorBlockNodes]? =
      some (UInt64.ofNat (node / 16 * 65536 + 4092)) := by
    rw [wideIndex, adjacencyLocatorBlockNodes, List.getElem?_map, List.getElem?_range hblock,
      Option.map_some]
  simp only [AdjacencyIndex.locator, wideIndex_relative h, hflags, hblocks, Option.bind_eq_bind,
    Option.bind_some, hblockOffset, hrelative, hadd, diskannPageSize, hpage, hbyte]
  rfl

theorem wideGraph_get {neighbors : List UInt32} (h : wideGraph[node]? = some neighbors) :
    node < 2049 ∧ neighbors = [] := by
  rw [wideGraph, List.getElem?_replicate] at h
  split at h
  · cases h
    exact ⟨‹_›, rfl⟩
  · cases h

theorem wideIndex_locates : wideIndex.Locates wideGraph 4092 id fun _ => 0 where
  located := by
    intro node neighbors hget
    obtain ⟨hnode, rfl⟩ := wideGraph_get hget
    have hencoding : (⟨UInt32.ofNat node, 4092, 0⟩ : AdjacencyLocator).encoding = .deltaVarint :=
      if_pos (show (0 : UInt16) &&& adjacencyRawU32Flag = 0 by decide)
    refine ⟨_, wideIndex_locator hnode, ?_, by decide, ?_, rfl, ?_⟩
    · rw [hencoding]
      rfl
    · rw [UInt32.toNat_ofNat']
      exact Nat.mod_eq_of_lt (by omega)
    · show ((0 : UInt16) &&& adjacencyDegreeMask).toNat = 0
      decide
  outside := by
    intro node hnode
    rw [wideGraph, length_replicate] at hnode
    simp only [AdjacencyIndex.locator, wideIndex_relative_outside hnode, Option.bind_eq_bind,
      Option.bind_none]
  len := by
    rw [AdjacencyIndex.len, wideIndex, wideGraph, length_map, length_range,
      length_replicate]

theorem wideGraph_getD (node : Nat) : wideGraph.getD node [] = [] := by
  rw [getD_eq_getElem?_getD, wideGraph, List.getElem?_replicate]
  split <;> rfl

theorem wide_nodeSize (node : Nat) : nodeSize wideHeader wideGraph node = 4092 := by
  rw [nodeSize, wideGraph_getD]
  rfl

theorem wide_packing :
    Packing diskannPageSize wideGraph.length (nodeSize wideHeader wideGraph) id fun _ => 0 where
  first _ := ⟨rfl, rfl⟩
  fits i _ := by
    rw [wide_nodeSize]
    decide
  next i _ := .inr ⟨rfl, rfl⟩

theorem wideGraph_invariant : GraphInvariant wideGraph 1 where
  increasing neighbors h := by
    rw [(mem_replicate.mp h).2]
    exact List.Pairwise.nil
  inRange neighbors h := by simp [(mem_replicate.mp h).2]
  noSelf i neighbors h := by simp [(wideGraph_get h).2]
  degree neighbors h := by simp [(mem_replicate.mp h).2]

theorem wideIndex_accepted : validateAdjacencyIndex wideHeader wideIndex = .ok () := by
  have hlen : wideGraph.length = 2049 := length_replicate
  have hsection : wideHeader.sections.adjacency.length = 2049 * diskannPageSize := rfl
  refine validateAdjacencyIndex_accepts wideIndex_locates wide_packing
    wideGraph_invariant.degree ?_ ?_ hsection (by decide) ?_ ?_ ?_ ?_
  · rw [hlen]
    rfl
  · omega
  · rw [hlen]
    rfl
  · rw [wideIndex_locates.len, hlen]
    exact length_replicate
  · rw [wideIndex_locates.len, hlen, wideIndex, length_map, length_range]
    rfl
  · intro node relativeOffset hblock hget
    by_cases hnode : node < 2049
    · rw [wideIndex_relative hnode, show node % 16 = 0 from hblock, Option.some.injEq] at hget
      rw [← hget]
      rfl
    · rw [wideIndex_relative_outside (Nat.not_lt.mp hnode)] at hget
      cases hget

theorem zeroVector_bytes : (List.replicate 1023 F32.zero).flatMap F32.toBytes =
    List.replicate 4092 0 := by
  have hzero : F32.zero.toBytes = List.replicate 4 0 := by decide
  rw [flatMap_replicate, hzero, flatten_replicate_replicate]

theorem wide_validPrefix : ValidPrefix wideHeader (List.replicate 4092 0) := by
  constructor
  · rw [length_replicate]
    rfl
  · intro _
    have hfinite : ∀ x ∈ List.replicate 1023 F32.zero, x.isFinite = true := by
      intro x hx
      rw [(mem_replicate.mp hx).2]
      decide
    have hencode : encodeRawVector (fun _ => 0) (List.replicate 1023 F32.zero) .f32 =
        .ok (List.replicate 4092 0) := by
      rw [← zeroVector_bytes]
      rfl
    exact validateRawVectorBytes_encode hfinite hencode

theorem wide_stored : Stored diskannPageSize wideGraph.length (nodeSize wideHeader wideGraph) id
    (fun _ => 0) (0 : UInt8)
    (fun i => List.replicate 4092 (0 : UInt8) ++ listBytes (wideGraph.getD i []))
    (fun _ => zeroPage) := by
  refine ⟨fun i _ => ?_, fun i _ => ?_, fun i _ _ b hb => ?_⟩
  · rw [zeroPage, length_replicate]
  · have hlast : listBytes [] = [] := rfl
    have hmin : min 4092 diskannPageSize = 4092 := rfl
    rw [wide_nodeSize, wideGraph_getD, hlast, append_nil, drop_zero, zeroPage,
      take_replicate, hmin]
  · rw [zeroPage, drop_replicate] at hb
    exact (mem_replicate.mp hb).2

theorem wide_pages_valid {page : Nat} (h : page < 2049) :
    validateAdjacencyPagePayload wideHeader wideIndex page zeroPage = .ok () := by
  have hlen : wideGraph.length = 2049 := length_replicate
  refine validateAdjacencyPagePayload_accepts wideIndex_locates wide_packing wideGraph_invariant
    hlen.symm (fun _ _ => wide_validPrefix) wide_stored ?_ ?_
  · rw [hlen]
    exact Nat.le_of_lt_succ h
  · omega

/-- An input that asks for windows of one mebibyte; nothing is preloaded and no
window is shared between queries. -/
def wideReader : DiskAnnReader where
  header := wideHeader
  adjacencyIndex := wideIndex
  hotAdjacency := []
  readTier := .objectStore
  readCapabilities := ⟨1024 * 1024, 0⟩
  adjacencyCacheBytes := 0
  accepted := wideIndex_accepted
  aligned := by decide

/-- An allocator that gives what is asked for and an input of zeros. -/
def zeroEnvironment : QueryEnvironment Unit where
  tryReserve _ additional := (some additional, ())
  grow _ _ len := (⟨len, le_rfl⟩, ())
  pread _ _ := (.ok fun _ => 0, ())
  lookupOrReserve _ _ := (.ok .reserved, ())
  publish _ _ _ := (.ok (), ())
  cancel _ _ := (.ok (), ())
  waitFor _ _ := (.ok none, ())
  claimValidation _ _ := (none, ())
  publishValidation _ _ _ := ()

theorem zeroEnvironment_serves : zeroEnvironment.Serves fun _ => 0 :=
  ⟨fun _ _ => rfl, fun _ _ => rfl, fun _ _ => rfl⟩

theorem wideReader_pages_valid : ∀ page < wideReader.adjacencyPageCount,
    validateAdjacencyPagePayload wideReader.header wideReader.adjacencyIndex page
      (wideReader.pageBytes (fun _ => 0) page) = .ok () := by
  intro page hpage
  have hbytes : wideReader.pageBytes (fun _ => 0) page = zeroPage := by
    rw [DiskAnnReader.pageBytes, map_const', length_range, zeroPage]
  rw [hbytes]
  exact wide_pages_valid hpage

theorem wideReader_load {nodes : List Nat} (hnodes : ∀ node ∈ nodes, node < 2049) :
    (loadAdjacencyPages zeroEnvironment wideReader 0 nodes).Total
      (fun s => wideReader.Holds (fun _ => 0) s.windowCache)
      fun _ s => wideReader.Holds (fun _ => 0) s.windowCache :=
  loadAdjacencyPages_total zeroEnvironment_serves rfl (hotHolds_of_nil rfl _)
    wideReader_pages_valid 0 hnodes

theorem wideReader_pageOf (h : node < 2049) : wideReader.pageOf node = some node := by
  have hnode : (UInt32.ofNat node).toNat = node := by
    rw [UInt32.toNat_ofNat']
    exact Nat.mod_eq_of_lt (by omega)
  rw [pageOf, show wideReader.adjacencyIndex = wideIndex from rfl, wideIndex_locator h,
    Option.map_some, hnode]

def wideWindow (node : Nat) : ReadWindow :=
  ⟨1073152 + node / 256 * 1048576, min 1048576 (8392704 - node / 256 * 1048576)⟩

theorem wideReader_windowOf (h : node < 2049) :
    wideReader.windowOf node = some (wideWindow node) := by
  have hplan : wideReader.planner.plan.windowBytes = 1048576 := by decide
  have hsection : wideReader.planner.sectionRange = ⟨1073152, 8392704⟩ := rfl
  have hquotient : node * 4096 / 1048576 = node / 256 := by omega
  rw [windowOf, wideReader_pageOf h, Option.bind_some,
    ReadWindowPlanner.windowForLogicalPage_eq_some, hplan, hsection]
  simp only [diskannPageSize, wordSize, hquotient, wideWindow, and_true]
  omega

theorem wideReader_cold (h : node < 2049) :
    wideReader.isHot (wideWindow node) = false := by
  apply cold_of_nil rfl
  simp only [wideWindow]
  omega

theorem wideReader_coldWindows {nodes : List Nat} (h : ∀ node ∈ nodes, node < 2049) :
    wideReader.coldWindows nodes = nodes.map wideWindow := by
  induction nodes with
  | nil => rfl
  | cons node rest ih =>
    obtain ⟨hnode, hrest⟩ := forall_mem_cons.mp h
    rw [coldWindows, filterMap_cons_some (wideReader_windowOf hnode),
      filter_cons_of_pos (by simp [wideReader_cold hnode]), map_cons, ← ih hrest,
      coldWindows]

theorem wideReader_first_load (pool : WindowBufferPool) :
    ∃ s, runQuery zeroEnvironment wideReader 0 pool () [.load [0]] = s ∧
      wideReader.Holds (fun _ => 0) s.windowCache ∧ 0 ∈ s.loadedPages ∧
      ∀ offset, s.windowCache.containsKey offset = true ↔ offset = 1073152 := by
  have hnodes : ∀ node ∈ [0], node < 2049 := by decide
  have hpage : wideReader.pageOf 0 = some 0 := wideReader_pageOf (by decide)
  obtain ⟨_, s, hrun, hholds⟩ := wideReader_load hnodes ⟨.empty, ∅, pool, ()⟩
    (fun _ _ _ _ hget => nomatch hget)
  have hmust : wideReader.mustLoad (⟨.empty, ∅, pool, ()⟩ : QueryState Unit) 0 = true :=
    mustLoad_of_unloaded hpage (Finset.notMem_empty 0)
  refine ⟨s, congrArg Prod.snd hrun, hholds, ?_⟩
  obtain ⟨-, hpages, ⟨hnone, -⟩ | ⟨-, hkeys⟩⟩ := loadAdjacencyPages_eq_ok hrun
  · rw [any_cons, hmust, Bool.true_or] at hnone
    cases hnone
  · refine ⟨hpages 0 (by simp) 0 hpage, fun offset => ?_⟩
    have hread : wideReader.readWindows (⟨.empty, ∅, pool, ()⟩ : QueryState Unit) [0] =
        [wideWindow 0] := by
      rw [readWindows, filter_cons_of_pos hmust, filter_nil,
        wideReader_coldWindows hnodes]
      rfl
    rw [hkeys, hread]
    constructor
    · rintro (hkept | hmem)
      · obtain ⟨payload, hentry⟩ := Option.isSome_iff_exists.mp hkept
        cases prepare_entries hentry
      · simpa [wideWindow] using hmem
    · rintro rfl
      exact .inr (by simp [wideWindow])

def freshPool : WindowBufferPool := ⟨[], 0, 8 * 1024 * 1024⟩

def spreadNodes : List Nat := [0, 256, 512, 768, 1024, 1280, 1536, 1792, 2048]

theorem spreadNodes_lt : ∀ node ∈ spreadNodes, node < 2049 := by decide

section Spread

variable {s : QueryState Unit} (hloaded : 0 ∈ s.loadedPages)
  (hkeys : ∀ offset, s.windowCache.containsKey offset = true ↔ offset = 1073152)

include hkeys in
theorem spread_missing {node : Nat} (h : 256 ≤ node) :
    s.windowCache.containsKey (wideWindow node).offset = false := by
  rw [← Bool.not_eq_true, hkeys]
  show 1073152 + node / 256 * 1048576 ≠ 1073152
  omega

include hloaded hkeys in
theorem spread_mustLoad :
    spreadNodes.filter (wideReader.mustLoad s) = spreadNodes.tail := by
  have hfirst : wideReader.mustLoad s 0 = false :=
    not_mustLoad (wideReader_pageOf (by decide)) (wideReader_windowOf (by decide)) hloaded
      ((hkeys _).mpr rfl)
  rw [spreadNodes, filter_cons_of_neg (by simp [hfirst]), tail_cons,
    filter_eq_self]
  intro node hnode
  have hlt := spreadNodes_lt node (mem_cons_of_mem _ hnode)
  have hge : 256 ≤ node := by
    revert node
    decide
  exact mustLoad_of_missing (wideReader_windowOf hlt) (wideReader_cold hlt)
    (spread_missing hkeys hge)

include hloaded hkeys in
theorem spread_readWindows :
    wideReader.readWindows s spreadNodes = spreadNodes.tail.map wideWindow := by
  have hlt : ∀ node ∈ spreadNodes.tail, node < 2049 := by decide
  rw [readWindows, spread_mustLoad hloaded hkeys, wideReader_coldWindows hlt]
  decide

include hloaded hkeys in
theorem spread_incomingBytes : wideReader.incomingBytes s spreadNodes = 7344128 := by
  rw [incomingBytes, spread_readWindows hloaded hkeys, filter_eq_self.mpr]
  · decide
  · intro window hwindow
    obtain ⟨node, hnode, rfl⟩ := mem_map.mp hwindow
    have hge : 256 ≤ node := by
      revert node
      decide
    rw [spread_missing hkeys hge]
    rfl

include hkeys in
theorem spread_heldOffsets : wideReader.heldOffsets s spreadNodes = [1073152] := by
  have hfirst : s.windowCache.containsKey (wideWindow 0).offset = true := (hkeys _).mpr rfl
  have hoffsets : ((wideReader.coldWindows spreadNodes).map ReadWindow.offset).filter
      s.windowCache.containsKey = [1073152] := by
    rw [wideReader_coldWindows spreadNodes_lt, spreadNodes, map_cons, map_cons,
      filter_cons_of_pos hfirst, filter_eq_nil_iff.mpr]
    · rfl
    · intro offset hoffset
      obtain ⟨window, hwindow, rfl⟩ := mem_map.mp hoffset
      obtain ⟨node, hnode, rfl⟩ := mem_map.mp hwindow
      have hge : 256 ≤ node := by
        revert node
        decide
      rw [spread_missing hkeys hge]
      exact Bool.false_ne_true
  rw [heldOffsets, hoffsets]
  rfl

end Spread

theorem wideReader_capacity {s : QueryState Unit}
    (hholds : wideReader.Holds (fun _ => 0) s.windowCache)
    (hheld : s.windowCache.containsKey 1073152 = true) :
    1048576 ≤ capacityAt s.windowCache.entries 1073152 := by
  obtain ⟨payload, hget⟩ := Option.isSome_iff_exists.mp hheld
  obtain ⟨page, -, hwindow⟩ := windowOf_eq_some.mp
    (wideReader_windowOf (show 0 < 2049 by decide))
  have hbytes := hholds page _ hwindow payload hget
  have hlength : payload.asSlice.length = 1048576 := by
    rw [hbytes, fileWindow, length_map, length_range]
    rfl
  rw [capacityAt, hget, Option.elim_some, ← hlength]
  cases payload with
  | owned buffer => exact buffer.fits
  | shared buffer => exact buffer.fits

/-- After any steps of a query, a load that succeeds leaves the windows of all its
nodes available, and the lookups that follow find them, exactly when the windows
it relies on fit next to the ones it reads. -/
theorem round_windows_available_iff {World : Type} (env : QueryEnvironment World)
    (reader : DiskAnnReader) (rounds : Nat) (pool : WindowBufferPool) (world : World)
    (steps : List QueryStep) (nodes : List Nat) (s' : QueryState World)
    (hload : Effect.run (loadAdjacencyPages env reader rounds nodes)
      (runQuery env reader rounds pool world steps) = (.ok (), s')) :
    (∀ node ∈ nodes, reader.WindowAvailable s'.windowCache node ∧
        reader.decodeAdjacencyNeighbors s'.windowCache node ≠ .error decodeWindowMissing ∧
        reader.rerankRecord s'.windowCache node ≠ .error rerankWindowMissing) ↔
      reader.RoundFits (runQuery env reader rounds pool world steps) nodes := by
  rw [← available_iff_roundFits hload]
  constructor
  · exact fun h node hnode => (h node hnode).1
  · exact fun h node hnode => ⟨h node hnode, lookups_of_available (h node hnode)⟩

theorem round_windows_available_two :
    ∃ s', Effect.run (loadAdjacencyPages zeroEnvironment wideReader 0 [0, 256])
        (runQuery zeroEnvironment wideReader 0 freshPool () []) = (.ok (), s') ∧
      ∀ node ∈ [0, 256], wideReader.WindowAvailable s'.windowCache node ∧
        wideReader.decodeAdjacencyNeighbors s'.windowCache node ≠ .error decodeWindowMissing ∧
        wideReader.rerankRecord s'.windowCache node ≠ .error rerankWindowMissing := by
  have hnodes : ∀ node ∈ [0, 256], node < 2049 := by decide
  obtain ⟨_, s', hrun, -⟩ := wideReader_load hnodes ⟨.empty, ∅, freshPool, ()⟩
    (fun _ _ _ _ hget => nomatch hget)
  refine ⟨s', hrun, (round_windows_available_iff zeroEnvironment wideReader 0 freshPool () []
    [0, 256] s' hrun).mpr ?_⟩
  intro _ window _ hheld
  cases hheld

/-- The first window is held and needed, the eight windows read next to it leave
too little room, and it is gone when its node is decoded. -/
theorem round_evicts_needed_window :
    ∃ s', Effect.run (loadAdjacencyPages zeroEnvironment wideReader 0 spreadNodes)
        (runQuery zeroEnvironment wideReader 0 freshPool () [.load [0]]) = (.ok (), s') ∧
      ¬wideReader.WindowAvailable s'.windowCache 0 ∧
      wideReader.decodeAdjacencyNeighbors s'.windowCache 0 = .error decodeWindowMissing ∧
      wideReader.rerankRecord s'.windowCache 0 = .error rerankWindowMissing := by
  obtain ⟨s, hstate, hholds, hloaded, hkeys⟩ := wideReader_first_load freshPool
  obtain ⟨_, s', hrun, -⟩ := wideReader_load spreadNodes_lt s hholds
  have hwindow : wideReader.windowOf 0 = some (wideWindow 0) := wideReader_windowOf (by decide)
  have hcold : wideReader.isHot (wideWindow 0) = false := wideReader_cold (by decide)
  have hheld : s.windowCache.containsKey (wideWindow 0).offset = true := (hkeys _).mpr rfl
  have hmissing : s'.windowCache.containsKey (wideWindow 0).offset = false := by
    obtain ⟨-, -, ⟨hnone, -⟩ | ⟨-, hafter⟩⟩ := loadAdjacencyPages_eq_ok hrun
    · have hread : 256 ∈ spreadNodes.filter (wideReader.mustLoad s) := by
        rw [spread_mustLoad hloaded hkeys]
        decide
      exact absurd (mem_filter.mp hread).2 (any_eq_false.mp hnone 256 (by decide))
    · rw [← Bool.not_eq_true, hafter]
      rintro (hsurvives | hmem)
      · have hrequired : (wideWindow 0).offset ∈
            (wideReader.coldWindows spreadNodes).map ReadWindow.offset := by
          rw [wideReader_coldWindows spreadNodes_lt]
          decide
        have hfits := (prepare_containsKey_iff hrequired hheld).mp hsurvives
        have hcapacity := wideReader_capacity hholds hheld
        have horder := spread_heldOffsets hkeys
        rw [heldOffsets] at horder
        have hsince : Recency.since [1073152] (wideWindow 0).offset = [1073152] := by decide
        rw [horder, spread_incomingBytes hloaded hkeys, hsince, Recency.weight_cons,
          Recency.weight_nil, queryAdjacencyWindowLimitBytes] at hfits
        omega
      · rw [spread_readWindows hloaded hkeys] at hmem
        exact absurd hmem (by decide)
  refine ⟨s', hstate ▸ hrun, ?_, lookups_of_missing hwindow hcold hmissing⟩
  rintro ⟨window, hwindow', havailable⟩
  rw [hwindow, Option.some.injEq] at hwindow'
  subst hwindow'
  rw [hcold, hmissing] at havailable
  simp at havailable

end OneRecordAPage

end PaimonVindex
