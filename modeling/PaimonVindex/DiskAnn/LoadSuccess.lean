import PaimonVindex.DiskAnn.Accept
import PaimonVindex.DiskAnn.Availability

/-! Without a shared cache, and with an allocator and an input that serve every
request, loading the pages of nodes in range succeeds. -/

namespace PaimonVindex

open Checked Effect ReadWindowPlanner List

/-- The environment grants every buffer, reads `content`, and never knows a page
to be bad. -/
structure QueryEnvironment.Serves {World : Type} (env : QueryEnvironment World)
    (content : Nat → UInt8) : Prop where
  reserves : ∀ world additional, ((env.tryReserve world additional).1).isSome = true
  reads : ∀ world windows, (env.pread world windows).1 = .ok content
  unclaimed : ∀ world page, (env.claimValidation world page).1 = none

def DiskAnnReader.Holds (reader : DiskAnnReader) (content : Nat → UInt8)
    (cache : AdjacencyWindowCache) : Prop :=
  ∀ page window, reader.planner.windowForLogicalPage page = some window →
    ∀ payload, cache.get window.offset = some payload →
      payload.asSlice = fileWindow content window

variable {window : ReadWindow}

namespace DiskAnnReader

def HotHolds (reader : DiskAnnReader) (content : Nat → UInt8) : Prop :=
  ∀ window bytes, reader.hotAdjacencyWindow window = some bytes →
    bytes = fileWindow content window

def pageBytes (reader : DiskAnnReader) (content : Nat → UInt8) (page : Nat) : List UInt8 :=
  (List.range diskannPageSize).map fun position =>
    content (reader.header.sections.adjacency.offset + page * diskannPageSize + position)

variable {reader : DiskAnnReader}

theorem empty_of_hot_nil (h : reader.hotAdjacency = []) {bytes : List UInt8}
    (hbytes : reader.hotAdjacencyWindow window = some bytes) : window.length = 0 ∧ bytes = [] := by
  simp only [hotAdjacencyWindow, h, Option.bind_eq_bind, Option.bind_eq_some_iff,
    checkedSub_eq_some, checkedAdd_eq_some, getRange_eq_some] at hbytes
  obtain ⟨relative, -, finish, ⟨hfinish, -⟩, ⟨-, hle⟩, rfl⟩ := hbytes
  have hzero : finish ≤ 0 := by simpa using hle
  exact ⟨by omega, by simp⟩

theorem hotHolds_of_nil (h : reader.hotAdjacency = []) (content : Nat → UInt8) :
    reader.HotHolds content := by
  intro window bytes hbytes
  obtain ⟨hlength, rfl⟩ := empty_of_hot_nil h hbytes
  simp [fileWindow, hlength]

theorem cold_of_nil (h : reader.hotAdjacency = []) (hlength : 0 < window.length) :
    reader.isHot window = false := by
  cases hhot : reader.hotAdjacencyWindow window with
  | none => simp [isHot, hhot]
  | some bytes =>
    have := (empty_of_hot_nil h hhot).1
    omega

end DiskAnnReader

section Serves

variable {World : Type} {env : QueryEnvironment World} {content : Nat → UInt8}
  {reader : DiskAnnReader} {cache : AdjacencyWindowCache}

theorem resizeTo_total (capacity len : Nat) :
    (resizeTo env capacity len).Total (fun s => s.windowCache = cache)
      fun buffer s => s.windowCache = cache ∧ buffer.bytes.length = len := by
  intro s hs
  rw [resizeTo]
  split
  · exact ⟨_, s, rfl, hs, length_replicate⟩
  · exact ⟨_, _, rfl, hs, length_replicate⟩

variable {page : Nat}

def fillFrom (content : Nat → UInt8) (request : ReadWindow × ByteVec) : ReadWindow × ByteVec :=
  (request.1, request.2.fill fun position => content (request.1.offset + position))

theorem DiskAnnReader.Holds.insert (h : reader.Holds content cache)
    (hplanned : reader.planner.windowForLogicalPage page = some window) {payload : WindowPayload}
    (hpayload : payload.asSlice = fileWindow content window) :
    reader.Holds content (cache.insert window.offset payload) := by
  intro page' window' hplanned' payload' hget
  by_cases hoffset : window'.offset = window.offset
  · obtain rfl := window_ext hplanned' hplanned hoffset
    have hsame : payload = payload' := by
      simpa [AdjacencyWindowCache.get, AdjacencyWindowCache.insert] using hget
    rw [← hsame, hpayload]
  · refine h page' window' hplanned' payload' ?_
    simpa [AdjacencyWindowCache.get, AdjacencyWindowCache.insert, hoffset] using hget

theorem fillFrom_bytes {request : ReadWindow × ByteVec}
    (h : request.2.bytes.length = request.1.length) :
    (fillFrom content request).2.bytes = fileWindow content request.1 := by
  simp only [fillFrom, ByteVec.fill, fileWindow, h]

theorem page_slice (hwindow : reader.planner.windowForLogicalPage page = some window) :
    getRange (fileWindow content window) (reader.pageOffset page window)
      (reader.pageOffset page window + diskannPageSize) = some (reader.pageBytes content page) := by
  obtain ⟨hpages, hleast, -⟩ := ReadPlan.withCapabilities_windowBytes reader.readTier.readPlan
    reader.readCapabilities
  have hpos : 0 < reader.planner.plan.windowBytes := Nat.lt_of_lt_of_le (by decide) hleast
  obtain ⟨hstart, hfinish⟩ := page_in_window hwindow hpages hpos reader.aligned
  have hoffset : window.offset + reader.pageOffset page window =
      reader.header.sections.adjacency.offset + page * diskannPageSize :=
    Nat.add_sub_of_le hstart
  have hlength : (fileWindow content window).length = window.length := by simp [fileWindow]
  have hend : reader.pageOffset page window + diskannPageSize ≤
      (fileWindow content window).length := by
    rw [hlength]
    have hfinish' : reader.header.sections.adjacency.offset + page * diskannPageSize +
      diskannPageSize ≤ window.offset + window.length := hfinish
    omega
  rw [getRange_of_le (Nat.le_add_right _ _) hend, Nat.add_sub_cancel_left, Option.some.injEq]
  apply ext_getElem
  · simp only [length_take, length_drop, DiskAnnReader.pageBytes, length_map,
      length_range]
    omega
  · intro i hi hi'
    simp only [fileWindow, DiskAnnReader.pageBytes, getElem_take, getElem_drop,
      getElem_map, getElem_range]
    rw [← Nat.add_assoc, hoffset]

theorem windowPayload_eq (hhot : reader.HotHolds content) (hcache : reader.Holds content cache)
    (hwindow : reader.planner.windowForLogicalPage page = some window)
    (havailable : reader.isHot window = true ∨ cache.containsKey window.offset = true)
    (missing : IoError) :
    reader.windowPayload cache window missing = .ok (fileWindow content window) := by
  rw [DiskAnnReader.windowPayload]
  cases hbytes : reader.hotAdjacencyWindow window with
  | some bytes => rw [hhot window bytes hbytes]
  | none =>
    have hcold : ¬reader.isHot window = true := by simp [DiskAnnReader.isHot, hbytes]
    obtain ⟨payload, hget⟩ := Option.isSome_iff_exists.mp (havailable.resolve_left hcold)
    have hpayload := hcache page window hwindow payload hget
    rw [AdjacencyWindowCache.get, hget]
    exact congrArg Except.ok hpayload

theorem DiskAnnReader.node_located {node : Nat} (h : node < reader.header.vectorCount) :
    ∃ page window, reader.pageOf node = some page ∧ page < reader.adjacencyPageCount ∧
      reader.planner.windowForLogicalPage page = some window := by
  obtain ⟨hlen, hsteps⟩ := validateAdjacencyIndex_steps reader.accepted
  have hlocator := hsteps.located node (hlen ▸ h)
  have hpage := hsteps.page_lt node (hlen ▸ h)
  rw [AdjacencyIndex.pageOf] at hpage
  generalize reader.adjacencyIndex.locatorAt node = locator at hlocator hpage
  obtain ⟨count, haligned⟩ := reader.aligned
  have hinside : locator.pageIndex.toNat * diskannPageSize <
      reader.header.sections.adjacency.length := by
    rw [haligned, Nat.mul_div_cancel_left _ (by decide)] at hpage
    rw [haligned, Nat.mul_comm diskannPageSize]
    exact Nat.mul_lt_mul_of_pos_right hpage (by decide)
  have hword : locator.pageIndex.toNat * diskannPageSize < wordSize := by
    have := locator.pageIndex.toNat_lt
    simp only [wordSize, diskannPageSize]
    omega
  refine ⟨locator.pageIndex.toNat, ⟨_, _⟩, ?_, hpage,
    windowForLogicalPage_eq_some.mpr ⟨hword, hinside, rfl, rfl⟩⟩
  simp [DiskAnnReader.pageOf, hlocator]

variable {nodes : List Nat}

theorem planNodes_total {s : QueryState World}
    (hnodes : ∀ node ∈ nodes, node < reader.header.vectorCount) (plan : RoundPlan) :
    ∃ plan', nodes.foldlM (planNode reader s) plan = .ok plan' := by
  induction nodes generalizing plan with
  | nil => exact ⟨plan, rfl⟩
  | cons node rest ih =>
    obtain ⟨hnode, hrest⟩ := forall_mem_cons.mp hnodes
    obtain ⟨page, window, hpage, -, hwindow⟩ := reader.node_located hnode
    obtain ⟨locator, hlocator, rfl⟩ := Option.map_eq_some_iff.mp hpage
    have hlocated := (reader.adjacencyLocator_eq_ok).mpr hlocator
    have hplanned := (reader.pageWindow_eq_ok).mpr hwindow
    rw [foldlM_cons, planNode, hlocated, ok_bind]
    dsimp only
    rw [hplanned, ok_bind]
    exact ih hrest _

theorem planNodes_pages {s : QueryState World} {plan : RoundPlan}
    (hnodes : ∀ node ∈ nodes, node < reader.header.vectorCount)
    (h : nodes.foldlM (planNode reader s) ⟨[], []⟩ = .ok plan) :
    ∀ page ∈ plan.pages, page < reader.adjacencyPageCount ∧
      ∃ window, reader.planner.windowForLogicalPage page = some window := by
  intro page hpage
  obtain ⟨-, -, hpages⟩ := planNodes_eq_ok h
  obtain ⟨node, hnode, hof, -⟩ := ((hpages page).mp hpage).resolve_left not_mem_nil
  obtain ⟨page', window, hof', hlt, hwindow⟩ := reader.node_located (hnodes node hnode)
  rw [hof, Option.some.injEq] at hof'
  subst hof'
  exact ⟨hlt, window, hwindow⟩

theorem DiskAnnReader.Holds.prepare (h : reader.Holds content cache) (required : List ReadWindow)
    (incoming : Nat) (pool : WindowBufferPool) :
    reader.Holds content (prepareAdjacencyWindowCache required incoming cache pool).1 :=
  fun page window hwindow payload hget => h page window hwindow payload (prepare_entries hget)

variable (henv : env.Serves content)

include henv

theorem extendBuffer_total (capacity len : Nat) :
    (extendBuffer env capacity len).Total (fun s => s.windowCache = cache)
      fun buffer s => s.windowCache = cache ∧ buffer.bytes.length = len := by
  rw [extendBuffer]
  split
  · refine total_bind (Q := fun granted s => s.windowCache = cache ∧ granted.isSome = true) ?_
      fun granted => ?_
    · intro s hs
      rw [tryReserveExact]
      split
      · exact ⟨_, s, rfl, hs, rfl⟩
      · exact ⟨_, _, rfl, hs, henv.reserves _ _⟩
    · intro s hs
      cases granted with
      | none => cases hs.2
      | some capacity => exact resizeTo_total capacity len s hs.1
  · exact resizeTo_total _ len

theorem takeBuffer_total (len : Nat) :
    (takeBuffer env len).Total (fun s => s.windowCache = cache)
      fun buffer s => s.windowCache = cache ∧ buffer.bytes.length = len := by
  intro s hs
  exact extendBuffer_total henv (s.windowBuffers.takeBuffer len).1 len
    { s with windowBuffers := (s.windowBuffers.takeBuffer len).2 } hs

theorem takeBuffers_total (windows : List ReadWindow) :
    (takeBuffers env windows).Total (fun s => s.windowCache = cache)
      fun requests s => s.windowCache = cache ∧ requests.map Prod.fst = windows ∧
        ∀ request ∈ requests, request.2.bytes.length = request.1.length := by
  induction windows with
  | nil => exact total_pure fun s hs => ⟨hs, rfl, by simp⟩
  | cons window rest ih =>
    intro s hs
    obtain ⟨buffer, s₁, hbuffer, hs₁, hlen⟩ := takeBuffer_total henv window.length s hs
    obtain ⟨requests, s₂, hrest, hs₂, hfst, hlens⟩ := ih s₁ hs₁
    refine ⟨(window, buffer) :: requests, s₂, ?_, hs₂, by rw [map_cons, hfst], ?_⟩
    · rw [takeBuffers, run_bind_ok hbuffer, run_bind_ok hrest]
      rfl
    · intro request hmem
      rcases mem_cons.mp hmem with rfl | hmem
      · exact hlen
      · exact hlens request hmem

theorem pread_total (requests : List (ReadWindow × ByteVec)) :
    (pread env requests).Total (fun s => s.windowCache = cache)
      fun filled s => s.windowCache = cache ∧ filled = requests.map (fillFrom content) := by
  intro s hs
  have hread : run (onWorld fun world => env.pread world (requests.map Prod.fst)) s =
      (.ok (.ok content), { s with world := (env.pread s.world (requests.map Prod.fst)).2 }) := by
    rw [← henv.reads s.world (requests.map Prod.fst)]
    rfl
  refine ⟨requests.map (fillFrom content),
    { s with world := (env.pread s.world (requests.map Prod.fst)).2 }, ?_, hs, rfl⟩
  rw [pread, run_bind_ok hread]
  rfl

theorem preadChunks_total {maxRanges rounds : Nat}
    {requests : List (ReadWindow × ByteVec)} (hmax : maxRanges ≠ 0)
    (hrounds : requests.length ≤ rounds) :
    (preadChunks env maxRanges rounds requests).Total (fun s => s.windowCache = cache)
      fun filled s => s.windowCache = cache ∧ filled = requests.map (fillFrom content) := by
  induction rounds generalizing requests with
  | zero =>
    have hnil := eq_nil_of_length_eq_zero (Nat.le_zero.mp hrounds)
    exact total_pure fun s hs => ⟨hs, by rw [hnil]; rfl⟩
  | succ rounds ih =>
    rw [preadChunks]
    split
    · rename_i hempty
      exact total_pure fun s hs => ⟨hs, by rw [isEmpty_iff.mp hempty]; rfl⟩
    · intro s hs
      have hrest : (requests.drop maxRanges).length ≤ rounds := by
        rw [length_drop]
        omega
      obtain ⟨head, s₁, hhead, hs₁, rfl⟩ := pread_total henv (requests.take maxRanges) s hs
      obtain ⟨tail, s₂, htail, hs₂, rfl⟩ := ih hrest s₁ hs₁
      refine ⟨_, s₂, ?_, hs₂, rfl⟩
      rw [run_bind_ok hhead, run_bind_ok htail, ← map_append,
        take_append_drop]
      rfl

theorem preadRanges_total (requests : List (ReadWindow × ByteVec)) :
    (preadRanges env reader requests).Total (fun s => s.windowCache = cache)
      fun filled s => s.windowCache = cache ∧ filled = requests.map (fillFrom content) := by
  rw [preadRanges]
  split
  · exact pread_total henv requests
  · rename_i hchunked
    exact preadChunks_total henv (fun hzero => hchunked (.inl hzero)) le_rfl

theorem loadUnshared_total {pending : List ReadWindow}
    (hplanned : ∀ window ∈ pending, ∃ page,
      reader.planner.windowForLogicalPage page = some window) :
    (loadUnshared env reader pending).Total (fun s => reader.Holds content s.windowCache)
      fun _ s => reader.Holds content s.windowCache := by
  intro s hs
  obtain ⟨requests, s₁, htake, hs₁, hfst, hlens⟩ := takeBuffers_total henv pending s rfl
  obtain ⟨filled, s₂, hread, hs₂, rfl⟩ := preadRanges_total henv requests s₁ hs₁
  have hattempt : run (attempt (preadRanges env reader requests)) s₁ =
      (.ok (.ok (requests.map (fillFrom content))), s₂) := by
    rw [run_attempt, hread]
  rw [loadUnshared, run_bind_ok htake, run_bind_ok hattempt]
  refine total_forEach (P := fun s => reader.Holds content s.windowCache) ?_ s₂
    (hs₂.symm.subst (motive := reader.Holds content) hs)
  intro request hmem
  obtain ⟨taken, htaken, rfl⟩ := mem_map.mp hmem
  have hin : taken.1 ∈ pending := hfst ▸ mem_map_of_mem htaken
  obtain ⟨page, hpage⟩ := hplanned taken.1 hin
  exact total_modify fun s hs => hs.insert hpage (fillFrom_bytes (hlens taken htaken))

theorem loadAdjacencyWindows_total (hunshared : reader.adjacencyCacheBytes = 0) (rounds : Nat)
    {windows : List ReadWindow}
    (hplanned : ∀ window ∈ windows, ∃ page,
      reader.planner.windowForLogicalPage page = some window) :
    (loadAdjacencyWindows env reader rounds windows).Total
      (fun s => reader.Holds content s.windowCache)
      fun _ s => reader.Holds content s.windowCache := by
  intro s hs
  rw [loadAdjacencyWindows, run_bind_ok (run_get s)]
  dsimp only
  split
  · exact ⟨(), s, rfl, hs⟩
  · exact loadUnshared_total henv
      (fun window hmem => hplanned window (mem_filter.mp hmem).1) s hs

theorem validateAdjacencyPage_total {bytes : List UInt8}
    (hpage : page < reader.adjacencyPageCount)
    (hvalid : validateAdjacencyPagePayload reader.header reader.adjacencyIndex page bytes =
      .ok ()) :
    (validateAdjacencyPage env reader page bytes).Total (fun s => s.windowCache = cache)
      fun _ s => s.windowCache = cache := by
  intro s hs
  have hclaim : run (onWorld fun world => env.claimValidation world page) s =
      (.ok none, { s with world := (env.claimValidation s.world page).2 }) := by
    rw [← henv.unclaimed s.world page]
    rfl
  rw [validateAdjacencyPage, rejectIf_of_not (Nat.not_le.mpr hpage),
    run_bind_ok (run_lift _ _), run_bind_ok hclaim, hvalid]
  exact ⟨(), _, rfl, hs⟩

theorem validateLoadedPage_total (hhot : reader.HotHolds content)
    (hpage : page < reader.adjacencyPageCount)
    (hwindow : reader.planner.windowForLogicalPage page = some window)
    (hvalid : validateAdjacencyPagePayload reader.header reader.adjacencyIndex page
      (reader.pageBytes content page) = .ok ()) (hcache : reader.Holds content cache)
    (havailable : reader.isHot window = true ∨ cache.containsKey window.offset = true) :
    (validateLoadedPage env reader page).Total (fun s => s.windowCache = cache)
      fun _ s => s.windowCache = cache := by
  intro s hs
  have hplanned : reader.pageWindow page = .ok window := reader.pageWindow_eq_ok.mpr hwindow
  obtain ⟨_, s₁, hrun, hs₁⟩ := validateAdjacencyPage_total henv hpage hvalid s hs
  rw [validateLoadedPage, hplanned, run_bind_ok (run_lift _ _),
    run_bind_ok (run_get s), hs, windowPayload_eq hhot hcache hwindow havailable,
    run_bind_ok (run_lift _ _)]
  dsimp only
  rw [page_slice hwindow, okOr_some, run_bind_ok (run_lift _ _),
    run_bind_ok hrun]
  exact ⟨(), _, rfl, hs₁⟩

theorem loadAdjacencyPages_total (hunshared : reader.adjacencyCacheBytes = 0)
    (hhot : reader.HotHolds content)
    (hvalid : ∀ page < reader.adjacencyPageCount,
      validateAdjacencyPagePayload reader.header reader.adjacencyIndex page
      (reader.pageBytes content page) = .ok ()) (rounds : Nat)
    (hnodes : ∀ node ∈ nodes, node < reader.header.vectorCount) :
    (loadAdjacencyPages env reader rounds nodes).Total
      (fun s => reader.Holds content s.windowCache)
      fun _ s => reader.Holds content s.windowCache := by
  intro s hs
  obtain ⟨plan, hplan⟩ := planNodes_total (s := s) hnodes ⟨[], []⟩
  have hpages := planNodes_pages hnodes hplan
  rw [loadAdjacencyPages, run_bind_ok (run_get s), hplan,
    run_bind_ok (run_lift _ _)]
  split
  · exact ⟨(), s, rfl, hs⟩
  · dsimp only
    rw [makeRoom, run_bind_ok (run_modify _ s)]
    have hplanned : ∀ window ∈ (reader.planner.planLogicalPages plan.pages).filter
        (fun window => !reader.isHot window), ∃ page,
          reader.planner.windowForLogicalPage page = some window := by
      intro window hmem
      obtain ⟨page, -, hwindow⟩ :=
        mem_planLogicalPages.mp (mem_filter.mp hmem).1
      exact ⟨page, hwindow⟩
    obtain ⟨_, s₁, hload, hs₁⟩ := loadAdjacencyWindows_total henv hunshared rounds hplanned
      (s.prepared plan.requiredWindows _) (hs.prepare _ _ s.windowBuffers)
    rw [run_bind_ok hload]
    have hloaded := loadAdjacencyWindows_loads hload
    obtain ⟨_, s₂, hrun, hs₂⟩ := total_forEach (P := fun s => s.windowCache = s₁.windowCache)
      (fun page hmem => by
        obtain ⟨hlt, window, hwindow⟩ := hpages page hmem
        refine validateLoadedPage_total henv hhot hlt hwindow (hvalid page hlt) hs₁ ?_
        by_cases hot : reader.isHot window = true
        · exact .inl hot
        · refine .inr (hloaded window (mem_filter.mpr ⟨?_, by simpa using hot⟩))
          exact mem_planLogicalPages.mpr ⟨page, hmem, hwindow⟩) s₁ rfl
    exact ⟨(), s₂, hrun, hs₂ ▸ hs₁⟩

end Serves

end PaimonVindex
