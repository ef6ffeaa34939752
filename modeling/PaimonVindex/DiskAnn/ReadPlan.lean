import PaimonVindex.DiskAnn.Header
import PaimonVindex.Lib.Ordered

/-! How wide a query reads: the plan of a deployment profile, bounded by the
capabilities of the input, and the windows that cover logical pages. -/

namespace PaimonVindex

open Checked

inductive DeploymentProfile where
  | auto
  | memory
  | localStorage
  | remoteStorage
  | objectStore
  deriving DecidableEq, Repr

structure ReadPlan where
  windowBytes : Nat
  graphBeamWidth : Nat
  filteredGraphBeamWidth : Nat
  deriving DecidableEq, Repr

def DeploymentProfile.readPlan : DeploymentProfile → ReadPlan
  | .auto | .localStorage => ⟨16 * 1024, 4, 4⟩
  | .memory => ⟨4 * 1024, 16, 4⟩
  | .remoteStorage => ⟨32 * 1024, 16, 4⟩
  | .objectStore => ⟨64 * 1024, 16, 4⟩

/-- What an input says about itself; zero is no hint. -/
structure SeekReadCapabilities where
  preferredWindowBytes : Nat
  maxRangesPerPread : Nat
  deriving DecidableEq, Repr

namespace ReadPlan

def boundedWindowBytes (windowBytes : Nat) : Nat :=
  let windowBytes := max (4 * 1024) (min windowBytes (1024 * 1024))
  let windowBytes := (windowBytes + (4 * 1024 - 1)) / (4 * 1024) * (4 * 1024)
  min windowBytes (1024 * 1024)

def boundedBeamWidth (width maxRanges : Nat) : Nat :=
  if maxRanges > 0 then max (min width maxRanges) 1 else width

def withCapabilities (plan : ReadPlan) (capabilities : SeekReadCapabilities) : ReadPlan :=
  let windowBytes :=
    if capabilities.preferredWindowBytes > 0 then capabilities.preferredWindowBytes
    else plan.windowBytes
  { windowBytes := boundedWindowBytes windowBytes
    graphBeamWidth := boundedBeamWidth plan.graphBeamWidth capabilities.maxRangesPerPread
    filteredGraphBeamWidth :=
      boundedBeamWidth plan.filteredGraphBeamWidth capabilities.maxRangesPerPread }

theorem boundedWindowBytes_spec (windowBytes : Nat) :
    diskannPageSize ∣ boundedWindowBytes windowBytes ∧
      diskannPageSize ≤ boundedWindowBytes windowBytes ∧
      boundedWindowBytes windowBytes ≤ 1024 * 1024 := by
  rw [boundedWindowBytes, diskannPageSize]
  omega

theorem withCapabilities_windowBytes (plan : ReadPlan) (capabilities : SeekReadCapabilities) :
    diskannPageSize ∣ (plan.withCapabilities capabilities).windowBytes ∧
      diskannPageSize ≤ (plan.withCapabilities capabilities).windowBytes ∧
      (plan.withCapabilities capabilities).windowBytes ≤ 1024 * 1024 :=
  boundedWindowBytes_spec _

end ReadPlan

@[ext] structure ReadWindow where
  offset : Nat
  length : Nat
  deriving DecidableEq, Repr

/-- Windows of `count` units, cut off at the end of the section. -/
def gridWindow (s : SectionRange) (unit count i : Nat) : ReadWindow :=
  ⟨s.offset + i / count * count * unit, min (count * unit) (s.length - i / count * count * unit)⟩

/-- The windows that are read for some pages or records of a section. -/
structure PlansWindows (s : SectionRange) (unit : Nat) (items : List Nat)
    (windows : List ReadWindow) : Prop where
  inside : ∀ w ∈ windows, s.offset ≤ w.offset ∧ w.offset < s.offset + s.length ∧
    w.offset + w.length ≤ s.offset + s.length
  covers : ∀ i ∈ items, (i + 1) * unit ≤ s.length → ∃ w ∈ windows,
    w.offset ≤ s.offset + i * unit ∧ s.offset + (i + 1) * unit ≤ w.offset + w.length
  separate : ∀ v ∈ windows, ∀ w ∈ windows,
    v = w ∨ v.offset + v.length ≤ w.offset ∨ w.offset + w.length ≤ v.offset

section Grid

variable {s : SectionRange} {unit count : Nat}

theorem gridWindow_inside {i : Nat} (h : i * unit < s.length) :
    s.offset ≤ (gridWindow s unit count i).offset ∧
      (gridWindow s unit count i).offset < s.offset + s.length ∧
      (gridWindow s unit count i).offset + (gridWindow s unit count i).length ≤
        s.offset + s.length := by
  have hstart : i / count * count * unit ≤ i * unit :=
    Nat.mul_le_mul_right unit (Nat.div_mul_le_self i count)
  simp only [gridWindow]
  omega

theorem gridWindow_covers (hcount : 0 < count) {i : Nat} (h : (i + 1) * unit ≤ s.length) :
    (gridWindow s unit count i).offset ≤ s.offset + i * unit ∧
      s.offset + (i + 1) * unit ≤
        (gridWindow s unit count i).offset + (gridWindow s unit count i).length := by
  have hstart : i / count * count * unit ≤ i * unit :=
    Nat.mul_le_mul_right unit (Nat.div_mul_le_self i count)
  have hnext : (i + 1) * unit ≤ (i / count * count + count) * unit :=
    Nat.mul_le_mul_right unit (Nat.lt_div_mul_add hcount)
  rw [Nat.add_mul (i / count * count)] at hnext
  simp only [gridWindow]
  omega

theorem gridWindow_before {i j : Nat} (h : i / count < j / count) :
    (gridWindow s unit count i).offset + (gridWindow s unit count i).length ≤
      (gridWindow s unit count j).offset := by
  have hnext : (i / count + 1) * count * unit ≤ j / count * count * unit :=
    Nat.mul_le_mul_right unit (Nat.mul_le_mul_right count h)
  rw [Nat.succ_mul, Nat.add_mul] at hnext
  simp only [gridWindow]
  omega

theorem gridWindow_ext {i j : Nat}
    (h : (gridWindow s unit count i).offset = (gridWindow s unit count j).offset) :
    gridWindow s unit count i = gridWindow s unit count j := by
  have hstart : i / count * count * unit = j / count * count * unit := Nat.add_left_cancel h
  rw [gridWindow, gridWindow, hstart]

theorem plansWindows_of_grid {windowOf : Nat → Option ReadWindow} (hunit : 0 < unit)
    (hcount : 0 < count) (hwindow : ∀ i w, windowOf i = some w ↔
      i * unit < s.length ∧ w = gridWindow s unit count i) (items : List Nat) :
    PlansWindows s unit items (Ordered.collect ReadWindow.offset (items.filterMap windowOf)) := by
  have hmem : ∀ w, w ∈ Ordered.collect ReadWindow.offset (items.filterMap windowOf) ↔
      ∃ i ∈ items, i * unit < s.length ∧ w = gridWindow s unit count i := by
    intro w
    rw [Ordered.mem_collect]
    · simp only [List.mem_filterMap, hwindow]
    · intro v hv w hw hoffset
      simp only [List.mem_filterMap, hwindow] at hv hw
      obtain ⟨i, -, -, rfl⟩ := hv
      obtain ⟨j, -, -, rfl⟩ := hw
      exact gridWindow_ext hoffset
  constructor
  · intro w hw
    obtain ⟨i, -, hi, rfl⟩ := (hmem w).mp hw
    exact gridWindow_inside hi
  · intro i hi hin
    rw [Nat.succ_mul] at hin
    refine ⟨_, (hmem _).mpr ⟨i, hi, by omega, rfl⟩, gridWindow_covers hcount ?_⟩
    rwa [Nat.succ_mul]
  · intro v hv w hw
    obtain ⟨i, -, -, rfl⟩ := (hmem v).mp hv
    obtain ⟨j, -, -, rfl⟩ := (hmem w).mp hw
    rcases Nat.lt_trichotomy (i / count) (j / count) with hlt | heq | hgt
    · exact .inr (.inl (gridWindow_before hlt))
    · exact .inl (by rw [gridWindow, gridWindow, heq])
    · exact .inr (.inr (gridWindow_before hgt))

end Grid

structure ReadWindowPlanner where
  plan : ReadPlan
  sectionRange : SectionRange

variable {w : ReadWindow}

namespace ReadWindowPlanner

def windowForLogicalPage (planner : ReadWindowPlanner) (logicalPage : Nat) : Option ReadWindow := do
  let windowSize := planner.plan.windowBytes
  let relativePage ← checkedMul logicalPage diskannPageSize
  if relativePage ≥ planner.sectionRange.length then none
  else
    let relativeWindow := relativePage / windowSize * windowSize
    let length := min windowSize (planner.sectionRange.length - relativeWindow)
    some ⟨planner.sectionRange.offset + relativeWindow, length⟩

def planLogicalPages (planner : ReadWindowPlanner) (logicalPages : List Nat) : List ReadWindow :=
  Ordered.collect ReadWindow.offset (logicalPages.filterMap planner.windowForLogicalPage)

variable {planner : ReadWindowPlanner}

theorem windowForLogicalPage_eq_some {page : Nat} :
    planner.windowForLogicalPage page = some w ↔
      page * diskannPageSize < wordSize ∧
        page * diskannPageSize < planner.sectionRange.length ∧
        w.offset = planner.sectionRange.offset +
          page * diskannPageSize / planner.plan.windowBytes * planner.plan.windowBytes ∧
        w.length = min planner.plan.windowBytes (planner.sectionRange.length -
          page * diskannPageSize / planner.plan.windowBytes * planner.plan.windowBytes) := by
  obtain ⟨offset, length⟩ := w
  simp only [windowForLogicalPage, Option.bind_eq_bind, Option.bind_eq_some_iff,
    checkedMul_eq_some]
  constructor
  · rintro ⟨relative, ⟨hrel, hlt⟩, hsome⟩
    subst hrel
    split at hsome
    · cases hsome
    · rename_i hin
      cases hsome
      exact ⟨hlt, by omega, rfl, rfl⟩
  · rintro ⟨hlt, hin, hoff, hlen⟩
    refine ⟨_, ⟨rfl, hlt⟩, ?_⟩
    rw [if_neg (by omega), hoff, hlen]

theorem window_ext {p q : Nat} {v : ReadWindow} (hv : planner.windowForLogicalPage p = some v)
    (hw : planner.windowForLogicalPage q = some w) (h : v.offset = w.offset) : v = w := by
  obtain ⟨-, -, hvo, hvl⟩ := windowForLogicalPage_eq_some.mp hv
  obtain ⟨-, -, hwo, hwl⟩ := windowForLogicalPage_eq_some.mp hw
  have hlength : v.length = w.length := by omega
  cases v
  cases w
  simp_all

theorem windows_keyed (planner : ReadWindowPlanner) (pages : List Nat) :
    ∀ v ∈ pages.filterMap planner.windowForLogicalPage,
      ∀ w ∈ pages.filterMap planner.windowForLogicalPage, v.offset = w.offset → v = w := by
  intro v hv w hw h
  obtain ⟨p, -, hp⟩ := List.mem_filterMap.mp hv
  obtain ⟨q, -, hq⟩ := List.mem_filterMap.mp hw
  exact window_ext hp hq h

theorem mem_planLogicalPages {pages : List Nat} :
    w ∈ planner.planLogicalPages pages ↔
      ∃ page ∈ pages, planner.windowForLogicalPage page = some w := by
  rw [planLogicalPages, Ordered.mem_collect (windows_keyed planner pages), List.mem_filterMap]

/-- Pages lie in a grid whose windows are whole pages. -/
theorem windowForLogicalPage_grid {count : Nat}
    (hpages : planner.plan.windowBytes = diskannPageSize * count) {page : Nat} :
    planner.windowForLogicalPage page = some w ↔
      page * diskannPageSize < wordSize ∧ page * diskannPageSize < planner.sectionRange.length ∧
        w = gridWindow planner.sectionRange diskannPageSize count page := by
  have hstart : page * diskannPageSize / (diskannPageSize * count) * (diskannPageSize * count) =
      page / count * count * diskannPageSize := by
    rw [Nat.mul_comm page, Nat.mul_div_mul_left _ _ (by decide)]
    ring
  rw [windowForLogicalPage_eq_some, hpages, hstart, Nat.mul_comm diskannPageSize]
  simp only [gridWindow, ReadWindow.ext_iff]

theorem page_in_window {page : Nat} (hw : planner.windowForLogicalPage page = some w)
    (hpages : diskannPageSize ∣ planner.plan.windowBytes) (hpos : 0 < planner.plan.windowBytes)
    (haligned : diskannPageSize ∣ planner.sectionRange.length) :
    w.offset ≤ planner.sectionRange.offset + page * diskannPageSize ∧
      planner.sectionRange.offset + page * diskannPageSize + diskannPageSize ≤
        w.offset + w.length := by
  obtain ⟨count, hcount⟩ := hpages
  obtain ⟨pages, haligned⟩ := haligned
  obtain ⟨-, hin, rfl⟩ := (windowForLogicalPage_grid hcount).mp hw
  rw [hcount] at hpos
  have hwhole : (page + 1) * diskannPageSize ≤ planner.sectionRange.length := by
    simp only [diskannPageSize] at hin haligned ⊢
    omega
  have hcovers := gridWindow_covers (Nat.pos_of_mul_pos_left hpos) hwhole
  rwa [Nat.succ_mul, ← Nat.add_assoc] at hcovers

end ReadWindowPlanner

structure VectorWindowPlanner where
  sectionRange : SectionRange
  recordSize : Nat
  recordsPerWindow : Nat

namespace VectorWindowPlanner

def new (plan : ReadPlan) (sectionRange : SectionRange) (recordSize : Nat) :
    IoResult VectorWindowPlanner := do
  rejectIf (recordSize = 0)
    (invalidData "DiskANN raw-vector record size must be greater than zero")
  return ⟨sectionRange, recordSize, max (plan.windowBytes / recordSize) 1⟩

def windowForNode (planner : VectorWindowPlanner) (node : Nat) : Option ReadWindow := do
  let recordOffset ← checkedMul node planner.recordSize
  if recordOffset ≥ planner.sectionRange.length then none
  else
    let firstNode := node / planner.recordsPerWindow * planner.recordsPerWindow
    let relativeOffset ← checkedMul firstNode planner.recordSize
    let maximumLength ← checkedMul planner.recordsPerWindow planner.recordSize
    let remaining := planner.sectionRange.length - relativeOffset
    let offset ← checkedAdd planner.sectionRange.offset relativeOffset
    some ⟨offset, min maximumLength remaining⟩

def planNodes (planner : VectorWindowPlanner) (nodes : List Nat) : List ReadWindow :=
  Ordered.collect ReadWindow.offset (nodes.filterMap planner.windowForNode)

def record (planner : VectorWindowPlanner) (window : ReadWindow) (payload : List UInt8)
    (node : Nat) : IoResult (List UInt8) := do
  let recordOffset ← okOr (checkedMul node planner.recordSize)
    (invalidData "DiskANN raw-vector offset overflows")
  let absoluteOffset ← okOr (checkedAdd planner.sectionRange.offset recordOffset)
    (invalidData "DiskANN raw-vector offset overflows")
  let relativeOffset ← okOr (checkedSub absoluteOffset window.offset)
    (invalidData "DiskANN raw-vector window starts after its record")
  let recordEnd ← okOr (checkedAdd relativeOffset planner.recordSize)
    (invalidData "DiskANN raw-vector record range overflows")
  okOr (getRange payload relativeOffset recordEnd)
    (invalidData "DiskANN raw-vector record is truncated")

variable {s : SectionRange} {recordSize count : Nat}

theorem windowForNode_eq_some (hs : s.offset + s.length < wordSize)
    (hwindow : count * recordSize < wordSize) (node : Nat) (w : ReadWindow) :
    windowForNode ⟨s, recordSize, count⟩ node = some w ↔
      node * recordSize < s.length ∧ w = gridWindow s recordSize count node := by
  have hstart : node / count * count * recordSize ≤ node * recordSize :=
    Nat.mul_le_mul_right recordSize (Nat.div_mul_le_self node count)
  by_cases hin : node * recordSize < s.length
  · have hfound : windowForNode ⟨s, recordSize, count⟩ node =
        some (gridWindow s recordSize count node) := by
      simp only [windowForNode, Option.bind_eq_bind, checkedMul_of_lt (show node * recordSize <
        wordSize by omega), Option.bind_some, if_neg (Nat.not_le.mpr hin), checkedMul_of_lt hwindow,
        checkedMul_of_lt (show node / count * count * recordSize < wordSize by omega),
        checkedAdd_of_lt (show s.offset + node / count * count * recordSize < wordSize by omega)]
      rfl
    rw [hfound, Option.some.injEq, eq_comm, and_iff_right hin]
  · refine ⟨fun h => ?_, fun h => absurd h.1 hin⟩
    simp only [windowForNode, Option.bind_eq_bind, Option.bind_eq_some_iff,
      checkedMul_eq_some] at h
    obtain ⟨_, ⟨rfl, -⟩, h⟩ := h
    rw [if_pos (Nat.not_lt.mp hin)] at h
    cases h

theorem record_eq (hs : s.offset + s.length < wordSize) (hcount : 0 < count) {node : Nat}
    (hin : (node + 1) * recordSize ≤ s.length) (hw : w = gridWindow s recordSize count node)
    {file : List UInt8} (hfile : w.offset + w.length ≤ file.length) :
    record ⟨s, recordSize, count⟩ w ((file.drop w.offset).take w.length) node =
      .ok ((file.drop (s.offset + node * recordSize)).take recordSize) := by
  obtain ⟨hstart, hstop⟩ := gridWindow_covers hcount hin
  rw [← hw, Nat.succ_mul] at hstop
  rw [← hw] at hstart
  rw [Nat.succ_mul] at hin
  have hrange : getRange ((file.drop w.offset).take w.length)
      (s.offset + node * recordSize - w.offset)
      (s.offset + node * recordSize - w.offset + recordSize) =
        some ((file.drop (s.offset + node * recordSize)).take recordSize) := by
    rw [getRange_of_le (by omega) (by rw [List.length_take, List.length_drop]; omega),
      List.drop_take, List.drop_drop, List.take_take, Nat.add_sub_of_le hstart,
      Nat.add_sub_cancel_left, Nat.min_eq_left (by omega)]
  rw [record, checkedMul_bind (by dsimp only; omega), checkedAdd_bind (by dsimp only; omega),
    checkedSub_of_le hstart]
  exact (checkedAdd_bind (by dsimp only; omega)).trans (congrArg (okOr · _) hrange)

/-- Page windows and record windows of one section lie inside it, do not overlap, and hold whole
every page and record asked for; a record is cut out of the content of its window. -/
theorem read_windows_cover (plan : ReadPlan) (capabilities : SeekReadCapabilities)
    (s : SectionRange) (hs : s.offset + s.length < wordSize) :
    (∀ pages, PlansWindows s diskannPageSize pages
      (ReadWindowPlanner.planLogicalPages ⟨plan.withCapabilities capabilities, s⟩ pages)) ∧
    ∀ recordSize, 0 < recordSize → recordSize < wordSize → ∃ planner,
      new (plan.withCapabilities capabilities) s recordSize = .ok planner ∧
      (∀ nodes, PlansWindows s recordSize nodes (planner.planNodes nodes)) ∧
      ∀ node, (node + 1) * recordSize ≤ s.length → ∃ w, planner.windowForNode node = some w ∧
        ∀ file : List UInt8, s.offset + s.length ≤ file.length →
          planner.record w ((file.drop w.offset).take w.length) node =
            .ok ((file.drop (s.offset + node * recordSize)).take recordSize) := by
  obtain ⟨⟨pageCount, hpages⟩, hpage, hbound⟩ := plan.withCapabilities_windowBytes capabilities
  have hpos : 0 < pageCount := by
    rcases Nat.eq_zero_or_pos pageCount with rfl | h
    · rw [hpages] at hpage
      exact absurd hpage (by decide)
    · exact h
  refine ⟨plansWindows_of_grid (by decide) hpos fun page w => ?_,
    fun recordSize hrecord hfits => ?_⟩
  · rw [ReadWindowPlanner.windowForLogicalPage_grid hpages]
    exact and_iff_right_of_imp fun h => lt_of_lt_of_le h.1 (by dsimp only; omega)
  · let count := max ((plan.withCapabilities capabilities).windowBytes / recordSize) 1
    have hcount : 0 < count := Nat.le_max_right _ 1
    have hwidth : count * recordSize < wordSize := by
      rw [← Nat.mul_max_mul_right, Nat.one_mul]
      refine Nat.max_lt.mpr ⟨lt_of_le_of_lt (Nat.div_mul_le_self _ _) ?_, hfits⟩
      exact lt_of_le_of_lt hbound (by decide)
    have hwindow := windowForNode_eq_some (s := s) hs hwidth
    refine ⟨⟨s, recordSize, count⟩, rejectIf_bind (by omega),
      plansWindows_of_grid hrecord hcount hwindow, ?_⟩
    intro node hin
    have hstart : node * recordSize < s.length := by
      rw [Nat.succ_mul] at hin
      omega
    refine ⟨_, (hwindow node _).mpr ⟨hstart, rfl⟩, fun file hfile => ?_⟩
    have hinside := @gridWindow_inside s recordSize count node hstart
    exact record_eq hs hcount hin rfl (hinside.2.2.trans hfile)

theorem read_windows_cover_two_pages : ∃ planner, new (DeploymentProfile.memory.readPlan
    |>.withCapabilities ⟨5000, 0⟩) ⟨4096, 12288⟩ 10000 = .ok planner ∧
    PlansWindows ⟨4096, 12288⟩ 10000 [0] (planner.planNodes [0]) := by
  obtain ⟨planner, hnew, hplans, -⟩ := (read_windows_cover DeploymentProfile.memory.readPlan
    ⟨5000, 0⟩ ⟨4096, 12288⟩ (by decide)).2 10000 (by decide) (by decide)
  exact ⟨planner, hnew, hplans [0]⟩

end VectorWindowPlanner

end PaimonVindex
