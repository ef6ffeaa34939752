import PaimonVindex.DiskAnn.Resident
import PaimonVindex.DiskAnn.RowIdCodec
import PaimonVindex.DiskAnn.SharedCache
import PaimonVindex.Lib.Effect

/-! The reader between its searches: the resident data, the lookup by row id and
the preloaded pages arrive one after the other, in any order and with any of the
reads failing, and the two window caches give way to them. -/

namespace PaimonVindex

open Checked Effect SharedWindowCache

inductive RowIdOrderState where
  | notLoaded
  | loaded (order : List UInt32)
  | unavailableByBudget
  deriving DecidableEq, Repr

def RowIdOrderState.bytes : RowIdOrderState → Nat
  | .loaded order => order.length * 4
  | .notLoaded | .unavailableByBudget => 0

structure DiskAnnResidentData extends ResidentSections where
  adjacencyShards : Nat
  adjacencyCache : SharedWindowCache adjacencyShards
  rawVectorShards : Nat
  rawVectorCache : SharedWindowCache rawVectorShards

structure DiskAnnIndexReader where
  header : DiskAnnHeader
  resident : Option DiskAnnResidentData
  options : ResolvedVectorIndexReaderOptions
  hotAdjacency : List UInt8
  rowIdOrder : RowIdOrderState

def RowIdStorage.len : RowIdStorage → Nat
  | .raw rowIds => rowIds.length
  | .forBitPacked _ _ count _ => count

def rowIdKeyLe (left right : Int64 × UInt32) : Bool :=
  left.1 < right.1 ∨ left.1 = right.1 ∧ left.2 ≤ right.2

def validateRowIdOrderFrom (rowIds : RowIdStorage) :
    Option (Int64 × UInt32) → List UInt32 → IoResult Unit
  | _, [] => .ok ()
  | previous, node :: rest => do
    let rowId ← okOr (rowIds.get node.toNat)
      (invalidData "DiskANN row-ID order node is out of range")
    rejectIf (previous.any fun previous => rowIdKeyLe (rowId, node) previous)
      (invalidData "DiskANN row-ID order must be globally strictly increasing")
    validateRowIdOrderFrom rowIds (some (rowId, node)) rest

def validateRowIdOrder (rowIds : RowIdStorage) (order : List UInt32) : IoResult Unit := do
  rejectIf (order.length ≠ rowIds.len)
    (invalidData "DiskANN row-ID order has an invalid node count")
  validateRowIdOrderFrom rowIds none order

def validatePreloadedPages (header : DiskAnnHeader) (index : AdjacencyIndex) :
    Nat → List (List UInt8) → IoResult Unit
  | _, [] => .ok ()
  | pageIndex, page :: pages => do
    validateAdjacencyPagePayload header index pageIndex page
    validatePreloadedPages header index (pageIndex + 1) pages

namespace DiskAnnIndexReader

def openWithOptions (header : DiskAnnHeader) (readTier : DeploymentProfile)
    (options : VectorIndexReaderOptions) : IoResult DiskAnnIndexReader := do
  let steady ← residentSteadyBytes header
  return {
    header := header
    resident := none
    options := options.resolveCacheBudgets readTier steady
      ((fitsIn wordSize header.sections.adjacency.length).getD (wordSize - 1))
      ((fitsIn wordSize header.sections.vectors.length).getD (wordSize - 1))
    hotAdjacency := []
    rowIdOrder := .notLoaded }

def requireResident : Effect IoError DiskAnnIndexReader DiskAnnResidentData := do
  let reader ← get
  lift (okOr reader.resident (invalidData "DiskANN resident sections are not loaded"))

/-- The two shares of `totalBytes`, in proportion to the configured capacities. -/
def splitCacheBudgets (options : ResolvedVectorIndexReaderOptions) (totalBytes : Nat) :
    Nat × Nat :=
  let desiredTotal := saturatingAdd options.adjacencyCacheBytes options.rawVectorCacheBytes
  let totalBytes := min totalBytes desiredTotal
  let adjacencyBytes :=
    if desiredTotal = 0 then 0
    else (fitsIn wordSize (totalBytes * options.adjacencyCacheBytes / desiredTotal)).getD totalBytes
  (adjacencyBytes, totalBytes - adjacencyBytes)

def setCacheCapacities (resident : DiskAnnResidentData) (adjacencyBytes rawBytes : Nat) :
    DiskAnnResidentData :=
  { resident with
    adjacencyCache := resident.adjacencyCache.call (.setTotalCapacity adjacencyBytes)
    rawVectorCache := resident.rawVectorCache.call (.setTotalCapacity rawBytes) }

def resizeSharedCacheBudgets (totalBytes : Nat) : Effect IoError DiskAnnIndexReader Unit := do
  let reader ← get
  let bytes := splitCacheBudgets reader.options totalBytes
  let resident ← requireResident
  modify fun reader => { reader with
    resident := some (setCacheCapacities resident bytes.1 bytes.2) }

def loadedRowIdOrderBytes (reader : DiskAnnIndexReader) : IoResult Nat :=
  match reader.rowIdOrder with
  | .loaded order => okOr (checkedMul order.length 4)
    (invalidData "DiskANN row-ID order size overflows usize")
  | .notLoaded | .unavailableByBudget => .ok 0

def preloadLen (options : ResolvedVectorIndexReaderOptions) (adjacencyLen availableBytes : Nat) :
    Nat :=
  let alignment := diskannAdjacencyPreloadAlignment
  let requested := min options.adjacencyPreloadBytes adjacencyLen
  let requested :=
    min (min ((requested + (alignment - 1)) / alignment * alignment) (wordSize - 1)) adjacencyLen
  let preload := min requested availableBytes
  if preload < adjacencyLen then preload / alignment * alignment else preload

section Calls

variable (decodePqCodebook : List UInt8 → DiskAnnHeader → IoResult Unit) (source : SeekRead)

def ensureResident : Effect IoError DiskAnnIndexReader Unit := do
  let reader ← get
  match reader.resident with
  | some _ => pure ()
  | none => do
    let peakBytes ← lift (residentPeakBytes reader.header)
    lift (rejectIf (peakBytes > reader.options.maxResidentBytes)
      (invalidData ("DiskANN resident warmup requires " ++ toString peakBytes ++
        " bytes, exceeding reader budget " ++ toString reader.options.maxResidentBytes)))
    let sections ← lift (readResidentSections decodePqCodebook source reader.header)
    lift (validatePqCodePadding reader.header sections.pqCodes)
    let _ ← lift (adjacencyPageCount reader.header)
    modify fun reader => { reader with
      resident := some { sections with
        adjacencyShards := _
        adjacencyCache := new reader.options.adjacencyCacheBytes
        rawVectorShards := _
        rawVectorCache := new reader.options.rawVectorCacheBytes } }

/-- Reads, checks and keeps the order; the caches are cut to what is left beside
the peak of the load first, and to what is left beside the order afterwards. -/
def loadRowIdOrder (peakBytes : Nat) : Effect IoError DiskAnnIndexReader (List UInt32) := do
  let reader ← get
  resizeSharedCacheBudgets (reader.options.maxResidentBytes - peakBytes)
  let order ← lift (readU32Section source reader.header.sections.rowIdOrder "row-ID order")
  let resident ← requireResident
  lift (validateRowIdOrder resident.rowIds order)
  modify fun reader => { reader with rowIdOrder := .loaded order }
  let steady ← lift (residentSteadyBytes reader.header)
  let steadyWithOrder ← lift (okOr
    ((checkedAdd steady reader.hotAdjacency.length).bind fun bytes =>
      (checkedMul order.length 4).bind (checkedAdd bytes ·))
    (invalidData "DiskANN filtered resident size overflows usize"))
  resizeSharedCacheBudgets (reader.options.maxResidentBytes - steadyWithOrder)
  return order

def ensureRowIdOrder : Effect IoError DiskAnnIndexReader (Option (List UInt32)) := do
  ensureResident decodePqCodebook source
  let reader ← get
  match reader.rowIdOrder with
  | .loaded order => return some order
  | .unavailableByBudget => return none
  | .notLoaded => do
    let peakBytes ← lift (rowIdOrderPeakBytes reader.header reader.hotAdjacency.length)
    if peakBytes > reader.options.maxResidentBytes then do
      modify fun reader => { reader with rowIdOrder := .unavailableByBudget }
      return none
    else do
      let order ← loadRowIdOrder source peakBytes
      return some order

def preloadAdjacency (preload : Nat) : Effect IoError DiskAnnIndexReader Unit := do
  let reader ← get
  let payload ← lift (readSection source "adjacency preload" reader.header.sections.adjacency.offset
    preload)
  let resident ← requireResident
  lift (validatePreloadedPages reader.header resident.adjacencyIndex 0
    (Words.chunksExact diskannPageSize payload))
  modify fun reader => { reader with hotAdjacency := payload }

def optimizeForSearch : Effect IoError DiskAnnIndexReader Unit := do
  ensureResident decodePqCodebook source
  let reader ← get
  if reader.options.adjacencyPreloadBytes = 0 ∨ reader.hotAdjacency ≠ [] then pure ()
  else do
    let rowIdOrderBytes ← lift reader.loadedRowIdOrderBytes
    let steady ← lift (residentSteadyBytes reader.header)
    let availableBytes := reader.options.maxResidentBytes - steady - rowIdOrderBytes
    let preload :=
      preloadLen reader.options reader.header.sections.adjacency.length availableBytes
    if preload = 0 then resizeSharedCacheBudgets availableBytes
    else do
      resizeSharedCacheBudgets (availableBytes - preload)
      preloadAdjacency source preload

end Calls

end DiskAnnIndexReader

/-- What searches do with a window cache. No buffer is larger than half the
address space. -/
inductive WindowUse where
  | lookupOrReserve (offset length : Nat)
  | publish (offset : Nat) (payload : ByteVec) (sized : payload.capacity < 2 ^ 63)
  | cancel (offsets : List Nat)
  | waitFor (offset length : Nat)

def WindowUse.call : WindowUse → SharedWindowCacheCall
  | lookupOrReserve offset length => .lookupOrReserve offset length
  | publish offset payload _ => .publish offset payload
  | cancel offsets => .cancel offsets
  | waitFor offset length => .waitFor offset length

inductive ReaderCall where
  | ensureResident (source : SeekRead)
  | ensureRowIdOrder (source : SeekRead)
  | optimizeForSearch (source : SeekRead)
  | useAdjacencyCache (use : WindowUse)
  | useRawVectorCache (use : WindowUse)

namespace DiskAnnIndexReader

def useAdjacencyCache (use : WindowUse) (reader : DiskAnnIndexReader) : DiskAnnIndexReader :=
  { reader with
    resident := reader.resident.map fun resident =>
      { resident with adjacencyCache := resident.adjacencyCache.call use.call } }

def useRawVectorCache (use : WindowUse) (reader : DiskAnnIndexReader) : DiskAnnIndexReader :=
  { reader with
    resident := reader.resident.map fun resident =>
      { resident with rawVectorCache := resident.rawVectorCache.call use.call } }

def call (decodePqCodebook : List UInt8 → DiskAnnHeader → IoResult Unit)
    (reader : DiskAnnIndexReader) : ReaderCall → DiskAnnIndexReader
  | .ensureResident source => ((ensureResident decodePqCodebook source).run reader).2
  | .ensureRowIdOrder source => ((ensureRowIdOrder decodePqCodebook source).run reader).2
  | .optimizeForSearch source => ((optimizeForSearch decodePqCodebook source).run reader).2
  | .useAdjacencyCache use => reader.useAdjacencyCache use
  | .useRawVectorCache use => reader.useRawVectorCache use

def run (decodePqCodebook : List UInt8 → DiskAnnHeader → IoResult Unit)
    (reader : DiskAnnIndexReader) (calls : List ReaderCall) : DiskAnnIndexReader :=
  calls.foldl (call decodePqCodebook) reader

end DiskAnnIndexReader

/-! ### One cache -/

namespace SharedWindowCache

variable {others : Nat} {cache : SharedWindowCache others} {desired capacity : Nat}

/-- A cache made for `desired` bytes and now cut to `capacity`. -/
structure Cut (cache : SharedWindowCache others) (desired capacity : Nat) : Prop where
  shards : others = otherShards desired sharedWindowCacheShards
  le_desired : capacity ≤ desired
  desired_lt : desired < wordSize
  kept : cache.AllShards Kept
  counted : cache.AllShards Counted
  portioned : cache.AllShards (Portioned capacity)

theorem new_cut (h : desired < wordSize) : (new desired).Cut desired desired where
  shards := rfl
  le_desired := le_rfl
  desired_lt := h
  kept := new_kept desired
  counted := new_counted desired
  portioned := new_portioned desired

namespace Cut

section

variable (h : cache.Cut desired capacity)

include h

theorem shardPortion_le (i : Nat) :
    shardPortion capacity (others + 1) i ≤ 2 ^ 63 := by
  have hword : wordSize = 2 ^ 64 := rfl
  have hdesired := h.desired_lt
  have hcapacity := h.le_desired
  rw [h.shards, otherShards]
  split
  · have hshards : max sharedWindowCacheShards 1 - 1 + 1 = 16 := rfl
    rw [hshards, shardPortion]
    split <;> omega
  · rename_i hsmall
    have hbound : max sharedWindowCacheShards 1 * maxSharedReadWindowBytes = 2 ^ 20 := rfl
    have hportion := SharedWindowCache.shardPortion_le capacity (0 + 1) i
    omega

theorem adds (use : WindowUse) : cache.Adds use.call := by
  cases use with
  | publish offset payload sized =>
    have hword : wordSize = 2 ^ 64 := rfl
    have hwithin := (h.kept (shardIndex others offset)).2
    have hportion := h.shardPortion_le (shardIndex others offset)
    rw [SharedWindowCacheShard.Within, h.portioned] at hwithin
    change (cache.shards (shardIndex others offset)).retainedBytes - _ + _ < wordSize
    omega
  | _ => trivial

theorem use (use : WindowUse) :
    (cache.call use.call).Cut desired capacity where
  shards := h.shards
  le_desired := h.le_desired
  desired_lt := h.desired_lt
  kept := call_kept h.kept use.call
  counted := call_counted h.counted (h.adds use)
  portioned := by
    have hportioned := call_portioned h.portioned use.call
    cases use <;> exact hportioned

theorem setTotalCapacity {capacity' : Nat} (hle : capacity' ≤ desired) :
    (cache.call (.setTotalCapacity capacity')).Cut desired capacity' where
  shards := h.shards
  le_desired := hle
  desired_lt := h.desired_lt
  kept := call_kept h.kept _
  counted := call_counted h.counted trivial
  portioned := call_portioned h.portioned (.setTotalCapacity capacity')

theorem totalCapacity : cache.totalCapacity = capacity :=
  totalCapacity_of_portioned h.portioned

theorem storedBytes_le (i : Fin (others + 1)) :
    (cache.shards i).storedBytes ≤ (cache.shards i).capacityBytes := by
  have hexact : (cache.shards i).retainedBytes = (cache.shards i).storedBytes := (h.counted i).2
  rw [← hexact]
  exact (h.kept i).2

end

end Cut

end SharedWindowCache

/-! ### The whole reader -/

namespace DiskAnnIndexReader

theorem splitCacheBudgets_le {options : ResolvedVectorIndexReaderOptions}
    (h : options.adjacencyCacheBytes + options.rawVectorCacheBytes < wordSize) (totalBytes : Nat) :
    (splitCacheBudgets options totalBytes).1 ≤ options.adjacencyCacheBytes ∧
      (splitCacheBudgets options totalBytes).2 ≤ options.rawVectorCacheBytes ∧
      (splitCacheBudgets options totalBytes).1 + (splitCacheBudgets options totalBytes).2 ≤
        totalBytes := by
  obtain ⟨_, _, adjacency, _, raw⟩ := options
  change adjacency + raw < wordSize at h
  have hsum : saturatingAdd adjacency raw = adjacency + raw := by
    rw [saturatingAdd]
    omega
  simp only [splitCacheBudgets, hsum]
  by_cases hzero : adjacency + raw = 0
  · simp [hzero]
  rw [if_neg hzero]
  have htotal : min totalBytes (adjacency + raw) ≤ adjacency + raw := Nat.min_le_right _ _
  have hle : min totalBytes (adjacency + raw) ≤ totalBytes := Nat.min_le_left _ _
  generalize min totalBytes (adjacency + raw) = total at *
  have hpos : 0 < adjacency + raw := Nat.pos_of_ne_zero hzero
  have hquotient : total * adjacency / (adjacency + raw) ≤ adjacency :=
    Nat.div_le_of_le_mul (Nat.mul_le_mul_right _ htotal)
  have hquotient' : total * adjacency / (adjacency + raw) ≤ total :=
    Nat.div_le_of_le_mul (by
      rw [Nat.mul_comm]
      exact Nat.mul_le_mul_right _ (Nat.le_add_right _ _))
  -- What the quotient leaves is at most the share of the vectors.
  have hrest : total - raw ≤ total * adjacency / (adjacency + raw) := by
    rw [Nat.le_div_iff_mul_le hpos]
    rcases Nat.le_total total raw with hraw | hraw
    · simp [Nat.sub_eq_zero_of_le hraw]
    · obtain ⟨more, rfl⟩ := Nat.exists_eq_add_of_le hraw
      rw [Nat.add_sub_cancel_left]
      nlinarith
  have hfits : fitsIn wordSize (total * adjacency / (adjacency + raw)) =
      some (total * adjacency / (adjacency + raw)) := fitsIn_of_lt (by omega)
  rw [hfits, Option.getD_some]
  refine ⟨hquotient, ?_, ?_⟩ <;> omega

section Budget

variable {header : DiskAnnHeader} {options : ResolvedVectorIndexReaderOptions} {steady : Nat}

structure Opened (header : DiskAnnHeader) (options : ResolvedVectorIndexReaderOptions)
    (steady : Nat) : Prop where
  caches_le : options.adjacencyCacheBytes + options.rawVectorCacheBytes ≤
    options.maxResidentBytes - steady
  budget_lt : options.maxResidentBytes < wordSize
  steady_eq : residentSteadyBytes header = .ok steady

/-- A reader with its resident data, whose caches take `limit` bytes at most. -/
structure Capped (header : DiskAnnHeader) (options : ResolvedVectorIndexReaderOptions)
    (limit : Nat) (reader : DiskAnnIndexReader) (resident : DiskAnnResidentData) : Prop where
  caches : ∃ adjacency raw,
    resident.adjacencyCache.Cut options.adjacencyCacheBytes adjacency ∧
      resident.rawVectorCache.Cut options.rawVectorCacheBytes raw ∧ adjacency + raw ≤ limit
  header_eq : reader.header = header
  options_eq : reader.options = options
  resident_eq : reader.resident = some resident

theorem readResidentSections_holds
    {decodePqCodebook : List UInt8 → DiskAnnHeader → IoResult Unit} {source : SeekRead}
    {sections : ResidentSections}
    (h : readResidentSections decodePqCodebook source header = .ok sections) :
    ∃ ids, sections.rowIds.Holds ids := by
  simp only [readResidentSections, bind_eq_ok, pure_ok_iff] at h
  obtain ⟨-, -, _, -, _, -, _, -, _, -, _, -, _, -, _, -, _, -, _, -, -, -, rowIds, hrowIds, index,
    -, rfl⟩ := h
  obtain ⟨ids, -, hids, -⟩ := decode_holds hrowIds
  exact ⟨ids, hids⟩

/-- Nothing is loaded before the resident data; from then on everything together
is within the budget, and a loaded order has been checked. -/
inductive Budgeted (header : DiskAnnHeader) (options : ResolvedVectorIndexReaderOptions)
    (steady : Nat) (reader : DiskAnnIndexReader) : Prop where
  | unloaded (hheader : reader.header = header) (hoptions : reader.options = options)
      (hresident : reader.resident = none) (hhot : reader.hotAdjacency = [])
      (horder : reader.rowIdOrder = .notLoaded)
  | loaded (resident : DiskAnnResidentData) (limit : Nat)
      (hcapped : Capped header options limit reader resident)
      (hbudget : steady + reader.hotAdjacency.length + reader.rowIdOrder.bytes + limit ≤
        options.maxResidentBytes)
      (hordered : ∀ order, reader.rowIdOrder = .loaded order →
        validateRowIdOrder resident.rowIds order = .ok ())
      (hids : ∃ ids, resident.rowIds.Holds ids)

def Ready (header : DiskAnnHeader) (options : ResolvedVectorIndexReaderOptions) (steady : Nat)
    (reader : DiskAnnIndexReader) : Prop :=
  Budgeted header options steady reader ∧ reader.resident.isSome

variable {reader : DiskAnnIndexReader}

theorem ready_cases (h : Ready header options steady reader) :
    ∃ resident limit, Capped header options limit reader resident ∧
      steady + reader.hotAdjacency.length + reader.rowIdOrder.bytes + limit ≤
        options.maxResidentBytes ∧
      (∀ order, reader.rowIdOrder = .loaded order →
        validateRowIdOrder resident.rowIds order = .ok ()) ∧
      ∃ ids, resident.rowIds.Holds ids := by
  obtain ⟨hbudgeted, hsome⟩ := h
  cases hbudgeted with
  | unloaded _ _ hresident =>
    rw [hresident] at hsome
    cases hsome
  | loaded resident limit hcapped hbudget hordered hids =>
    exact ⟨resident, limit, hcapped, hbudget, hordered, hids⟩

theorem Budgeted.of_eq (h : Budgeted header options steady reader) :
    ∀ s, s = reader → Budgeted header options steady s := by
  rintro _ rfl
  exact h

variable {reader : DiskAnnIndexReader}

section Steps

variable {reader : DiskAnnIndexReader} {resident : DiskAnnResidentData} {limit : Nat}

theorem run_requireResident (h : reader.resident = some resident) :
    requireResident.run reader = (.ok resident, reader) := by
  change (okOr reader.resident _, reader) = _
  rw [h, okOr_some]

variable (hopened : Opened header options steady)
include hopened

theorem Opened.caches_lt :
    options.adjacencyCacheBytes + options.rawVectorCacheBytes < wordSize := by
  have hle := hopened.caches_le
  have hlt := hopened.budget_lt
  omega

theorem run_resizeSharedCacheBudgets (h : Capped header options limit reader resident)
    (totalBytes : Nat) :
    ∃ resized : DiskAnnResidentData,
      (resizeSharedCacheBudgets totalBytes).run reader =
        (.ok (), { reader with resident := some resized }) ∧
      resized.toResidentSections = resident.toResidentSections ∧
      Capped header options totalBytes { reader with resident := some resized } resized := by
  obtain ⟨adjacency, raw, hadjacency, hraw, -⟩ := h.caches
  obtain ⟨hfirst, hsecond, hsum⟩ := splitCacheBudgets_le hopened.caches_lt totalBytes
  refine ⟨setCacheCapacities resident (splitCacheBudgets options totalBytes).1
    (splitCacheBudgets options totalBytes).2, ?_, rfl, ?_⟩
  · rw [resizeSharedCacheBudgets, run_bind_ok (run_get reader),
      run_bind_ok (run_requireResident h.resident_eq), run_modify, h.options_eq]
  · exact ⟨⟨_, _, hadjacency.setTotalCapacity hfirst, hraw.setTotalCapacity hsecond, hsum⟩,
      h.header_eq, h.options_eq, rfl⟩

variable (decodePqCodebook : List UInt8 → DiskAnnHeader → IoResult Unit) (source : SeekRead)

theorem ensureResident_ready :
    (ensureResident decodePqCodebook source).Ensures (Budgeted header options steady)
      (fun _ => Ready header options steady) (Budgeted header options steady) := by
  apply ensures_bind_get
  intro reader hreader
  cases hresident : reader.resident with
  | some resident =>
    apply ensures_pure
    rintro _ rfl
    exact ⟨hreader, by simp [hresident]⟩
  | none =>
    cases hreader with
    | loaded _ _ hcapped =>
      rw [hcapped.resident_eq] at hresident
      cases hresident
    | unloaded hheader hoptions hresident hhot horder =>
      have hbefore : Budgeted header options steady reader :=
        .unloaded hheader hoptions hresident hhot horder
      have hunloaded := hbefore.of_eq
      refine ensures_bind_lift hunloaded fun peak hpeak => ?_
      refine ensures_bind_lift hunloaded fun _ hlimit => ?_
      refine ensures_bind_lift hunloaded fun sections hsections => ?_
      refine ensures_bind_lift hunloaded fun _ _ => ?_
      refine ensures_bind_lift hunloaded fun _ _ => ?_
      apply ensures_modify
      rintro _ rfl
      rw [hheader] at hpeak
      rw [rejectIf_eq_ok, hoptions] at hlimit
      have hsteady := residentSteadyBytes_le_peak hopened.steady_eq hpeak
      have hcaches := hopened.caches_le
      have hlt := hopened.caches_lt
      refine ⟨.loaded _ (options.adjacencyCacheBytes + options.rawVectorCacheBytes)
        ⟨⟨_, _, ?_, ?_, le_rfl⟩, hheader, hoptions, rfl⟩ ?_ ?_
        (readResidentSections_holds hsections), rfl⟩
      · rw [hoptions]
        exact new_cut (by omega)
      · rw [hoptions]
        exact new_cut (by omega)
      · simp only [hhot, horder, RowIdOrderState.bytes, List.length_nil]
        omega
      · simp [horder]

theorem loadRowIdOrder_ready (hready : Ready header options steady reader)
    (hnot : reader.rowIdOrder = .notLoaded) {peak : Nat}
    (hpeak : rowIdOrderPeakBytes header reader.hotAdjacency.length = .ok peak)
    (hle : peak ≤ options.maxResidentBytes) :
    (loadRowIdOrder source peak).Ensures (· = reader)
      (fun order s => Ready header options steady s ∧ s.rowIdOrder = .loaded order)
      (Budgeted header options steady) := by
  obtain ⟨resident, limit, hcapped, hbudget, -, hids⟩ := ready_cases hready
  obtain ⟨hpeak, -⟩ := rowIdOrderPeakBytes_eq_ok hopened.steady_eq hpeak
  apply ensures_bind_of_run (run_get reader)
  rw [hcapped.options_eq, hcapped.header_eq]
  obtain ⟨reserved, hrun, hsections, hreserved⟩ :=
    run_resizeSharedCacheBudgets hopened hcapped (options.maxResidentBytes - peak)
  -- While the order is loaded the caches leave room for its peak.
  have hduring : Budgeted header options steady { reader with resident := some reserved } := by
    refine .loaded reserved _ hreserved ?_ (by simp [hnot]) (by rwa [hsections])
    simp only [hnot, RowIdOrderState.bytes]
    omega
  apply ensures_bind_of_run hrun
  refine ensures_bind_lift hduring.of_eq fun order horder => ?_
  have hlength := readU32Section_length horder
  apply ensures_bind_of_run (run_requireResident hreserved.resident_eq)
  refine ensures_bind_lift hduring.of_eq fun _ hvalid => ?_
  apply ensures_bind_of_run (run_modify _ _)
  have hloaded : Capped header options (options.maxResidentBytes - peak)
      { reader with resident := some reserved, rowIdOrder := .loaded order } reserved :=
    ⟨hreserved.caches, hreserved.header_eq, hreserved.options_eq, rfl⟩
  have hafter : Budgeted header options steady
      { reader with resident := some reserved, rowIdOrder := .loaded order } := by
    refine .loaded reserved _ hloaded ?_ ?_ (by rwa [hsections])
    · simp only [RowIdOrderState.bytes]
      omega
    · rintro _ ⟨⟩
      exact hvalid
  refine ensures_bind_lift hafter.of_eq fun found hfound => ?_
  obtain rfl : found = steady := by
    rw [hopened.steady_eq] at hfound
    cases hfound
    rfl
  refine ensures_bind_lift hafter.of_eq fun total htotal => ?_
  simp only [okOr_eq_ok, Option.bind_eq_some_iff, checkedAdd_eq_some, checkedMul_eq_some] at htotal
  obtain ⟨_, ⟨rfl, -⟩, _, ⟨rfl, -⟩, rfl, -⟩ := htotal
  obtain ⟨resized, hrun', hsections', hresized⟩ := run_resizeSharedCacheBudgets hopened hloaded
    (options.maxResidentBytes - (found + reader.hotAdjacency.length + order.length * 4))
  apply ensures_bind_of_run hrun'
  apply ensures_pure
  rintro _ rfl
  refine ⟨⟨.loaded resized _ hresized ?_ ?_ (by rwa [hsections', hsections]), rfl⟩, rfl⟩
  · simp only [RowIdOrderState.bytes]
    omega
  · rintro _ ⟨⟩
    rw [hsections']
    exact hvalid

theorem ensureRowIdOrder_ready :
    (ensureRowIdOrder decodePqCodebook source).Ensures (Budgeted header options steady)
      (fun found s => Ready header options steady s ∧
        ∀ order, found = some order → s.rowIdOrder = .loaded order)
      (Budgeted header options steady) := by
  refine ensures_bind (ensureResident_ready hopened decodePqCodebook source) fun _ => ?_
  apply ensures_bind_get
  intro reader hready
  obtain ⟨resident, limit, hcapped, hbudget, hordered, hids⟩ := ready_cases hready
  cases horder : reader.rowIdOrder with
  | loaded order =>
    apply ensures_pure
    rintro _ rfl
    refine ⟨hready, ?_⟩
    rintro _ ⟨⟩
    exact horder
  | unavailableByBudget =>
    apply ensures_pure
    rintro _ rfl
    exact ⟨hready, fun _ h => nomatch h⟩
  | notLoaded =>
    refine ensures_bind_lift hready.1.of_eq fun peak hpeak => ?_
    rw [hcapped.header_eq] at hpeak
    rw [hcapped.options_eq]
    split
    · apply ensures_bind_of_run (run_modify _ _)
      apply ensures_pure
      rintro _ rfl
      refine ⟨⟨.loaded resident limit ⟨hcapped.caches, hcapped.header_eq, hcapped.options_eq,
        hcapped.resident_eq⟩ ?_ (by simp) hids, hready.2⟩, fun _ h => nomatch h⟩
      rw [horder] at hbudget
      exact hbudget
    · rename_i hle
      refine ensures_bind (loadRowIdOrder_ready hopened source hready horder hpeak
        (by omega)) fun order => ?_
      apply ensures_pure
      rintro s ⟨hs, hloaded⟩
      refine ⟨hs, ?_⟩
      rintro _ ⟨⟩
      exact hloaded

omit hopened in
theorem preloadAdjacency_budgeted {resident : DiskAnnResidentData} {limit preload : Nat}
    (hcapped : Capped header options limit reader resident) (hhot : reader.hotAdjacency = [])
    (hbudget : steady + preload + reader.rowIdOrder.bytes + limit ≤ options.maxResidentBytes)
    (hordered : ∀ order, reader.rowIdOrder = .loaded order →
      validateRowIdOrder resident.rowIds order = .ok ()) (hids : ∃ ids, resident.rowIds.Holds ids) :
    (preloadAdjacency source preload).Ensures (· = reader)
      (fun _ => Budgeted header options steady) (Budgeted header options steady) := by
  have hbefore : Budgeted header options steady reader := by
    refine .loaded resident limit hcapped ?_ hordered hids
    rw [hhot, List.length_nil]
    omega
  apply ensures_bind_of_run (run_get reader)
  refine ensures_bind_lift hbefore.of_eq fun payload hpayload => ?_
  have hlength := readSection_length hpayload
  apply ensures_bind_of_run (run_requireResident hcapped.resident_eq)
  refine ensures_bind_lift hbefore.of_eq fun _ _ => ?_
  apply ensures_modify
  rintro _ rfl
  refine .loaded resident limit
    ⟨hcapped.caches, hcapped.header_eq, hcapped.options_eq, hcapped.resident_eq⟩ ?_ hordered hids
  change steady + payload.length + _ + _ ≤ _
  rw [hlength]
  exact hbudget

omit hopened in
theorem preloadLen_le (options : ResolvedVectorIndexReaderOptions) (adjacencyLen available : Nat) :
    preloadLen options adjacencyLen available ≤ available := by
  simp only [preloadLen]
  split
  · exact (Nat.div_mul_le_self _ _).trans (Nat.min_le_right _ _)
  · exact Nat.min_le_right _ _

omit hopened in
theorem loadedRowIdOrderBytes_eq_ok {bytes : Nat} (h : reader.loadedRowIdOrderBytes = .ok bytes) :
    reader.rowIdOrder.bytes = bytes := by
  rw [loadedRowIdOrderBytes] at h
  cases horder : reader.rowIdOrder with
  | loaded order =>
    rw [horder] at h
    exact (checkedMul_eq_some.mp (okOr_eq_ok.mp h)).1
  | notLoaded =>
    rw [horder] at h
    exact Except.ok.inj h
  | unavailableByBudget =>
    rw [horder] at h
    exact Except.ok.inj h

theorem optimizeForSearch_budgeted :
    (optimizeForSearch decodePqCodebook source).Ensures (Budgeted header options steady)
      (fun _ => Budgeted header options steady) (Budgeted header options steady) := by
  refine ensures_bind (ensureResident_ready hopened decodePqCodebook source) fun _ => ?_
  apply ensures_bind_get
  intro reader hready
  obtain ⟨resident, limit, hcapped, hbudget, hordered, hids⟩ := ready_cases hready
  split
  · apply ensures_pure
    exact hready.1.of_eq
  rename_i hneeded
  have hhot : reader.hotAdjacency = [] := by
    by_contra hne
    exact hneeded (.inr hne)
  refine ensures_bind_lift hready.1.of_eq fun bytes hbytes => ?_
  have hbytes := loadedRowIdOrderBytes_eq_ok hbytes
  refine ensures_bind_lift hready.1.of_eq fun found hfound => ?_
  rw [hcapped.header_eq, hopened.steady_eq] at hfound
  obtain rfl : steady = found := Except.ok.inj hfound
  dsimp only
  rw [hcapped.options_eq, hcapped.header_eq]
  rw [hhot, List.length_nil, hbytes] at hbudget
  generalize havailable : options.maxResidentBytes - steady - bytes = available
  have hpreload := preloadLen_le options header.sections.adjacency.length available
  generalize preloadLen options header.sections.adjacency.length available = preload at *
  by_cases hzero : preload = 0
  · rw [if_pos hzero]
    obtain ⟨resized, hrun, hsections, hresized⟩ :=
      run_resizeSharedCacheBudgets hopened hcapped available
    intro s hs
    rw [hs, hrun]
    constructor
    · rintro _ _ ⟨⟩
      refine .loaded resized _ hresized ?_ (by rwa [hsections]) (by rwa [hsections])
      simp only [hhot, List.length_nil, hbytes]
      omega
    · rintro _ _ ⟨⟩
  · rw [if_neg hzero]
    obtain ⟨resized, hrun, hsections, hresized⟩ :=
      run_resizeSharedCacheBudgets hopened hcapped (available - preload)
    apply ensures_bind_of_run hrun
    apply preloadAdjacency_budgeted source hresized hhot
    · simp only [hbytes]
      omega
    · rwa [hsections]
    · rwa [hsections]

end Steps

/-- A use of the caches that keeps their cuts and the row ids keeps the budget. -/
theorem Budgeted.map_resident (h : Budgeted header options steady reader)
    {use : DiskAnnResidentData → DiskAnnResidentData}
    (hrowIds : ∀ data, (use data).rowIds = data.rowIds)
    (hcut : ∀ data adjacency raw, data.adjacencyCache.Cut options.adjacencyCacheBytes adjacency →
      data.rawVectorCache.Cut options.rawVectorCacheBytes raw →
      (use data).adjacencyCache.Cut options.adjacencyCacheBytes adjacency ∧
        (use data).rawVectorCache.Cut options.rawVectorCacheBytes raw) :
    Budgeted header options steady { reader with resident := reader.resident.map use } := by
  cases h with
  | unloaded hheader hoptions hresident hhot horder =>
    exact .unloaded hheader hoptions (by simp [hresident]) hhot horder
  | loaded resident limit hcapped hbudget hordered hids =>
    obtain ⟨adjacency, raw, hadjacency, hraw, hsum⟩ := hcapped.caches
    obtain ⟨hadjacency, hraw⟩ := hcut resident adjacency raw hadjacency hraw
    refine .loaded (use resident) limit ⟨⟨adjacency, raw, hadjacency, hraw, hsum⟩,
      hcapped.header_eq, hcapped.options_eq, by simp [hcapped.resident_eq]⟩ hbudget ?_ ?_
    · rwa [hrowIds]
    · rwa [hrowIds]

section Runs

variable (decodePqCodebook : List UInt8 → DiskAnnHeader → IoResult Unit)

theorem call_budgeted (hopened : Opened header options steady)
    (h : Budgeted header options steady reader) (c : ReaderCall) :
    Budgeted header options steady (reader.call decodePqCodebook c) := by
  cases c with
  | ensureResident source =>
    exact ((ensureResident_ready hopened decodePqCodebook source).imp fun _ _ hs => hs.1).state h
  | ensureRowIdOrder source =>
    exact ((ensureRowIdOrder_ready hopened decodePqCodebook source).imp
      fun _ _ hs => hs.1.1).state h
  | optimizeForSearch source =>
    exact (optimizeForSearch_budgeted hopened decodePqCodebook source).state h
  | useAdjacencyCache use =>
    exact h.map_resident (fun _ => rfl) fun _ _ _ hadjacency hraw => ⟨hadjacency.use use, hraw⟩
  | useRawVectorCache use =>
    exact h.map_resident (fun _ => rfl) fun _ _ _ hadjacency hraw => ⟨hadjacency, hraw.use use⟩

theorem run_budgeted (hopened : Opened header options steady)
    (h : Budgeted header options steady reader) (calls : List ReaderCall) :
    Budgeted header options steady (reader.run decodePqCodebook calls) := by
  induction calls generalizing reader with
  | nil => exact h
  | cons c calls ih => exact ih (call_budgeted decodePqCodebook hopened h c)

end Runs

theorem openWithOptions_budgeted {readTier : DeploymentProfile} {budget : UInt64}
    (h : openWithOptions header readTier (.new budget.toNat) = .ok reader) :
    ∃ options steady, Opened header options steady ∧ Budgeted header options steady reader ∧
      options.maxResidentBytes = budget.toNat := by
  simp only [openWithOptions, accepted] at h
  obtain ⟨steady, hsteady, rfl⟩ := h
  obtain ⟨hmax, hcaches⟩ := resolveCacheBudgets_new budget.toNat readTier steady
    ((fitsIn wordSize header.sections.adjacency.length).getD (wordSize - 1))
    ((fitsIn wordSize header.sections.vectors.length).getD (wordSize - 1))
  exact ⟨_, steady, ⟨hcaches, hmax ▸ budget.toNat_lt, hsteady⟩, .unloaded rfl rfl rfl rfl rfl, hmax⟩

end Budget

/-- Once the resident data is there, it, the preloaded pages, the lookup by row
id and the caches fit the budget together, and no shard holds more than its
share. -/
theorem reader_memory_within_budget
    (decodePqCodebook : List UInt8 → DiskAnnHeader → IoResult Unit) (header : DiskAnnHeader)
    (readTier : DeploymentProfile) (budget : UInt64) {opened : DiskAnnIndexReader}
    (hopen : openWithOptions header readTier (.new budget.toNat) = .ok opened)
    (calls : List ReaderCall) {resident : DiskAnnResidentData}
    (hresident : (opened.run decodePqCodebook calls).resident = some resident) :
    let reader := opened.run decodePqCodebook calls
    (∃ steady, residentSteadyBytes header = .ok steady ∧
      steady + reader.hotAdjacency.length + reader.rowIdOrder.bytes +
          (resident.adjacencyCache.totalCapacity + resident.rawVectorCache.totalCapacity) ≤
        budget.toNat) ∧
      (∀ i, (resident.adjacencyCache.shards i).retainedBytes =
          (resident.adjacencyCache.shards i).storedBytes ∧
        (resident.adjacencyCache.shards i).storedBytes ≤
          (resident.adjacencyCache.shards i).capacityBytes) ∧
      ∀ i, (resident.rawVectorCache.shards i).retainedBytes =
          (resident.rawVectorCache.shards i).storedBytes ∧
        (resident.rawVectorCache.shards i).storedBytes ≤
          (resident.rawVectorCache.shards i).capacityBytes := by
  intro reader
  obtain ⟨options, steady, hopened, hbudgeted, hmax⟩ := openWithOptions_budgeted hopen
  have hready : Ready header options steady reader :=
    ⟨run_budgeted decodePqCodebook hopened hbudgeted calls, by simp [reader, hresident]⟩
  obtain ⟨found, limit, hcapped, hbudget, -⟩ := ready_cases hready
  obtain rfl : resident = found := Option.some.inj (hresident.symm.trans hcapped.resident_eq)
  obtain ⟨adjacency, raw, hadjacency, hraw, hsum⟩ := hcapped.caches
  refine ⟨⟨steady, hopened.steady_eq, ?_⟩, fun i => ⟨(hadjacency.counted i).2,
    hadjacency.storedBytes_le i⟩, fun i => ⟨(hraw.counted i).2, hraw.storedBytes_le i⟩⟩
  rw [hadjacency.totalCapacity, hraw.totalCapacity, ← hmax]
  omega

/-- One node without neighbors whose row id is 7. -/
def singleNodeHeader : DiskAnnHeader where
  storageLayout := .compact
  dimension := 1
  vectorCount := 1
  entryNode := 0
  maxDegree := 4
  buildSearchListSize := 8
  pqM := 1
  pqBits := 8
  rawVectorEncoding := .f32
  vectorRecordSize := 4
  fileLen := 56
  sections := ⟨⟨0, 0⟩, ⟨0, 40⟩, ⟨40, 0⟩, ⟨40, 4⟩, ⟨44, 12⟩, ⟨56, 4096⟩, ⟨56, 0⟩⟩

def singleNodeSource : SeekRead :=
  .ofBytes (writeRowIdSection (.raw [7]) ++ u32Bytes 0 ++ List.replicate 12 0) 0

def singleNodeCalls : List ReaderCall :=
  [.ensureResident (.ofBytes [] 0), .ensureResident singleNodeSource,
    .useRawVectorCache (.publish 0 ⟨[1, 2, 3], 5, by decide⟩ (by decide)),
    .optimizeForSearch singleNodeSource, .ensureRowIdOrder singleNodeSource]

theorem reader_memory_within_budget_single_node :
    ∃ opened resident,
      openWithOptions singleNodeHeader .auto (.new 65536) = .ok opened ∧
        (opened.run (fun _ _ => .ok ()) singleNodeCalls).resident = some resident ∧
        resident.adjacencyCache.totalCapacity + resident.rawVectorCache.totalCapacity ≤ 65536 := by
  have hopen : (openWithOptions singleNodeHeader .auto (.new 65536)).toOption.any
      (fun opened => (opened.run (fun _ _ => .ok ()) singleNodeCalls).resident.isSome ∧
        (opened.run (fun _ _ => .ok ()) singleNodeCalls).rowIdOrder = .loaded [0]) = true := by
    decide +kernel
  obtain ⟨opened, hopened, hrun⟩ := exists_ok_of_any hopen
  simp only [Bool.decide_and, Bool.decide_eq_true, Bool.and_eq_true] at hrun
  obtain ⟨resident, hresident⟩ := Option.isSome_iff_exists.mp hrun.1
  obtain ⟨⟨steady, -, hbudget⟩, -⟩ := reader_memory_within_budget (fun _ _ => .ok ())
    singleNodeHeader .auto 65536 hopened singleNodeCalls hresident
  change _ ≤ 65536 at hbudget
  exact ⟨opened, resident, hopened, hresident, by omega⟩

end DiskAnnIndexReader

end PaimonVindex
