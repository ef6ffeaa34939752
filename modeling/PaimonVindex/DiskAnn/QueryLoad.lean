import Mathlib.Data.Finset.Insert
import PaimonVindex.DiskAnn.Validate
import PaimonVindex.DiskAnn.WindowCache
import PaimonVindex.Lib.Effect

/-! Loading the adjacency pages of a round of nodes, and the lookups that follow. -/

namespace PaimonVindex

open Checked Effect

/-- The resident state of a reader that has accepted its adjacency index and
found the adjacency section to consist of whole pages. -/
structure DiskAnnReader where
  header : DiskAnnHeader
  adjacencyIndex : AdjacencyIndex
  hotAdjacency : List UInt8
  readTier : DeploymentProfile
  readCapabilities : SeekReadCapabilities
  adjacencyCacheBytes : Nat
  accepted : validateAdjacencyIndex header adjacencyIndex = .ok ()
  aligned : diskannPageSize ∣ header.sections.adjacency.length

namespace DiskAnnReader

def readPlan (reader : DiskAnnReader) : ReadPlan :=
  reader.readTier.readPlan.withCapabilities reader.readCapabilities

variable (reader : DiskAnnReader)

def planner : ReadWindowPlanner :=
  ⟨reader.readPlan, reader.header.sections.adjacency⟩

def adjacencyLocator (node : Nat) : IoResult AdjacencyLocator :=
  okOr (reader.adjacencyIndex.locator node) (invalidData "DiskANN adjacency index is truncated")

def adjacencyPageCount : Nat :=
  reader.header.sections.adjacency.length / diskannPageSize

def hotAdjacencyWindow (window : ReadWindow) : Option (List UInt8) := do
  let relative ← checkedSub window.offset reader.header.sections.adjacency.offset
  let finish ← checkedAdd relative window.length
  getRange reader.hotAdjacency relative finish

def isHot (window : ReadWindow) : Bool :=
  (reader.hotAdjacencyWindow window).isSome

def pageWindow (page : Nat) : IoResult ReadWindow :=
  okOr (reader.planner.windowForLogicalPage page)
    (invalidData "DiskANN adjacency page is out of range")

def windowPayload (cache : AdjacencyWindowCache) (window : ReadWindow) (missing : IoError) :
    IoResult (List UInt8) :=
  match reader.hotAdjacencyWindow window with
  | some hot => .ok hot
  | none => okOr ((cache.get window.offset).map WindowPayload.asSlice) missing

def pageOffset (page : Nat) (window : ReadWindow) : Nat :=
  reader.header.sections.adjacency.offset + page * diskannPageSize - window.offset

def decodeWindowMissing : IoError := invalidData "DiskANN adjacency decode window is not loaded"

def rerankWindowMissing : IoError := invalidData "DiskANN adjacency rerank window is not loaded"

def decodeAdjacencyNeighbors (cache : AdjacencyWindowCache) (node : Nat) :
    IoResult (List UInt32) := do
  let locator ← reader.adjacencyLocator node
  let page := locator.pageIndex.toNat
  let window ← reader.pageWindow page
  let payload ← reader.windowPayload cache window decodeWindowMissing
  let start := reader.pageOffset page window + locator.byteOffset.toNat
  let bytes ← okOr (getRange payload start payload.length)
    (invalidData "DiskANN adjacency list is truncated")
  let (neighbors, _) ← decodeAdjacencyList bytes locator.degree locator.encoding
  return neighbors

/-- The raw vector that the interleaved rerank reads for one candidate. -/
def rerankRecord (cache : AdjacencyWindowCache) (node : Nat) : IoResult (List UInt8) := do
  let locator ← reader.adjacencyLocator node
  let page := locator.pageIndex.toNat
  let window ← reader.pageWindow page
  let payload ← reader.windowPayload cache window rerankWindowMissing
  let recordOffset ← okOr
    ((checkedAdd (reader.pageOffset page window) locator.byteOffset.toNat).bind
      fun offset => checkedSub offset reader.header.vectorRecordSize)
    (invalidData "DiskANN interleaved vector offset underflows")
  okOr (getRange payload recordOffset (recordOffset + reader.header.vectorRecordSize))
    (invalidData "DiskANN interleaved raw vector is truncated")

end DiskAnnReader

/-- Everything outside the query: the allocator, the input, and what it shares
with other queries. Nothing is assumed of how `World` moves between the calls, so
other queries may run in between. -/
structure QueryEnvironment (World : Type) where
  tryReserve : World → (additional : Nat) → Option Nat × World
  grow : World → (capacity len : Nat) → { capacity : Nat // len ≤ capacity } × World
  pread : World → List ReadWindow → IoResult (Nat → UInt8) × World
  lookupOrReserve : World → ReadWindow → IoResult SharedWindowCacheLookup × World
  publish : World → (offset : Nat) → ByteVec → IoResult Unit × World
  cancel : World → (offsets : List Nat) → IoResult Unit × World
  waitFor : World → ReadWindow → IoResult (Option ByteVec) × World
  /-- The verdict on a page that is already published, or the claim to find it. -/
  claimValidation : World → (page : Nat) → Option (IoResult Unit) × World
  publishValidation : World → (page : Nat) → IoResult Unit → World

structure QueryState (World : Type) where
  windowCache : AdjacencyWindowCache
  loadedPages : Finset Nat
  windowBuffers : WindowBufferPool
  world : World

abbrev Query (World : Type) := Effect IoError (QueryState World)

section Load

variable {World : Type} (env : QueryEnvironment World) (reader : DiskAnnReader)

def onWorld {α : Type} (call : World → α × World) : Query World α := fun s =>
  (.ok (call s.world).1, { s with world := (call s.world).2 })

def askWorld {α : Type} (call : World → IoResult α × World) : Query World α := do
  lift (← onWorld call)

def insertWindow (offset : Nat) (payload : WindowPayload) : Query World Unit :=
  modify fun s => { s with windowCache := s.windowCache.insert offset payload }

def recycleBuffer (payload : ByteVec) : Query World Unit :=
  modify fun s => { s with windowBuffers := s.windowBuffers.recycle payload.capacity }

def tryReserveExact (capacity additional : Nat) : Query World (Option Nat) :=
  if additional ≤ capacity then pure (some capacity)
  else onWorld fun world => env.tryReserve world additional

def resizeTo (capacity len : Nat) : Query World ByteVec :=
  if h : len ≤ capacity then pure ⟨List.replicate len 0, capacity, by simpa using h⟩
  else do
    let grown ← onWorld fun world => env.grow world capacity len
    return ⟨List.replicate len 0, grown.1, by simpa using grown.2⟩

/-- A buffer of `len` zero bytes in place of an empty one of the given capacity. -/
def extendBuffer (capacity len : Nat) : Query World ByteVec :=
  let additional := len - capacity
  if additional ≠ 0 then do
    match ← tryReserveExact env capacity additional with
    | none => do
      modify fun s => { s with windowBuffers := s.windowBuffers.recycle capacity }
      fail (invalidInput "DiskANN query window buffer allocation failed")
    | some capacity => resizeTo env capacity len
  else resizeTo env capacity len

def takeBuffer (len : Nat) : Query World ByteVec := do
  let s ← get
  let (capacity, pool) := s.windowBuffers.takeBuffer len
  modify fun s => { s with windowBuffers := pool }
  extendBuffer env capacity len

def takeBuffers : List ReadWindow → Query World (List (ReadWindow × ByteVec))
  | [] => pure []
  | window :: rest => do
    let payload ← takeBuffer env window.length
    return (window, payload) :: (← takeBuffers rest)

def mapReadError (error : IoError) : IoError :=
  if error.kind = .unexpectedEof then invalidData "DiskANN paged section is truncated" else error

def pread (requests : List (ReadWindow × ByteVec)) : Query World (List (ReadWindow × ByteVec)) := do
  match ← onWorld fun world => env.pread world (requests.map Prod.fst) with
  | .error error => fail (mapReadError error)
  | .ok content =>
    return requests.map fun (window, buffer) =>
      (window, buffer.fill fun position => content (window.offset + position))

/-- Requests in runs of `maxRanges`; every run takes at least one. -/
def preadChunks (maxRanges : Nat) :
    Nat → List (ReadWindow × ByteVec) → Query World (List (ReadWindow × ByteVec))
  | 0, _ => pure []
  | rounds + 1, requests =>
    if requests.isEmpty then pure []
    else do
      let head ← pread env (requests.take maxRanges)
      return head ++ (← preadChunks maxRanges rounds (requests.drop maxRanges))

def preadRanges (requests : List (ReadWindow × ByteVec)) :
    Query World (List (ReadWindow × ByteVec)) :=
  let maxRanges := reader.readCapabilities.maxRangesPerPread
  if maxRanges = 0 ∨ requests.length ≤ maxRanges then pread env requests
  else preadChunks env maxRanges requests.length requests

def loadUnshared (pending : List ReadWindow) : Query World Unit := do
  let requests ← takeBuffers env pending
  match ← attempt (preadRanges env reader requests) with
  | .error error => do
    forEach requests fun (_, payload) => recycleBuffer payload
    fail error
  | .ok requests =>
    forEach requests fun (window, payload) => insertWindow window.offset (.owned payload)

def lookupWindows : List ReadWindow → List ReadWindow → List ReadWindow →
    Query World (List ReadWindow × List ReadWindow)
  | [], reserved, waiting => pure (reserved, waiting)
  | window :: rest, reserved, waiting => do
    match ← askWorld fun world => env.lookupOrReserve world window with
    | .hit payload => do
      insertWindow window.offset (.shared payload)
      lookupWindows rest reserved waiting
    | .reserved => lookupWindows rest (reserved ++ [window]) waiting
    | .loading => lookupWindows rest reserved (waiting ++ [window])

/-- Gives up the reservations and the buffers taken so far. -/
def abandon (reserved : List ReadWindow) (payloads : List (ReadWindow × ByteVec))
    (error : IoError) : Query World (List (ReadWindow × ByteVec)) := do
  askWorld fun world => env.cancel world (reserved.map ReadWindow.offset)
  forEach payloads fun (_, payload) => recycleBuffer payload
  fail error

def takeReserved (reserved : List ReadWindow) :
    List ReadWindow → List (ReadWindow × ByteVec) → Query World (List (ReadWindow × ByteVec))
  | [], payloads => pure payloads
  | window :: rest, payloads => do
    match ← attempt (takeBuffer env window.length) with
    | .ok payload => takeReserved reserved rest (payloads ++ [(window, payload)])
    | .error error => abandon env reserved payloads error

def readReserved (reserved : List ReadWindow) (requests : List (ReadWindow × ByteVec)) :
    Query World (List (ReadWindow × ByteVec)) := do
  match ← attempt (preadRanges env reader requests) with
  | .ok requests => pure requests
  | .error error => abandon env reserved requests error

def loadReserved (reserved : List ReadWindow) : Query World Unit :=
  if reserved.isEmpty then pure ()
  else do
    let requests ← takeReserved env reserved reserved []
    let requests ← readReserved env reader reserved requests
    forEach requests fun (window, payload) => do
      insertWindow window.offset (.shared payload)
      askWorld fun world => env.publish world window.offset payload

def waitForWindow (window : ReadWindow) : Query World Unit := do
  match ← askWorld fun world => env.waitFor world window with
  | some payload => insertWindow window.offset (.shared payload)
  | none => pure ()

def loadRound (pending : List ReadWindow) : Query World Unit := do
  let (reserved, waiting) ← lookupWindows env pending [] []
  loadReserved env reader reserved
  forEach waiting (waitForWindow env)

/-- The rounds of the shared branch. The source has no bound on them; a call
still pending after `rounds` of them has not returned. -/
def loadShared : Nat → List ReadWindow → Query World Unit
  | 0, pending => if pending.isEmpty then pure () else fail (panicked "still loading windows")
  | rounds + 1, pending =>
    if pending.isEmpty then pure ()
    else do
      loadRound env reader pending
      let s ← get
      loadShared rounds (pending.filter fun window => !s.windowCache.containsKey window.offset)

def loadAdjacencyWindows (rounds : Nat) (windows : List ReadWindow) : Query World Unit := do
  let s ← get
  let pending := windows.filter fun window => !s.windowCache.containsKey window.offset
  if pending.isEmpty then pure ()
  else if reader.adjacencyCacheBytes = 0 then loadUnshared env reader pending
  else loadShared env reader rounds pending

def validateAdjacencyPage (page : Nat) (bytes : List UInt8) : Query World Unit := do
  lift (rejectIf (page ≥ reader.adjacencyPageCount)
    (invalidData "DiskANN adjacency page is out of range"))
  match ← onWorld fun world => env.claimValidation world page with
  | some verdict => lift verdict
  | none => do
    let verdict := validateAdjacencyPagePayload reader.header reader.adjacencyIndex page bytes
    onWorld fun world => ((), env.publishValidation world page verdict)
    lift verdict

def validateLoadedPage (page : Nat) : Query World Unit := do
  let window ← lift (reader.pageWindow page)
  let s ← get
  let payload ← lift (reader.windowPayload s.windowCache window
    (invalidData "DiskANN adjacency validation window is not loaded"))
  let start := reader.pageOffset page window
  let bytes ← lift (okOr (getRange payload start (start + diskannPageSize))
    (invalidData "DiskANN adjacency page is truncated"))
  validateAdjacencyPage env reader page bytes
  modify fun s => { s with loadedPages := insert page s.loadedPages }

structure RoundPlan where
  pages : List Nat
  requiredWindows : List ReadWindow

def planNode (s : QueryState World) (plan : RoundPlan) (node : Nat) : IoResult RoundPlan := do
  let locator ← reader.adjacencyLocator node
  let page := locator.pageIndex.toNat
  let window ← reader.pageWindow page
  let hot := reader.isHot window
  let available := hot || s.windowCache.containsKey window.offset
  return {
    pages :=
      if page ∉ s.loadedPages ∨ available = false then Ordered.insert id page plan.pages
      else plan.pages
    requiredWindows :=
      if hot then plan.requiredWindows else plan.requiredWindows ++ [window] }

def QueryState.prepared (s : QueryState World) (requiredWindows : List ReadWindow)
    (incomingBytes : Nat) : QueryState World :=
  let (cache, pool, _) := prepareAdjacencyWindowCache requiredWindows incomingBytes
    s.windowCache s.windowBuffers
  { s with windowCache := cache, windowBuffers := pool }

def makeRoom (requiredWindows : List ReadWindow) (incomingBytes : Nat) : Query World Unit :=
  modify fun s => s.prepared requiredWindows incomingBytes

def loadAdjacencyPages (rounds : Nat) (nodes : List Nat) : Query World Unit := do
  let s ← get
  let plan ← lift (nodes.foldlM (planNode reader s) ⟨[], []⟩)
  if plan.pages.isEmpty then pure ()
  else do
    let windows := reader.planner.planLogicalPages plan.pages
    let coldWindows := windows.filter fun window => !reader.isHot window
    let incomingBytes :=
      (coldWindows.filter fun window => !s.windowCache.containsKey window.offset).foldl
        (fun total window => total + window.length) 0
    makeRoom plan.requiredWindows incomingBytes
    loadAdjacencyWindows env reader rounds coldWindows
    forEach plan.pages (validateLoadedPage env reader)

end Load

end PaimonVindex
