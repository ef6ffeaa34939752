import PaimonVindex.DiskAnn.SharedCache
import PaimonVindex.Lib.Interleaving

/-! Queries that load windows through one shared cache, as processes. A step of a
query is one section under a shard's lock, or the read between two of them. -/

namespace PaimonVindex

open Checked Interleaving SharedWindowCache

variable {n others : Nat} (content : Nat → UInt8)

/-- A buffer taken for the window and read into; `spare` is what the buffer has
allocated beyond the window. -/
def readPayload (spare : ReadWindow → Nat) (window : ReadWindow) :
    ByteVec where
  bytes := fileWindow content window
  capacity := window.length + spare window
  fits := by simp [fileWindow]

inductive LoadPhase (others : Nat) where
  | lookup (todo : List ReadWindow)
  | read
  | publish (payloads : List ByteVec)
  | cancel (offsets : List Nat) (shards : List (Fin (others + 1))) (error : IoError)
  | wait (asleep : Bool)
  | readUnshared
  | returned (result : IoResult Unit)

/-- A call of `load_adjacency_windows` or `load_vector_windows`. `reserved` are
the reservations it has neither published nor cancelled. -/
structure WindowLoad (others : Nat) where
  requested : List ReadWindow
  localCache : AdjacencyWindowCache
  pending : List ReadWindow
  reserved : List ReadWindow
  waiting : List ReadWindow
  phase : LoadPhase others

namespace WindowLoad

def missing (load : WindowLoad others) : List ReadWindow :=
  load.pending.filter fun window => !load.localCache.containsKey window.offset

def insertWindow (load : WindowLoad others) (window : ReadWindow) (payload : WindowPayload) :
    WindowLoad others :=
  { load with localCache := load.localCache.insert window.offset payload }

/-- The head of the loop: done, or a round over what is still missing. -/
def beginRound (load : WindowLoad others) : WindowLoad others :=
  if load.missing.isEmpty then
    { load with pending := [], reserved := [], waiting := [], phase := .returned (.ok ()) }
  else
    { load with
      pending := load.missing, reserved := [], waiting := [], phase := .lookup load.missing }

def start (sharedCacheBytes : Nat) (windows : List ReadWindow)
    (localCache : AdjacencyWindowCache) : WindowLoad others :=
  let pending := windows.filter fun window => !localCache.containsKey window.offset
  let load : WindowLoad others := ⟨pending, localCache, pending, [], [], .returned (.ok ())⟩
  if pending.isEmpty then load
  else if sharedCacheBytes = 0 then { load with phase := .readUnshared }
  else load.beginRound

section

variable (load : WindowLoad others)

def startWaiting : WindowLoad others :=
  if load.waiting.isEmpty then load.beginRound else { load with phase := .wait false }

def afterLookups : WindowLoad others :=
  if load.reserved.isEmpty then load.startWaiting else { load with phase := .read }

def continueLookups (todo : List ReadWindow) : WindowLoad others :=
  if todo.isEmpty then load.afterLookups else { load with phase := .lookup todo }

def lookedUp (window : ReadWindow) :
    SharedWindowCacheLookup → WindowLoad others
  | .hit payload => load.insertWindow window (.shared payload)
  | .reserved => { load with reserved := load.reserved ++ [window] }
  | .loading => { load with waiting := load.waiting ++ [window] }

/-- Taking buffers or reading may fail; then all reservations are cancelled,
one shard after the other. -/
def readReserved (outcome : IoResult (ReadWindow → Nat)) (load : WindowLoad others) :
    WindowLoad others :=
  match outcome with
  | .ok spare => { load with phase := .publish (load.reserved.map (readPayload content spare)) }
  | .error error =>
    let offsets := load.reserved.map ReadWindow.offset
    let shards := (List.finRange (others + 1)).filter fun index =>
      offsets.any fun offset => shardIndex others offset = index
    { load with phase := .cancel offsets shards error }

def published (payloads : List ByteVec) : WindowLoad others :=
  if payloads.isEmpty then load.startWaiting else { load with phase := .publish payloads }

def cancelled (offsets : List Nat) (index : Fin (others + 1)) (shards : List (Fin (others + 1)))
    (error : IoError) : WindowLoad others :=
  { load with
    reserved := load.reserved.filter fun window =>
      shardIndex others window.offset ≠ index
    phase :=
      if shards.isEmpty then .returned (.error error) else .cancel offsets shards error }

def waited (window : ReadWindow) (payload : Option ByteVec) : WindowLoad others :=
  let load := match payload with
    | some payload => load.insertWindow window (.shared payload)
    | none => load
  load.startWaiting

end

def readUnshared (outcome : IoResult (ReadWindow → Nat)) (load : WindowLoad others) :
    WindowLoad others :=
  match outcome with
  | .ok spare =>
    let load := load.pending.foldl (fun load window =>
      load.insertWindow window (.owned (readPayload content spare window))) load
    { load with phase := .returned (.ok ()) }
  | .error error => { load with phase := .returned (.error error) }

/-- One step: the cache and the load after it, and the shard whose waiters are
notified. A sleeping load waits to be notified; one that has returned is done. -/
def step (outcome : IoResult (ReadWindow → Nat)) (cache : SharedWindowCache others)
    (load : WindowLoad others) :
    Option (SharedWindowCache others × WindowLoad others × Option (Fin (others + 1))) :=
  match load.phase with
  | .lookup [] => none
  | .lookup (window :: todo) =>
    let (lookup, shard) := (cache.shard window.offset).lookupOrReserve window.offset window.length
    some (cache.replace (shardIndex others window.offset) shard,
      (load.lookedUp window lookup).continueLookups todo, none)
  | .read => some (cache, load.readReserved content outcome, none)
  | .publish payloads =>
    match load.reserved, payloads with
    | window :: reserved, payload :: payloads =>
      let index := shardIndex others window.offset
      let (_, shard) := (cache.shard window.offset).publish window.offset payload
      let load := load.insertWindow window (.shared payload)
      some (cache.replace index shard, { load with reserved := reserved }.published payloads,
        some index)
    | _, _ => none
  | .cancel _ [] _ => none
  | .cancel offsets (index :: shards) error =>
    some (cache.removeLoading offsets index, load.cancelled offsets index shards error,
      some index)
  | .wait false =>
    match load.waiting with
    | [] => none
    | window :: waiting =>
      match (cache.shard window.offset).waitFor window.offset window.length with
      | none => some (cache, { load with phase := .wait true }, none)
      | some (payload, shard) =>
        some (cache.replace (shardIndex others window.offset) shard,
          { load with waiting := waiting }.waited window payload, none)
  | .wait true => none
  | .readUnshared => some (cache, load.readUnshared content outcome, none)
  | .returned _ => none

/-- What a notification of the shard does to a load: if it sleeps there, it
checks again. -/
def wake (index : Fin (others + 1)) (load : WindowLoad others) : WindowLoad others :=
  match load.phase, load.waiting with
  | .wait true, window :: _ =>
    if shardIndex others window.offset = index then
      { load with phase := .wait false }
    else load
  | _, _ => load

end WindowLoad

structure WindowLoads (n others : Nat) where
  cache : SharedWindowCache others
  loads : Fin n → WindowLoad others

namespace WindowLoads

def step (content : Nat → UInt8) (i : Fin n) (outcome : IoResult (ReadWindow → Nat))
    (s : WindowLoads n others) : Option (WindowLoads n others) :=
  match (s.loads i).step content outcome s.cache with
  | none => none
  | some (cache, load, notified) =>
    let loads := Function.update s.loads i load
    some {
      cache := cache
      loads := match notified with
        | some index => fun j => (loads j).wake index
        | none => loads }

def Step (s s' : WindowLoads n others) : Prop :=
  ∃ i outcome, s.step content i outcome = some s'

end WindowLoads

end PaimonVindex
