import PaimonVindex.DiskAnn.OffsetLru
import PaimonVindex.DiskAnn.ReadPlan

/-! The windows a query holds on to: byte buffers, the pool they are recycled
into, and the cache that evicts the oldest window first. -/

namespace PaimonVindex

open Checked Recency List Function

structure ByteVec where
  bytes : List UInt8
  capacity : Nat
  fits : bytes.length ≤ capacity

def fileWindow (content : Nat → UInt8) (window : ReadWindow) : List UInt8 :=
  (List.range window.length).map fun position => content (window.offset + position)

/-- The buffer overwritten in place, position by position. -/
def ByteVec.fill (buffer : ByteVec) (content : Nat → UInt8) : ByteVec where
  bytes := (List.range buffer.bytes.length).map content
  capacity := buffer.capacity
  fits := by simpa using buffer.fits

inductive WindowPayload where
  | owned (payload : ByteVec)
  | shared (payload : ByteVec)

namespace WindowPayload

def asSlice : WindowPayload → List UInt8
  | owned payload => payload.bytes
  | shared payload => payload.bytes

def capacity : WindowPayload → Nat
  | owned payload => payload.capacity
  | shared payload => payload.capacity

end WindowPayload

inductive SharedWindowCacheLookup where
  | hit (payload : ByteVec)
  | reserved
  | loading

/-- Recycled buffers are empty, so only their capacities are kept. -/
structure WindowBufferPool where
  buffers : List Nat
  retainedCapacity : Nat
  retainedCapacityLimit : Nat

namespace WindowBufferPool

variable (pool : WindowBufferPool)

def recycle (capacity : Nat) : WindowBufferPool :=
  match checkedAdd pool.retainedCapacity capacity with
  | none => pool
  | some retainedCapacity =>
    if retainedCapacity > pool.retainedCapacityLimit then pool
    else { pool with
      buffers := pool.buffers ++ [capacity]
      retainedCapacity := retainedCapacity }

/-- First index, from `index` on, of a smallest capacity of at least `len`. -/
def smallestFrom (len : Nat) : Nat → List Nat → Option (Nat × Nat)
  | _, [] => none
  | index, capacity :: rest =>
    match smallestFrom len (index + 1) rest with
    | none => if capacity ≥ len then some (index, capacity) else none
    | some (other, least) =>
      if capacity ≥ len ∧ capacity ≤ least then some (index, capacity) else some (other, least)

/-- Last index, from `index` on, of a greatest capacity. -/
def greatestFrom : Nat → List Nat → Option (Nat × Nat)
  | _, [] => none
  | index, capacity :: rest =>
    match greatestFrom (index + 1) rest with
    | none => some (index, capacity)
    | some (other, greatest) =>
      if capacity > greatest then some (index, capacity) else some (other, greatest)

def bestFit (len : Nat) : Option Nat :=
  if pool.buffers.getLast? = some len then some (pool.buffers.length - 1)
  else
    match smallestFrom len 0 pool.buffers with
    | some (index, _) => some index
    | none => (greatestFrom 0 pool.buffers).map Prod.fst

def swapRemove (buffers : List Nat) (index : Nat) : List Nat :=
  match buffers.getLast? with
  | none => buffers
  | some last => (buffers.set index last).dropLast

/-- The capacity of the buffer to reuse, zero for a new one, and the pool
without it. -/
def takeBuffer (len : Nat) : Nat × WindowBufferPool :=
  match pool.bestFit len with
  | none => (0, pool)
  | some index =>
    let capacity := pool.buffers.getD index 0
    (capacity, { pool with
      buffers := swapRemove pool.buffers index
      retainedCapacity := pool.retainedCapacity - capacity })

def recyclePayload : WindowPayload → WindowBufferPool
  | .owned payload => pool.recycle payload.capacity
  | .shared _ => pool

end WindowBufferPool

def capacityAt (entries : Nat → Option WindowPayload) (offset : Nat) : Nat :=
  (entries offset).elim 0 WindowPayload.capacity

structure AdjacencyWindowCache where
  entries : Nat → Option WindowPayload
  recency : OffsetLru
  retainedCapacity : Nat
  keyed : ∀ offset, (entries offset).isSome ↔ offset ∈ recency.order
  accounted : retainedCapacity = weight (capacityAt entries) recency.order

variable {offset : Nat}

section

variable (entries : Nat → Option WindowPayload)

theorem capacityAt_update_self (offset : Nat) (payload : Option WindowPayload) :
    capacityAt (update entries offset payload) offset =
      payload.elim 0 WindowPayload.capacity := by
  simp [capacityAt]

theorem capacityAt_update_of_ne {other : Nat} (payload : Option WindowPayload)
    (h : other ≠ offset) :
    capacityAt (update entries offset payload) other = capacityAt entries other := by
  simp [capacityAt, h]

theorem weight_update_filter (offset : Nat) (payload : Option WindowPayload) (order : List Nat) :
    weight (capacityAt (update entries offset payload))
        (order.filter (· ≠ offset)) =
      weight (capacityAt entries) (order.filter (· ≠ offset)) := by
  apply weight_congr
  intro x hx
  have hne : x ≠ offset := by simpa using of_mem_filter hx
  exact capacityAt_update_of_ne entries payload hne

end

variable {pool : WindowBufferPool}

namespace AdjacencyWindowCache

def containsKey (cache : AdjacencyWindowCache) (offset : Nat) : Bool :=
  (cache.entries offset).isSome

def get (cache : AdjacencyWindowCache) (offset : Nat) : Option WindowPayload :=
  cache.entries offset

def empty : AdjacencyWindowCache where
  entries := fun _ => none
  recency := .empty
  retainedCapacity := 0
  keyed := by simp [OffsetLru.empty]
  accounted := rfl

variable {cache : AdjacencyWindowCache}

theorem containsKey_iff : cache.containsKey offset = true ↔ offset ∈ cache.recency.order :=
  cache.keyed offset

section

variable (cache : AdjacencyWindowCache)

theorem weight_without (offset : Nat) :
    weight (capacityAt cache.entries) (cache.recency.order.filter (· ≠ offset)) =
      cache.retainedCapacity - capacityAt cache.entries offset := by
  have h := weight_filter_ne (w := capacityAt cache.entries)
    cache.recency.represents.nodup offset
  rw [cache.accounted]
  by_cases hmem : offset ∈ cache.recency.order
  · rw [if_pos hmem] at h
    omega
  · have hnone : cache.entries offset = none := by
      simpa [hmem] using cache.keyed offset
    have hzero : capacityAt cache.entries offset = 0 := by simp [capacityAt, hnone]
    rw [if_neg hmem] at h
    omega

def insert (offset : Nat) (payload : WindowPayload) :
    AdjacencyWindowCache where
  entries := update cache.entries offset (some payload)
  recency :=
    match cache.entries offset with
    | some _ => (cache.recency.remove offset).touch offset
    | none => cache.recency.touch offset
  retainedCapacity :=
    match cache.entries offset with
    | some previous => cache.retainedCapacity - previous.capacity + payload.capacity
    | none => cache.retainedCapacity + payload.capacity
  keyed := by
    intro other
    by_cases hother : other = offset
    · subst hother
      cases cache.entries other <;> simp
    · rw [update_of_ne hother, cache.keyed]
      cases cache.entries offset <;> simp [hother]
  accounted := by
    have hweight := cache.weight_without offset
    have hself := capacityAt_update_self cache.entries offset (some payload)
    have hrest := weight_update_filter cache.entries offset (some payload) cache.recency.order
    cases hprev : cache.entries offset with
    | some previous =>
      have hcap : capacityAt cache.entries offset = previous.capacity := by
        simp [capacityAt, hprev]
      simp only [OffsetLru.touch_order, OffsetLru.remove_order, touch,
        filter_filter, Bool.and_self, weight_append, weight_cons,
        weight_nil, hrest, hself, hweight, hcap, Option.elim_some]
      omega
    | none =>
      have hcap : capacityAt cache.entries offset = 0 := by simp [capacityAt, hprev]
      simp only [OffsetLru.touch_order, touch, weight_append,
        weight_cons, weight_nil, hrest, hself, hweight, hcap,
        Option.elim_some]
      omega

@[simp] theorem insert_containsKey (offset other : Nat) (payload : WindowPayload) :
    (cache.insert offset payload).containsKey other = true ↔
      other = offset ∨ cache.containsKey other = true := by
  by_cases h : other = offset
  · simp [containsKey, insert, h]
  · simp [containsKey, insert, h]

def touchWindow (window : ReadWindow) : AdjacencyWindowCache :=
  if h : cache.containsKey window.offset then
    { cache with
      recency := cache.recency.touch window.offset
      keyed := by
        intro offset
        have hmem := containsKey_iff.mp h
        rw [cache.keyed, OffsetLru.touch_order, mem_touch]
        constructor
        · exact Or.inl
        · rintro (hold | rfl)
          · exact hold
          · exact hmem
      accounted := by
        have hmem := containsKey_iff.mp h
        have hweight := weight_filter_ne (w := capacityAt cache.entries)
          cache.recency.represents.nodup window.offset
        rw [if_pos hmem] at hweight
        rw [cache.accounted, OffsetLru.touch_order, touch, weight_append]
        simp only [weight_cons, weight_nil]
        omega }
  else cache

def touchWindows (windows : List ReadWindow) : AdjacencyWindowCache :=
  windows.foldl touchWindow cache

@[simp] theorem touchWindow_entries (window : ReadWindow) :
    (cache.touchWindow window).entries = cache.entries := by
  rw [touchWindow]
  split <;> rfl

theorem touchWindow_order (window : ReadWindow) :
    (cache.touchWindow window).recency.order =
      if cache.containsKey window.offset then touch cache.recency.order window.offset
      else cache.recency.order := by
  rw [touchWindow]
  split <;> simp_all

@[simp] theorem touchWindows_entries (windows : List ReadWindow) :
    (cache.touchWindows windows).entries = cache.entries := by
  rw [touchWindows]
  induction windows generalizing cache with
  | nil => rfl
  | cons window rest ih => rw [foldl_cons, ih, touchWindow_entries]

theorem touchWindows_order (windows : List ReadWindow) :
    (cache.touchWindows windows).recency.order =
      ((windows.map ReadWindow.offset).filter cache.containsKey).foldl touch
        cache.recency.order := by
  rw [touchWindows]
  induction windows generalizing cache with
  | nil => rfl
  | cons window rest ih =>
    have hkeys : (cache.touchWindow window).containsKey = cache.containsKey := by
      funext offset
      rw [containsKey, containsKey, touchWindow_entries]
    rw [foldl_cons, ih, hkeys, touchWindow_order, map_cons]
    by_cases h : cache.containsKey window.offset = true
    · rw [if_pos h, filter_cons_of_pos h, foldl_cons]
    · rw [if_neg h, filter_cons_of_neg h]

/-- The oldest window leaves. Every offset of the order is a key, so the popped
one has a payload. -/
def evictOldest : Option (WindowPayload × AdjacencyWindowCache) :=
  match hpop : cache.recency.popOldest with
  | none => none
  | some (offset, recency) =>
    match hentry : cache.entries offset with
    | none => none
    | some payload => some (payload, {
        entries := update cache.entries offset none
        recency := recency
        retainedCapacity := cache.retainedCapacity - payload.capacity
        keyed := by
          have horder := OffsetLru.order_of_popOldest hpop
          have hnd := cache.recency.represents.nodup
          rw [horder] at hnd
          intro other
          by_cases hother : other = offset
          · subst hother
            simp [(nodup_cons.mp hnd).1]
          · rw [update_of_ne hother, cache.keyed, horder]
            simp [hother]
        accounted := by
          have horder := OffsetLru.order_of_popOldest hpop
          have hnd := cache.recency.represents.nodup
          rw [horder] at hnd
          have hcap : capacityAt cache.entries offset = payload.capacity := by
            simp [capacityAt, hentry]
          rw [cache.accounted, horder, weight_cons, hcap, Nat.add_sub_cancel_left]
          apply weight_congr
          intro x hx
          have hne : x ≠ offset := fun heq => (nodup_cons.mp hnd).1 (heq ▸ hx)
          exact (capacityAt_update_of_ne cache.entries none hne).symm })

end

theorem evictOldest_of_nil (h : cache.recency.order = []) :
    cache.evictOldest = none := by
  have hpop := OffsetLru.popOldest_of_nil h
  rw [evictOldest]
  split
  · rfl
  · rename_i hsome
    rw [hpop] at hsome
    cases hsome

theorem evictOldest_of_cons {x : Nat} {rest : List Nat} (h : cache.recency.order = x :: rest) :
    ∃ payload cache', cache.evictOldest = some (payload, cache') ∧
      cache'.recency.order = rest ∧ cache'.entries = update cache.entries x none := by
  obtain ⟨hpop, hrest⟩ := OffsetLru.popOldest_of_cons h
  have hkey : (cache.entries x).isSome := (cache.keyed x).mpr (by simp [h])
  rw [evictOldest]
  split
  · rename_i hnone
    rw [hpop] at hnone
    cases hnone
  · rename_i offset recency hsome
    rw [hpop] at hsome
    cases hsome
    split
    · rename_i hentry
      simp [hentry] at hkey
    · exact ⟨_, _, rfl, hrest, rfl⟩

/-- The loop of `trim`; the order bounds its rounds. -/
def trimFrom (capacityLimit : Nat) :
    Nat → AdjacencyWindowCache → WindowBufferPool → Nat →
      AdjacencyWindowCache × WindowBufferPool × Nat
  | 0, cache, pool, evictions => (cache, pool, evictions)
  | rounds + 1, cache, pool, evictions =>
    if cache.retainedCapacity > capacityLimit then
      match cache.evictOldest with
      | none => (cache, pool, evictions)
      | some (payload, cache) =>
        trimFrom capacityLimit rounds cache (pool.recyclePayload payload) (evictions + 1)
    else (cache, pool, evictions)

def trim (cache : AdjacencyWindowCache) (windowBuffers : WindowBufferPool)
    (capacityLimit : Nat) : AdjacencyWindowCache × WindowBufferPool × Nat :=
  trimFrom capacityLimit cache.recency.order.length cache windowBuffers 0

theorem trimFrom_spec (limit rounds : Nat) (cache : AdjacencyWindowCache)
    (pool : WindowBufferPool) (evictions : Nat) (h : cache.recency.order.length ≤ rounds) :
    (trimFrom limit rounds cache pool evictions).1.recency.order =
        Recency.trim (capacityAt cache.entries) limit cache.recency.order ∧
      ∀ offset payload, (trimFrom limit rounds cache pool evictions).1.entries offset =
        some payload → cache.entries offset = some payload := by
  induction rounds generalizing cache pool evictions with
  | zero =>
    have hnil := eq_nil_of_length_eq_zero (Nat.le_zero.mp h)
    exact ⟨by rw [trimFrom, hnil, Recency.trim], fun _ _ hentry => hentry⟩
  | succ rounds ih =>
    rw [trimFrom]
    cases horder : cache.recency.order with
    | nil =>
      rw [evictOldest_of_nil horder, Recency.trim]
      split <;> exact ⟨horder, fun _ _ hentry => hentry⟩
    | cons x rest =>
      obtain ⟨payload, cache', hevict, hrest, hentries⟩ := evictOldest_of_cons horder
      have hnd := cache.recency.represents.nodup
      have hlen := h
      rw [horder] at hnd hlen
      rw [hevict, Recency.trim, ← horder, ← cache.accounted]
      by_cases hover : cache.retainedCapacity > limit
      · rw [if_pos hover, if_pos hover]
        obtain ⟨hkept, hstored⟩ := ih cache' (pool.recyclePayload payload) (evictions + 1)
          (by rw [hrest]; simpa using hlen)
        refine ⟨?_, fun offset stored hentry => ?_⟩
        · -- the evicted offset does not come back in the rest of the order
          rw [hkept, hrest, hentries]
          apply Recency.trim_congr
          intro y hy
          have hne : y ≠ x := fun heq => (nodup_cons.mp hnd).1 (heq ▸ hy)
          exact capacityAt_update_of_ne cache.entries none hne
        · have hold := hstored offset stored hentry
          rw [hentries, update_apply] at hold
          split at hold
          · cases hold
          · exact hold
      · rw [if_neg hover, if_neg hover]
        exact ⟨rfl, fun _ _ hentry => hentry⟩

theorem trim_order (cache : AdjacencyWindowCache) (pool : WindowBufferPool) (limit : Nat) :
    (cache.trim pool limit).1.recency.order =
      Recency.trim (capacityAt cache.entries) limit cache.recency.order :=
  (trimFrom_spec limit _ cache pool 0 le_rfl).1

theorem trim_entries {limit : Nat} {payload : WindowPayload}
    (h : (cache.trim pool limit).1.entries offset = some payload) :
    cache.entries offset = some payload :=
  (trimFrom_spec limit _ cache pool 0 le_rfl).2 offset payload h

end AdjacencyWindowCache

open AdjacencyWindowCache

def queryAdjacencyWindowLimitBytes : Nat := 8 * 1024 * 1024

def prepareAdjacencyWindowCache (requiredWindows : List ReadWindow) (incomingBytes : Nat)
    (cache : AdjacencyWindowCache) (windowBuffers : WindowBufferPool) :
    AdjacencyWindowCache × WindowBufferPool × Nat :=
  (cache.touchWindows requiredWindows).trim windowBuffers
    (queryAdjacencyWindowLimitBytes - incomingBytes)

theorem prepare_entries {required : List ReadWindow} {incoming : Nat}
    {cache : AdjacencyWindowCache}
    {payload : WindowPayload}
    (h : (prepareAdjacencyWindowCache required incoming cache pool).1.entries offset =
      some payload) : cache.entries offset = some payload := by
  have hkept := trim_entries h
  rwa [touchWindows_entries] at hkept

theorem prepare_containsKey_iff {required : List ReadWindow} {incoming : Nat}
    {cache : AdjacencyWindowCache} (hreq : offset ∈ required.map ReadWindow.offset)
    (hheld : cache.containsKey offset = true) :
    (prepareAdjacencyWindowCache required incoming cache pool).1.containsKey offset = true ↔
      weight (capacityAt cache.entries)
          (since ((required.map ReadWindow.offset).filter cache.containsKey).dedup offset) ≤
        queryAdjacencyWindowLimitBytes - incoming := by
  have hmem : offset ∈ (required.map ReadWindow.offset).filter cache.containsKey :=
    mem_filter.mpr ⟨hreq, hheld⟩
  have hnd := (cache.touchWindows required).recency.represents.nodup
  have horder := cache.touchWindows_order required
  rw [foldl_touch] at horder
  have hin : offset ∈ (cache.touchWindows required).recency.order := by
    rw [horder]
    exact mem_append_right _ (mem_dedup.mpr hmem)
  rw [containsKey_iff, prepareAdjacencyWindowCache,
    trim_order, mem_trim hnd hin,
    touchWindows_entries, horder,
    since_append]
  intro h
  have hout := of_mem_filter h
  rw [decide_eq_true_eq] at hout
  exact hout hmem

end PaimonVindex
