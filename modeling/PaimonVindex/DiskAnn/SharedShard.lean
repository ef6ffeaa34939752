import Mathlib.Data.Finset.Basic
import PaimonVindex.DiskAnn.WindowCache

/-! One shard of the window cache the queries of a reader share: the stored
windows, the offsets being loaded, the recency list and a counter of retained
bytes, all behind one lock. -/

namespace PaimonVindex

open Checked Recency OffsetLru

structure SharedWindowCacheShard where
  capacityBytes : Nat
  entries : Nat → Option ByteVec
  loading : Finset Nat
  recency : OffsetLru
  retainedBytes : Nat

namespace SharedWindowCacheShard

def empty (capacityBytes : Nat) : SharedWindowCacheShard :=
  ⟨capacityBytes, fun _ => none, ∅, .empty, 0⟩

def reserve (shard : SharedWindowCacheShard) (offset : Nat) :
    SharedWindowCacheLookup × SharedWindowCacheShard :=
  if offset ∈ shard.loading then (.loading, shard)
  else (.reserved, { shard with loading := insert offset shard.loading })

/-- Reads what is stored once nobody loads the offset; no result while a load
is under way. -/
def waitFor (shard : SharedWindowCacheShard) (offset length : Nat) :
    Option (Option ByteVec × SharedWindowCacheShard) :=
  if offset ∈ shard.loading then none
  else
    match (shard.entries offset).filter fun payload => payload.bytes.length = length with
    | some payload => some (some payload, { shard with recency := shard.recency.touch offset })
    | none => some (none, shard)

section Operations

-- The counter is decreased through `sub`, so that the same code runs with the
-- source's saturating subtraction and with one that stops on underflow.
variable {m : Type → Type} [Monad m] (sub : Nat → Nat → m Nat)

def lookupOrReserveWith (shard : SharedWindowCacheShard) (offset length : Nat) :
    m (SharedWindowCacheLookup × SharedWindowCacheShard) :=
  match shard.entries offset with
  | some payload =>
    if payload.bytes.length = length then
      pure (.hit payload, { shard with recency := shard.recency.touch offset })
    else do
      let retained ← sub shard.retainedBytes payload.capacity
      pure (reserve { shard with
        entries := Function.update shard.entries offset none
        recency := shard.recency.remove offset
        retainedBytes := retained } offset)
  | none => pure (shard.reserve offset)

/-- Pops the oldest windows until the counter is within `capacity`; the number
of windows evicted. -/
def evictDownWith (capacity : Nat) :
    Nat → SharedWindowCacheShard → m (Nat × SharedWindowCacheShard)
  | 0, shard => pure (0, shard)
  | rounds + 1, shard =>
    if shard.retainedBytes > capacity then
      match shard.recency.popOldest with
      | none => pure (0, shard)
      | some (oldest, recency) =>
        match shard.entries oldest with
        | none => evictDownWith capacity rounds { shard with recency := recency }
        | some evicted => do
          let retained ← sub shard.retainedBytes evicted.capacity
          let (evictions, shard) ← evictDownWith capacity rounds { shard with
            entries := Function.update shard.entries oldest none
            recency := recency
            retainedBytes := retained }
          pure (evictions + 1, shard)
    else pure (0, shard)

def insertWith (shard : SharedWindowCacheShard) (offset : Nat) (payload : ByteVec) :
    m SharedWindowCacheShard := do
  let retained ← match shard.entries offset with
    | some previous => sub shard.retainedBytes previous.capacity
    | none => pure shard.retainedBytes
  pure { shard with
    loading := shard.loading.erase offset
    entries := Function.update shard.entries offset (some payload)
    recency := shard.recency.touch offset
    retainedBytes := saturatingAdd retained payload.capacity }

def publishWith (shard : SharedWindowCacheShard) (offset : Nat) (payload : ByteVec) :
    m (Nat × SharedWindowCacheShard) := do
  let shard ← shard.insertWith sub offset payload
  evictDownWith sub shard.capacityBytes shard.recency.order.length shard

def setCapacityWith (shard : SharedWindowCacheShard) (capacityBytes : Nat) :
    m SharedWindowCacheShard := do
  let (_, shard) ← evictDownWith sub capacityBytes shard.recency.order.length
    { shard with capacityBytes := capacityBytes }
  pure shard

end Operations

def saturatingSub (a b : Nat) : Id Nat := a - b

section

variable (shard : SharedWindowCacheShard)

def lookupOrReserve (offset length : Nat) : SharedWindowCacheLookup × SharedWindowCacheShard :=
  Id.run (shard.lookupOrReserveWith saturatingSub offset length)

def evictDown (capacity rounds : Nat) (shard : SharedWindowCacheShard) :
    Nat × SharedWindowCacheShard :=
  Id.run (evictDownWith saturatingSub capacity rounds shard)

def publish (offset : Nat) (payload : ByteVec) : Nat × SharedWindowCacheShard :=
  Id.run (shard.publishWith saturatingSub offset payload)

def setCapacity (capacityBytes : Nat) : SharedWindowCacheShard :=
  Id.run (shard.setCapacityWith saturatingSub capacityBytes)

/-- The shard with a payload that may replace an older one, before eviction. -/
def inserted (offset : Nat) (payload : ByteVec) : SharedWindowCacheShard :=
  { shard with
    loading := shard.loading.erase offset
    entries := Function.update shard.entries offset (some payload)
    recency := shard.recency.touch offset
    retainedBytes := saturatingAdd
      (shard.retainedBytes - held ByteVec.capacity shard.entries offset) payload.capacity }

def removed (offset : Nat) : SharedWindowCacheShard :=
  { shard with
    entries := Function.update shard.entries offset none
    recency := shard.recency.remove offset
    retainedBytes := shard.retainedBytes - held ByteVec.capacity shard.entries offset }

def touched (offset : Nat) : SharedWindowCacheShard :=
  { shard with recency := shard.recency.touch offset }

end

variable {shard : SharedWindowCacheShard} {offset capacity : Nat} {payload : ByteVec}

theorem removed_of_none (h : shard.entries offset = none) :
    shard.removed offset = { shard with recency := shard.recency.remove offset } := by
  have hupdate : Function.update shard.entries offset none = shard.entries :=
    Function.update_eq_self_iff.mpr h.symm
  rw [removed, held_of_none h, hupdate, Nat.sub_zero]

theorem lookupOrReserve_cases (shard : SharedWindowCacheShard) (offset length : Nat) :
    (∃ payload, shard.entries offset = some payload ∧ payload.bytes.length = length ∧
      shard.lookupOrReserve offset length = (.hit payload, shard.touched offset)) ∨
    (shard.entries offset = none ∧
      shard.lookupOrReserve offset length = shard.reserve offset) ∨
    (∃ payload, shard.entries offset = some payload ∧ payload.bytes.length ≠ length ∧
      shard.lookupOrReserve offset length = (shard.removed offset).reserve offset) := by
  rw [lookupOrReserve, lookupOrReserveWith]
  cases hentry : shard.entries offset with
  | none => exact .inr (.inl ⟨rfl, rfl⟩)
  | some payload =>
    by_cases hlength : payload.bytes.length = length
    · refine .inl ⟨payload, rfl, hlength, ?_⟩
      simp only [hlength, if_true]
      rfl
    · refine .inr (.inr ⟨payload, rfl, hlength, ?_⟩)
      simp only [hlength, if_false, removed, held_of_some hentry]
      rfl

theorem evictDown_zero (capacity : Nat) (shard : SharedWindowCacheShard) :
    evictDown capacity 0 shard = (0, shard) := rfl

theorem evictDown_of_le (h : shard.retainedBytes ≤ capacity) (rounds : Nat) :
    evictDown capacity rounds shard = (0, shard) := by
  cases rounds with
  | zero => rfl
  | succ rounds =>
    rw [evictDown, evictDownWith, if_neg (by omega)]
    rfl

theorem evictDown_of_nil (h : shard.recency.order = []) (rounds : Nat) :
    evictDown capacity rounds shard = (0, shard) := by
  cases rounds with
  | zero => rfl
  | succ rounds =>
    rw [evictDown, evictDownWith, popOldest_of_nil h]
    split <;> rfl

theorem evictDown_of_cons {oldest : Nat} {rest : List Nat} (hover : shard.retainedBytes > capacity)
    (h : shard.recency.order = oldest :: rest) (rounds : Nat) :
    (evictDown capacity (rounds + 1) shard).2 =
      (evictDown capacity rounds (shard.removed oldest)).2 := by
  obtain ⟨hpop, -⟩ := popOldest_of_cons h
  rw [evictDown, evictDownWith, if_pos hover, hpop]
  cases hentry : shard.entries oldest with
  | none =>
    rw [removed_of_none hentry]
    simp only [hentry]
    rfl
  | some evicted =>
    simp only [removed, hentry, held_of_some hentry]
    rfl

theorem publish_eq (shard : SharedWindowCacheShard) (offset : Nat) (payload : ByteVec) :
    shard.publish offset payload =
      evictDown shard.capacityBytes (shard.inserted offset payload).recency.order.length
        (shard.inserted offset payload) := by
  rw [publish, publishWith, insertWith, inserted]
  cases hentry : shard.entries offset with
  | none =>
    rw [held_of_none hentry]
    rfl
  | some previous =>
    rw [held_of_some hentry]
    rfl

theorem setCapacity_eq (shard : SharedWindowCacheShard) (capacityBytes : Nat) :
    shard.setCapacity capacityBytes =
      (evictDown capacityBytes shard.recency.order.length
        { shard with capacityBytes := capacityBytes }).2 := rfl

theorem evictDown_induction {P : SharedWindowCacheShard → Prop}
    (hstep : ∀ shard oldest rest, P shard → shard.recency.order = oldest :: rest →
      P (shard.removed oldest)) (rounds : Nat) (h : P shard) :
    P (evictDown capacity rounds shard).2 := by
  induction rounds generalizing shard with
  | zero => exact h
  | succ rounds ih =>
    by_cases hover : shard.retainedBytes > capacity
    · cases horder : shard.recency.order with
      | nil => rwa [evictDown_of_nil horder]
      | cons oldest rest =>
        rw [evictDown_of_cons hover horder]
        exact ih (hstep shard oldest rest h horder)
    · rwa [evictDown_of_le (by omega)]

/-! ### Keys and bytes -/

def storedBytes (shard : SharedWindowCacheShard) : Nat :=
  weight (held ByteVec.capacity shard.entries) shard.recency.order

structure Keyed (shard : SharedWindowCacheShard) : Prop where
  keys : ∀ offset, (shard.entries offset).isSome ↔ offset ∈ shard.recency.order
  counter_le : shard.retainedBytes ≤ shard.storedBytes

def Exact (shard : SharedWindowCacheShard) : Prop := shard.retainedBytes = shard.storedBytes

def Within (shard : SharedWindowCacheShard) : Prop := shard.retainedBytes ≤ shard.capacityBytes

/-- A property of shards that reading, touching and dropping windows keep, as
does anything about the loads. -/
structure Stable (P : SharedWindowCacheShard → Prop) : Prop where
  loading : ∀ {shard}, P shard → ∀ offsets, P { shard with loading := offsets }
  touched : ∀ {shard}, P shard → ∀ {offset}, (shard.entries offset).isSome →
    P (shard.touched offset)
  removed : ∀ {shard}, P shard → ∀ offset, P (shard.removed offset)

namespace Stable

variable {P : SharedWindowCacheShard → Prop} {shard : SharedWindowCacheShard}

theorem reserve (hP : Stable P) (h : P shard) (offset : Nat) : P (shard.reserve offset).2 := by
  rw [SharedWindowCacheShard.reserve]
  split
  · exact h
  · exact hP.loading h _

theorem lookupOrReserve (hP : Stable P) (h : P shard) (offset length : Nat) :
    P (shard.lookupOrReserve offset length).2 := by
  rcases shard.lookupOrReserve_cases offset length with
    ⟨payload, hentry, -, heq⟩ | ⟨-, heq⟩ | ⟨payload, -, -, heq⟩
  · rw [heq]
    exact hP.touched h (by rw [hentry]; rfl)
  · rw [heq]
    exact hP.reserve h offset
  · rw [heq]
    exact hP.reserve (hP.removed h offset) offset

theorem waitFor (hP : Stable P) (h : P shard) {length : Nat} {payload : Option ByteVec}
    {shard' : SharedWindowCacheShard}
    (hwait : shard.waitFor offset length = some (payload, shard')) :
    P shard' := by
  rw [SharedWindowCacheShard.waitFor] at hwait
  split at hwait
  · cases hwait
  · split at hwait
    · rename_i stored hstored
      cases hwait
      have hentry := (Option.filter_eq_some_iff.mp hstored).1
      exact hP.touched h (by rw [hentry]; rfl)
    · cases hwait
      exact h

theorem evictDown (hP : Stable P) (h : P shard) (capacity rounds : Nat) :
    P (evictDown capacity rounds shard).2 :=
  evictDown_induction (P := P) (fun _ oldest _ h _ => hP.removed h oldest) rounds h

theorem publish (hP : Stable P) (h : P (shard.inserted offset payload)) :
    P (shard.publish offset payload).2 := by
  rw [publish_eq]
  exact hP.evictDown h _ _

end Stable

theorem empty_keyed (capacityBytes : Nat) : (empty capacityBytes).Keyed :=
  ⟨by simp [empty, OffsetLru.empty], Nat.zero_le _⟩

namespace Keyed

variable {shard : SharedWindowCacheShard}

variable (h : shard.Keyed)

include h

theorem storedBytes_removed (offset : Nat) :
    (shard.removed offset).storedBytes + held ByteVec.capacity shard.entries offset =
      shard.storedBytes := by
  rw [storedBytes, removed, remove_order]
  exact weight_held_remove shard.recency.represents.nodup (fun y hy => (h.keys y).mp hy) offset
    none

theorem storedBytes_inserted (offset : Nat) (payload : ByteVec) :
    (shard.inserted offset payload).storedBytes + held ByteVec.capacity shard.entries offset =
      shard.storedBytes + payload.capacity := by
  rw [storedBytes, inserted, touch_order]
  exact weight_held_insert shard.recency.represents.nodup (fun y hy => (h.keys y).mp hy) offset
    payload

theorem held_le (offset : Nat) :
    held ByteVec.capacity shard.entries offset ≤ shard.storedBytes := by
  have := h.storedBytes_removed offset
  omega

theorem removed (offset : Nat) : (shard.removed offset).Keyed := by
  constructor
  · intro other
    by_cases hother : other = offset
    · simp [SharedWindowCacheShard.removed, hother]
    · simp [SharedWindowCacheShard.removed, hother, h.keys other]
  · have hstored := h.storedBytes_removed offset
    have hcounter := h.counter_le
    simp only [SharedWindowCacheShard.removed] at hstored ⊢
    omega

theorem inserted (offset : Nat) (payload : ByteVec) :
    (shard.inserted offset payload).Keyed := by
  constructor
  · intro other
    by_cases hother : other = offset
    · simp [SharedWindowCacheShard.inserted, hother]
    · simp [SharedWindowCacheShard.inserted, hother, h.keys other]
  · have hstored := h.storedBytes_inserted offset payload
    have hcounter := h.counter_le
    have hheld := h.held_le offset
    simp only [SharedWindowCacheShard.inserted, saturatingAdd] at hstored ⊢
    omega

theorem touched (hstored : (shard.entries offset).isSome) :
    (shard.touched offset).Keyed := by
  have hmem := (h.keys offset).mp hstored
  constructor
  · intro other
    rw [SharedWindowCacheShard.touched, touch_order, mem_touch, h.keys]
    constructor
    · exact Or.inl
    · rintro (hold | rfl)
      · exact hold
      · exact hmem
  · have hweight : (shard.touched offset).storedBytes = shard.storedBytes := by
      rw [storedBytes, SharedWindowCacheShard.touched, touch_order]
      exact weight_touch shard.recency.represents.nodup hmem
    rw [hweight]
    exact h.counter_le

theorem resized (capacityBytes : Nat) :
    Keyed { shard with capacityBytes := capacityBytes } :=
  ⟨h.keys, h.counter_le⟩

end Keyed

theorem keyed_stable : Stable Keyed where
  loading h _ := ⟨h.keys, h.counter_le⟩
  touched h _ hstored := h.touched hstored
  removed h offset := h.removed offset

theorem within_stable : Stable Within where
  loading h _ := h
  touched h _ _ := h
  removed h _ := (Nat.sub_le _ _).trans h

theorem evictDown_retained_le {rounds : Nat} (h : shard.Keyed)
    (hrounds : shard.recency.order.length ≤ rounds) :
    (evictDown capacity rounds shard).2.retainedBytes ≤ capacity := by
  induction rounds generalizing shard with
  | zero =>
    have hnil : shard.recency.order = [] := List.eq_nil_of_length_eq_zero (by omega)
    have hcounter := h.counter_le
    rw [storedBytes, hnil, weight_nil] at hcounter
    rw [evictDown_zero]
    exact hcounter.trans (Nat.zero_le _)
  | succ rounds ih =>
    by_cases hover : shard.retainedBytes > capacity
    · cases horder : shard.recency.order with
      | nil =>
        have hcounter := h.counter_le
        rw [storedBytes, horder, weight_nil] at hcounter
        omega
      | cons oldest rest =>
        rw [evictDown_of_cons hover horder]
        apply ih (h.removed oldest)
        have hrest := (popOldest_of_cons horder).2
        have hlength : (shard.removed oldest).recency.order = rest := hrest
        rw [horder, List.length_cons] at hrounds
        rw [hlength]
        omega
    · rw [evictDown_of_le (by omega)]
      exact Nat.le_of_not_lt hover

theorem capacityBytes_stable (capacity : Nat) : Stable (·.capacityBytes = capacity) :=
  ⟨fun h _ => h, fun h _ _ => h, fun h _ => h⟩

theorem publish_within (h : shard.Keyed) (offset : Nat) (payload : ByteVec) :
    (shard.publish offset payload).2.Within := by
  have hcapacity : (shard.publish offset payload).2.capacityBytes = shard.capacityBytes :=
    (capacityBytes_stable shard.capacityBytes).publish rfl
  rw [Within, hcapacity, publish_eq]
  exact evictDown_retained_le (h.inserted offset payload) le_rfl

theorem setCapacity_keyed (h : shard.Keyed) (capacityBytes : Nat) :
    (shard.setCapacity capacityBytes).Keyed := by
  rw [setCapacity_eq]
  exact keyed_stable.evictDown (h.resized capacityBytes) _ _

theorem setCapacity_capacityBytes (shard : SharedWindowCacheShard) (capacityBytes : Nat) :
    (shard.setCapacity capacityBytes).capacityBytes = capacityBytes := by
  rw [setCapacity_eq]
  exact (capacityBytes_stable capacityBytes).evictDown rfl _ _

theorem setCapacity_within (h : shard.Keyed) (capacityBytes : Nat) :
    (shard.setCapacity capacityBytes).Within := by
  rw [Within, setCapacity_capacityBytes, setCapacity_eq]
  exact evictDown_retained_le (h.resized capacityBytes) le_rfl

/-! ### Counting without rounding -/

theorem Exact.removed (hkeyed : shard.Keyed) (h : shard.Exact) (offset : Nat) :
    (shard.removed offset).Exact := by
  have hstored := hkeyed.storedBytes_removed offset
  rw [Exact] at h ⊢
  simp only [SharedWindowCacheShard.removed] at hstored ⊢
  omega

theorem Exact.inserted (hkeyed : shard.Keyed) (h : shard.Exact)
    (hfits : shard.retainedBytes - held ByteVec.capacity shard.entries offset + payload.capacity <
    wordSize) : (shard.inserted offset payload).Exact := by
  have hstored := hkeyed.storedBytes_inserted offset payload
  have hheld := hkeyed.held_le offset
  rw [Exact] at h ⊢
  simp only [SharedWindowCacheShard.inserted, saturatingAdd] at hstored ⊢
  omega

theorem Exact.touched (hkeyed : shard.Keyed) (h : shard.Exact)
    (hstored : (shard.entries offset).isSome) : (shard.touched offset).Exact := by
  have hmem := (hkeyed.keys offset).mp hstored
  have hweight : (shard.touched offset).storedBytes = shard.storedBytes := by
    rw [storedBytes, SharedWindowCacheShard.touched, touch_order]
    exact weight_touch shard.recency.represents.nodup hmem
  rw [Exact, hweight]
  exact h

theorem exact_stable : Stable fun shard => shard.Keyed ∧ shard.Exact where
  loading h _ := ⟨keyed_stable.loading h.1 _, h.2⟩
  touched h _ hstored := ⟨h.1.touched hstored, h.2.touched h.1 hstored⟩
  removed h offset := ⟨h.1.removed offset, h.2.removed h.1 offset⟩

theorem setCapacity_exact (hkeyed : shard.Keyed) (h : shard.Exact) (capacityBytes : Nat) :
    (shard.setCapacity capacityBytes).Exact := by
  rw [setCapacity_eq]
  have hexact : Exact { shard with capacityBytes := capacityBytes } := h
  exact (exact_stable.evictDown ⟨hkeyed.resized capacityBytes, hexact⟩ _ _).2

theorem capacity_le_of_exact (hkeyed : shard.Keyed) (hexact : shard.Exact) (hwithin : shard.Within)
    (h : shard.entries offset = some payload) : payload.capacity ≤ shard.capacityBytes := by
  have hheld := hkeyed.held_le offset
  rw [held_of_some h, ← hexact] at hheld
  exact hheld.trans hwithin

section Subtraction

variable {m : Type → Type} [Monad m] [LawfulMonad m] {sub : Nat → Nat → m Nat}
  {shard : SharedWindowCacheShard}

section

variable (hsub : ∀ a b, b ≤ a → sub a b = pure (a - b))

include hsub

theorem evictDownWith_eq (hkeyed : shard.Keyed) (hexact : shard.Exact) (capacity rounds : Nat) :
    evictDownWith sub capacity rounds shard = pure (evictDown capacity rounds shard) := by
  induction rounds generalizing shard with
  | zero => rfl
  | succ rounds ih =>
    by_cases hover : shard.retainedBytes > capacity
    · cases horder : shard.recency.order with
      | nil =>
        rw [evictDown_of_nil horder, evictDownWith, if_pos hover,
          popOldest_of_nil horder]
      | cons oldest rest =>
        obtain ⟨hpop, -⟩ := popOldest_of_cons horder
        have hrest := ih (hkeyed.removed oldest) (hexact.removed hkeyed oldest)
        rw [evictDown, evictDownWith, evictDownWith, if_pos hover, if_pos hover, hpop]
        cases hentry : shard.entries oldest with
        | none =>
          rw [removed_of_none hentry] at hrest
          simp only [hentry, hrest]
          rfl
        | some evicted =>
          have hheld := hkeyed.held_le oldest
          rw [held_of_some hentry, ← hexact] at hheld
          simp only [removed, held_of_some hentry] at hrest
          simp only [hentry, hsub _ _ hheld, pure_bind, hrest]
          rfl
    · rw [evictDown_of_le (by omega), evictDownWith, if_neg hover]

theorem lookupOrReserveWith_eq (hkeyed : shard.Keyed) (hexact : shard.Exact) (offset length : Nat) :
    shard.lookupOrReserveWith sub offset length = pure (shard.lookupOrReserve offset length) := by
  rw [lookupOrReserve, lookupOrReserveWith, lookupOrReserveWith]
  cases hentry : shard.entries offset with
  | none => rfl
  | some payload =>
    by_cases hlength : payload.bytes.length = length
    · simp only [hlength, if_true]
      rfl
    · have hheld := hkeyed.held_le offset
      rw [held_of_some hentry, ← hexact] at hheld
      simp only [hlength, if_false, hsub _ _ hheld, pure_bind]
      rfl

theorem publishWith_eq (hkeyed : shard.Keyed) (hexact : shard.Exact)
    (hfits : shard.retainedBytes - held ByteVec.capacity shard.entries offset +
    payload.capacity < wordSize) :
    shard.publishWith sub offset payload = pure (shard.publish offset payload) := by
  have hinsert : shard.insertWith sub offset payload = pure (shard.inserted offset payload) := by
    rw [insertWith, inserted]
    cases hentry : shard.entries offset with
    | none =>
      rw [held_of_none hentry]
      simp only [pure_bind]
      rfl
    | some previous =>
      have hheld := hkeyed.held_le offset
      rw [held_of_some hentry, ← hexact] at hheld
      rw [held_of_some hentry]
      simp only [hsub _ _ hheld, pure_bind]
  rw [publishWith, hinsert, pure_bind, publish_eq]
  exact evictDownWith_eq hsub (hkeyed.inserted offset payload) (hexact.inserted hkeyed hfits) _ _

theorem setCapacityWith_eq (hkeyed : shard.Keyed) (hexact : shard.Exact) (capacityBytes : Nat) :
    shard.setCapacityWith sub capacityBytes = pure (shard.setCapacity capacityBytes) := by
  rw [setCapacityWith, evictDownWith_eq hsub (hkeyed.resized capacityBytes) hexact, pure_bind,
    setCapacity_eq]

end

end Subtraction

end SharedWindowCacheShard

end PaimonVindex
