import Mathlib.Algebra.BigOperators.Fin
import PaimonVindex.DiskAnn.SharedShard

/-! The shared window cache as a whole: an offset lives in one shard, chosen by
its page, and the configured bytes are split over the shards. -/

namespace PaimonVindex

open Checked Recency SharedWindowCacheShard List Function

def sharedWindowCacheShards : Nat := 16

def maxSharedReadWindowBytes : Nat := 64 * 1024

/-- There is one shard at least; `others` counts the rest. -/
structure SharedWindowCache (others : Nat) where
  shards : Fin (others + 1) → SharedWindowCacheShard

/-- The share of shard `index` when `capacityBytes` are split over `count`
shards, the first ones taking the remainder. -/
def shardPortion (capacityBytes count index : Nat) : Nat :=
  capacityBytes / count + if index < capacityBytes % count then 1 else 0

/-- The shard of an offset out of `count`: its page number, mixed. -/
def mixPage (offset : Nat) : UInt64 :=
  let page := UInt64.ofNat (offset / diskannPageSize)
  let mixed := page + 0x9e3779b97f4a7c15
  let mixed := (mixed ^^^ (mixed >>> 30)) * 0xbf58476d1ce4e5b9
  let mixed := (mixed ^^^ (mixed >>> 27)) * 0x94d049bb133111eb
  mixed ^^^ (mixed >>> 31)

inductive SharedWindowCacheCall where
  | lookupOrReserve (offset length : Nat)
  | publish (offset : Nat) (payload : ByteVec)
  | cancel (offsets : List Nat)
  | waitFor (offset length : Nat)
  | setTotalCapacity (capacityBytes : Nat)

namespace SharedWindowCache

/-- Shards beyond the first: all or none, whichever keeps a window per shard. -/
def otherShards (capacityBytes maxShards : Nat) : Nat :=
  let maxShards := max maxShards 1
  if capacityBytes ≥ maxShards * maxSharedReadWindowBytes then maxShards - 1 else 0

def newWithMaxShards (capacityBytes maxShards : Nat) :
    SharedWindowCache (otherShards capacityBytes maxShards) where
  shards index :=
    .empty (shardPortion capacityBytes (otherShards capacityBytes maxShards + 1) index)

def new (capacityBytes : Nat) :
    SharedWindowCache (otherShards capacityBytes sharedWindowCacheShards) :=
  newWithMaxShards capacityBytes sharedWindowCacheShards

variable {others : Nat}

def shardIndex (others offset : Nat) : Fin (others + 1) :=
  Fin.ofNat (others + 1) (mixPage offset).toNat

section

variable (cache : SharedWindowCache others)

def shard (offset : Nat) : SharedWindowCacheShard :=
  cache.shards (shardIndex others offset)

def totalCapacity : Nat :=
  ((List.finRange (others + 1)).map fun i => (cache.shards i).capacityBytes).sum

def replace (index : Fin (others + 1)) (shard : SharedWindowCacheShard) :
    SharedWindowCache others where
  shards := update cache.shards index shard

/-- Ends the loads of the given offsets that belong to one shard. -/
def removeLoading (offsets : List Nat) (index : Fin (others + 1)) : SharedWindowCache others :=
  cache.replace index { cache.shards index with
    loading := (cache.shards index).loading \
      (offsets.filter fun offset => shardIndex others offset = index).toFinset }

def cancel (offsets : List Nat) : SharedWindowCache others :=
  (List.finRange (others + 1)).foldl (fun cache index =>
    if offsets.any fun offset => shardIndex others offset = index then
      cache.removeLoading offsets index
    else cache) cache

end

section Operations

variable {m : Type → Type} [Monad m] (sub : Nat → Nat → m Nat)

def setTotalCapacityWith (cache : SharedWindowCache others) (capacityBytes : Nat) :
    m (SharedWindowCache others) := do
  let shards ← (List.finRange (others + 1)).foldlM (fun shards index => do
    let shard ← (shards index).setCapacityWith sub
      (shardPortion capacityBytes (others + 1) index)
    pure (update shards index shard)) cache.shards
  pure { shards := shards }

/-- A call made on its own. A wait behind a load that nobody ends leaves the
cache as it is. -/
def callWith (cache : SharedWindowCache others) : SharedWindowCacheCall →
    m (SharedWindowCache others)
  | .lookupOrReserve offset length => do
    let (_, shard) ← (cache.shard offset).lookupOrReserveWith sub offset length
    pure (cache.replace (shardIndex others offset) shard)
  | .publish offset payload => do
    let (_, shard) ← (cache.shard offset).publishWith sub offset payload
    pure (cache.replace (shardIndex others offset) shard)
  | .cancel offsets => pure (cache.cancel offsets)
  | .waitFor offset length =>
    match (cache.shard offset).waitFor offset length with
    | some (_, shard) => pure (cache.replace (shardIndex others offset) shard)
    | none => pure cache
  | .setTotalCapacity capacityBytes => cache.setTotalCapacityWith sub capacityBytes

def runWith (cache : SharedWindowCache others) (calls : List SharedWindowCacheCall) :
    m (SharedWindowCache others) :=
  calls.foldlM (callWith sub) cache

end Operations

def call (cache : SharedWindowCache others) (c : SharedWindowCacheCall) :
    SharedWindowCache others :=
  Id.run (cache.callWith saturatingSub c)

def run (cache : SharedWindowCache others) (calls : List SharedWindowCacheCall) :
    SharedWindowCache others :=
  calls.foldl call cache

/-! ### What a call does to the shards -/

section Updates

variable {ι β : Type} [DecidableEq ι]

theorem foldl_update_apply (g : ι → β → β) {l : List ι} (hl : l.Nodup) (f : ι → β) (i : ι) :
    l.foldl (fun f j => update f j (g j (f j))) f i =
      if i ∈ l then g i (f i) else f i := by
  induction l generalizing f with
  | nil => simp
  | cons j l ih =>
    obtain ⟨hj, hl⟩ := nodup_cons.mp hl
    rw [foldl_cons, ih hl]
    by_cases hij : i = j
    · subst hij
      simp [hj]
    · simp [hij]

theorem foldlM_update_eq {m : Type → Type} [Monad m] [LawfulMonad m] {Q : β → Prop}
    {g : ι → β → m β} {g' : ι → β → β} (hg : ∀ j b, Q b → g j b = pure (g' j b)) {l : List ι}
    (hl : l.Nodup) {f : ι → β} (hf : ∀ j ∈ l, Q (f j)) :
    l.foldlM (fun f j => do
      let b ← g j (f j)
      pure (update f j b)) f =
      pure (l.foldl (fun f j => update f j (g' j (f j))) f) := by
  induction l generalizing f with
  | nil => rfl
  | cons j l ih =>
    obtain ⟨hj, hl⟩ := nodup_cons.mp hl
    rw [foldlM_cons, foldl_cons, hg j (f j) (hf j mem_cons_self), pure_bind,
      pure_bind]
    apply ih hl
    intro i hi
    have hne : i ≠ j := fun heq => hj (heq ▸ hi)
    rw [update_of_ne hne]
    exact hf i (mem_cons_of_mem _ hi)

end Updates

def AllShards (P : Fin (others + 1) → SharedWindowCacheShard → Prop)
    (cache : SharedWindowCache others) : Prop :=
  ∀ i, P i (cache.shards i)

namespace AllShards

variable {P : Fin (others + 1) → SharedWindowCacheShard → Prop}
  {cache : SharedWindowCache others}

theorem replace (h : cache.AllShards P) {index : Fin (others + 1)}
    {shard : SharedWindowCacheShard} (hshard : P index shard) :
    (cache.replace index shard).AllShards P := by
  intro i
  change P i (update cache.shards index shard i)
  by_cases hi : i = index
  · rwa [hi, update_self]
  · rw [update_of_ne hi]
    exact h i

variable (hP : ∀ i, Stable (P i))
include hP

variable (h : cache.AllShards P)

include h

theorem removeLoading (offsets : List Nat) (index : Fin (others + 1)) :
    (cache.removeLoading offsets index).AllShards P :=
  h.replace ((hP index).loading (h index) _)

theorem cancel (offsets : List Nat) :
    (cache.cancel offsets).AllShards P := by
  rw [SharedWindowCache.cancel]
  generalize List.finRange (others + 1) = indices
  induction indices generalizing cache with
  | nil => exact h
  | cons index rest ih =>
    rw [foldl_cons]
    apply ih
    split
    · exact h.removeLoading hP offsets index
    · exact h

theorem waitFor (offset length : Nat) :
    (cache.call (.waitFor offset length)).AllShards P := by
  cases hwait : (cache.shard offset).waitFor offset length with
  | none => simpa [call, callWith, hwait] using h
  | some found =>
    have hshard : P (shardIndex others offset) found.2 :=
      (hP _).waitFor (h (shardIndex others offset)) hwait
    simpa [call, callWith, hwait] using h.replace hshard

theorem lookupOrReserve (offset length : Nat) :
    (cache.call (.lookupOrReserve offset length)).AllShards P :=
  h.replace ((hP _).lookupOrReserve (h (shardIndex others offset)) offset length)

theorem publish {offset : Nat} {payload : ByteVec}
    (hinserted : P (shardIndex others offset) ((cache.shard offset).inserted offset payload)) :
    (cache.call (.publish offset payload)).AllShards P :=
  h.replace ((hP _).publish hinserted)

end AllShards

theorem call_setTotalCapacity_shards (cache : SharedWindowCache others) (capacityBytes : Nat)
    (i : Fin (others + 1)) :
    (cache.call (.setTotalCapacity capacityBytes)).shards i =
      (cache.shards i).setCapacity (shardPortion capacityBytes (others + 1) i) := by
  have hfold := foldl_update_apply
    (fun (j : Fin (others + 1)) (shard : SharedWindowCacheShard) =>
      shard.setCapacity (shardPortion capacityBytes (others + 1) j))
    (nodup_finRange (others + 1)) cache.shards i
  rw [if_pos (mem_finRange i)] at hfold
  rw [← hfold]
  have hpure := foldlM_update_eq (m := Id) (Q := fun _ => True)
    (g := fun (j : Fin (others + 1)) (shard : SharedWindowCacheShard) =>
      shard.setCapacityWith saturatingSub
        (shardPortion capacityBytes (others + 1) j))
    (fun _ _ _ => rfl) (nodup_finRange (others + 1)) (f := cache.shards)
    (fun _ _ => trivial)
  exact congrFun (congrArg Id.run hpure) i

/-! ### Accounting -/

def Kept (_ : Fin (others + 1)) (shard : SharedWindowCacheShard) : Prop :=
  shard.Keyed ∧ shard.Within

theorem kept_stable (i : Fin (others + 1)) : Stable (Kept i) where
  loading h offsets :=
    ⟨keyed_stable.loading h.1 offsets,
      within_stable.loading h.2 offsets⟩
  touched h _ hstored := ⟨h.1.touched hstored, h.2⟩
  removed h offset :=
    ⟨h.1.removed offset, within_stable.removed h.2 offset⟩

variable {cache : SharedWindowCache others}

theorem call_kept (h : cache.AllShards Kept) (c : SharedWindowCacheCall) :
    (cache.call c).AllShards Kept := by
  cases c with
  | lookupOrReserve offset length => exact h.lookupOrReserve kept_stable offset length
  | waitFor offset length => exact h.waitFor kept_stable offset length
  | cancel offsets => exact h.cancel kept_stable offsets
  | publish offset payload =>
    have hkeyed := (h (shardIndex others offset)).1
    exact h.replace ⟨keyed_stable.publish (hkeyed.inserted offset payload),
      publish_within hkeyed offset payload⟩
  | setTotalCapacity capacityBytes =>
    intro i
    rw [call_setTotalCapacity_shards]
    exact ⟨setCapacity_keyed (h i).1 _,
      setCapacity_within (h i).1 _⟩

theorem run_kept (h : cache.AllShards Kept) (calls : List SharedWindowCacheCall) :
    (cache.run calls).AllShards Kept := by
  induction calls generalizing cache with
  | nil => exact h
  | cons c calls ih => exact ih (call_kept h c)

theorem new_kept (capacityBytes : Nat) : (new capacityBytes).AllShards Kept :=
  fun _ => ⟨empty_keyed _, Nat.zero_le _⟩

def configured (capacityBytes : Nat) : List SharedWindowCacheCall → Nat
  | [] => capacityBytes
  | .setTotalCapacity capacityBytes :: calls => configured capacityBytes calls
  | _ :: calls => configured capacityBytes calls

def Portioned (capacityBytes : Nat) (i : Fin (others + 1)) (shard : SharedWindowCacheShard) :
    Prop :=
  shard.capacityBytes = shardPortion capacityBytes (others + 1) i

theorem portioned_stable (capacityBytes : Nat) (i : Fin (others + 1)) :
    Stable (Portioned capacityBytes i) :=
  capacityBytes_stable _

variable {capacityBytes : Nat}

theorem call_portioned (h : cache.AllShards (Portioned capacityBytes)) (c : SharedWindowCacheCall) :
    (cache.call c).AllShards (Portioned (configured capacityBytes [c])) := by
  have hstable : ∀ i : Fin (others + 1),
      Stable (Portioned capacityBytes i) := portioned_stable capacityBytes
  cases c with
  | lookupOrReserve offset length => exact h.lookupOrReserve hstable offset length
  | waitFor offset length => exact h.waitFor hstable offset length
  | cancel offsets => exact h.cancel hstable offsets
  | publish offset payload => exact h.publish hstable (h (shardIndex others offset))
  | setTotalCapacity capacityBytes =>
    intro i
    rw [call_setTotalCapacity_shards]
    exact setCapacity_capacityBytes _ _

theorem configured_cons (capacityBytes : Nat) (c : SharedWindowCacheCall)
    (calls : List SharedWindowCacheCall) :
    configured capacityBytes (c :: calls) = configured (configured capacityBytes [c]) calls := by
  cases c <;> rfl

theorem run_portioned (h : cache.AllShards (Portioned capacityBytes))
    (calls : List SharedWindowCacheCall) :
    (cache.run calls).AllShards (Portioned (configured capacityBytes calls)) := by
  induction calls generalizing cache capacityBytes with
  | nil => exact h
  | cons c calls ih =>
    rw [configured_cons]
    exact ih (call_portioned h c)

theorem new_portioned (capacityBytes : Nat) :
    (new capacityBytes).AllShards (Portioned capacityBytes) :=
  fun _ => rfl

theorem sum_shardPortion (capacityBytes count : Nat) (hcount : 0 < count) :
    ((List.finRange count).map fun i => shardPortion capacityBytes count i.val).sum =
      capacityBytes := by
  have hmod : capacityBytes % count ≤ count := (Nat.mod_lt _ hcount).le
  have hfilter : (Finset.range count).filter (· < capacityBytes % count) =
      Finset.range (capacityBytes % count) := by
    ext i
    simp only [Finset.mem_filter, Finset.mem_range]
    omega
  rw [← Fin.sum_univ_def, Fin.sum_univ_eq_sum_range (shardPortion capacityBytes count)]
  simp only [shardPortion]
  rw [Finset.sum_add_distrib, Finset.sum_const, Finset.card_range, ← Finset.card_filter, hfilter,
    Finset.card_range, smul_eq_mul, Nat.div_add_mod]

theorem totalCapacity_of_portioned (h : cache.AllShards (Portioned capacityBytes)) :
    cache.totalCapacity = capacityBytes := by
  rw [totalCapacity, map_congr_left fun i _ => h i]
  exact sum_shardPortion capacityBytes (others + 1) (Nat.succ_pos _)

theorem shardPortion_le (capacityBytes count index : Nat) :
    shardPortion capacityBytes count index ≤ capacityBytes := by
  have hdiv := Nat.div_add_mod capacityBytes count
  rw [shardPortion]
  split
  · rename_i hrest
    rcases Nat.eq_zero_or_pos count with rfl | hcount
    · rw [Nat.div_zero]
      omega
    · have := Nat.le_mul_of_pos_left (capacityBytes / count) hcount
      omega
  · exact Nat.div_le_self _ _

/-! ### When the counter is exact -/

/-- A publication whose sum stays below the counter's range. -/
def Adds (cache : SharedWindowCache others) : SharedWindowCacheCall → Prop
  | .publish offset payload =>
    (cache.shard offset).retainedBytes -
      held ByteVec.capacity (cache.shard offset).entries offset + payload.capacity < wordSize
  | _ => True

/-- No publication of the run saturates the counter. -/
def Unsaturated (cache : SharedWindowCache others) : List SharedWindowCacheCall → Prop
  | [] => True
  | c :: calls => cache.Adds c ∧ (cache.call c).Unsaturated calls

def Counted (_ : Fin (others + 1)) (shard : SharedWindowCacheShard) : Prop :=
  shard.Keyed ∧ shard.Exact

theorem call_counted (h : cache.AllShards Counted) {c : SharedWindowCacheCall} (hc : cache.Adds c) :
    (cache.call c).AllShards Counted := by
  have hstable : ∀ i : Fin (others + 1), Stable (Counted i) :=
    fun _ => exact_stable
  cases c with
  | lookupOrReserve offset length => exact h.lookupOrReserve hstable offset length
  | waitFor offset length => exact h.waitFor hstable offset length
  | cancel offsets => exact h.cancel hstable offsets
  | publish offset payload =>
    obtain ⟨hkeyed, hexact⟩ := h (shardIndex others offset)
    exact h.publish hstable ⟨hkeyed.inserted offset payload, hexact.inserted hkeyed hc⟩
  | setTotalCapacity capacityBytes =>
    intro i
    rw [call_setTotalCapacity_shards]
    exact ⟨setCapacity_keyed (h i).1 _,
      setCapacity_exact (h i).1 (h i).2 _⟩

variable {calls : List SharedWindowCacheCall}

theorem run_counted (h : cache.AllShards Counted) (hcalls : cache.Unsaturated calls) :
    (cache.run calls).AllShards Counted := by
  induction calls generalizing cache with
  | nil => exact h
  | cons c calls ih => exact ih (call_counted h hcalls.1) hcalls.2

theorem new_counted (capacityBytes : Nat) : (new capacityBytes).AllShards Counted :=
  fun _ => ⟨empty_keyed _, rfl⟩

theorem callWith_checkedSub (h : cache.AllShards Counted) {c : SharedWindowCacheCall}
    (hc : cache.Adds c) :
    cache.callWith checkedSub c = some (cache.call c) := by
  have hsub : ∀ a b, b ≤ a → checkedSub a b = pure (a - b) := fun _ _ => checkedSub_of_le
  cases c with
  | lookupOrReserve offset length =>
    obtain ⟨hkeyed, hexact⟩ := h (shardIndex others offset)
    have heq := lookupOrReserveWith_eq hsub hkeyed hexact offset length
    rw [callWith, shard, heq]
    rfl
  | waitFor offset length =>
    cases hwait : (cache.shard offset).waitFor offset length with
    | none => simp [call, callWith, hwait]
    | some found => simp [call, callWith, hwait]
  | cancel offsets => rfl
  | publish offset payload =>
    obtain ⟨hkeyed, hexact⟩ := h (shardIndex others offset)
    have heq := publishWith_eq hsub hkeyed hexact hc
    rw [callWith, shard, heq]
    rfl
  | setTotalCapacity capacityBytes =>
    have heq := foldlM_update_eq (Q := fun shard => shard.Keyed ∧ shard.Exact)
      (fun (j : Fin (others + 1)) shard hshard => setCapacityWith_eq hsub
        hshard.1 hshard.2 (shardPortion capacityBytes (others + 1) j))
      (nodup_finRange (others + 1)) (f := cache.shards) fun j _ => h j
    rw [callWith, setTotalCapacityWith, heq]
    refine congrArg some ?_
    have hshards : (cache.call (.setTotalCapacity capacityBytes)).shards =
        (List.finRange (others + 1)).foldl (fun f j => update f j
          ((f j).setCapacity (shardPortion capacityBytes (others + 1) j))) cache.shards := by
      funext i
      rw [call_setTotalCapacity_shards, foldl_update_apply
        (fun (j : Fin (others + 1)) (shard : SharedWindowCacheShard) =>
          shard.setCapacity (shardPortion capacityBytes (others + 1) j))
        (nodup_finRange (others + 1)), if_pos (mem_finRange i)]
    rw [← hshards]

theorem runWith_checkedSub (h : cache.AllShards Counted) (hcalls : cache.Unsaturated calls) :
    cache.runWith checkedSub calls = some (cache.run calls) := by
  induction calls generalizing cache with
  | nil => rfl
  | cons c calls ih =>
    rw [runWith, foldlM_cons, callWith_checkedSub h hcalls.1]
    exact ih (call_counted h hcalls.1) hcalls.2

/-- Sizes within half the counter's range; a buffer never has more. -/
def Moderate : SharedWindowCacheCall → Prop
  | .publish _ payload => payload.capacity < 2 ^ 63
  | .setTotalCapacity capacityBytes => capacityBytes ≤ 2 ^ 63
  | _ => True

theorem unsaturated_of_moderate (hkept : cache.AllShards Kept)
    (hportioned : cache.AllShards (Portioned capacityBytes)) (hcapacity : capacityBytes ≤ 2 ^ 63)
    (hcalls : ∀ c ∈ calls, Moderate c) : cache.Unsaturated calls := by
  induction calls generalizing cache capacityBytes with
  | nil => trivial
  | cons c calls ih =>
    have hc := hcalls c mem_cons_self
    constructor
    · cases c with
      | publish offset payload =>
        have hword : wordSize = 2 ^ 64 := rfl
        have hwithin := (hkept (shardIndex others offset)).2
        have hportion := shardPortion_le capacityBytes (others + 1) (shardIndex others offset)
        rw [Within, hportioned] at hwithin
        change payload.capacity < 2 ^ 63 at hc
        change (cache.shards (shardIndex others offset)).retainedBytes - _ + _ < wordSize
        omega
      | _ => trivial
    · refine ih (call_kept hkept c) (call_portioned hportioned c) ?_
        fun c' hc' => hcalls c' (mem_cons_of_mem _ hc')
      cases c with
      | setTotalCapacity capacityBytes => exact hc
      | _ => exact hcapacity

/-- The counter is capped by `saturatingAdd`, and what depends on its value is
right as long as that never strikes: below half the range it cannot. Keys,
limits and capacities are right in any case. -/
theorem shared_window_cache_accounting (capacityBytes : Nat)
    (calls : List SharedWindowCacheCall) :
    let cache := (new capacityBytes).run calls
    (∀ i, (∀ offset, ((cache.shards i).entries offset).isSome ↔
          offset ∈ (cache.shards i).recency.order) ∧
        (cache.shards i).retainedBytes ≤ (cache.shards i).capacityBytes) ∧
      cache.totalCapacity = configured capacityBytes calls ∧
      ((new capacityBytes).Unsaturated calls →
        (∀ i, (cache.shards i).retainedBytes = (cache.shards i).storedBytes ∧
          ∀ offset payload, (cache.shards i).entries offset = some payload →
            payload.capacity ≤ (cache.shards i).capacityBytes) ∧
        (new capacityBytes).runWith checkedSub calls = some cache) ∧
      (capacityBytes ≤ 2 ^ 63 → (∀ c ∈ calls, Moderate c) →
        (new capacityBytes).Unsaturated calls) := by
  intro cache
  have hkept := run_kept (new_kept capacityBytes) calls
  have hportioned := run_portioned (new_portioned capacityBytes) calls
  refine ⟨fun i => ⟨(hkept i).1.keys, (hkept i).2⟩, totalCapacity_of_portioned hportioned, ?_, ?_⟩
  · intro hcalls
    have hcounted := run_counted (new_counted capacityBytes) hcalls
    refine ⟨fun i => ⟨(hcounted i).2, fun offset payload hentry => ?_⟩,
      runWith_checkedSub (new_counted capacityBytes) hcalls⟩
    exact capacity_le_of_exact (hkept i).1 (hcounted i).2 (hkept i).2 hentry
  · intro hcapacity hcalls
    exact unsaturated_of_moderate (new_kept capacityBytes) (new_portioned capacityBytes) hcapacity
      hcalls

def shrinkingCalls : List SharedWindowCacheCall :=
  [.lookupOrReserve 0 2, .publish 0 ⟨[1, 2], 5, by decide⟩, .lookupOrReserve 0 3,
    .publish 4096 ⟨[3], 4, by decide⟩, .publish 4096 ⟨[4], 6, by decide⟩, .waitFor 4096 1,
    .cancel [0], .setTotalCapacity 3]

theorem shared_window_cache_accounting_shrinking :
    (new 8).Unsaturated shrinkingCalls ∧
      ∀ i, (((new 8).run shrinkingCalls).shards i).retainedBytes =
        (((new 8).run shrinkingCalls).shards i).storedBytes := by
  obtain ⟨-, -, hexact, hmoderate⟩ := shared_window_cache_accounting 8 shrinkingCalls
  have hcalls : ∀ c ∈ shrinkingCalls, Moderate c := by
    simp [shrinkingCalls, Moderate]
  have hunsaturated := hmoderate (by omega) hcalls
  exact ⟨hunsaturated, fun i => ((hexact hunsaturated).1 i).1⟩

end SharedWindowCache

end PaimonVindex
