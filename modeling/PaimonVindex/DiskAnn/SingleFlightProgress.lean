import PaimonVindex.DiskAnn.LoadWindows
import PaimonVindex.DiskAnn.SingleFlightSteps

/-! Concurrent window loads come to an end: somebody can always move, and every
step lowers a rank. -/

namespace PaimonVindex

open Checked Interleaving WindowLoad SharedWindowCache SharedWindowCacheShard List

namespace WindowLoad

variable {others : Nat} {content : Nat → UInt8} {load : WindowLoad others}

theorem step_isSome (h : load.Sound content) (hreturned : ∀ result, load.phase ≠ .returned result)
    (hawake : load.phase ≠ .wait true) (outcome : IoResult (ReadWindow → Nat))
    (cache : SharedWindowCache others) : (load.step content outcome cache).isSome := by
  have hsound := h.phase
  cases hphase : load.phase with
  | lookup todo =>
    simp only [PhaseSound, hphase] at hsound
    obtain ⟨window, rest, rfl⟩ := exists_cons_of_ne_nil hsound
    simp [step, hphase]
  | read => simp [step, hphase]
  | publish payloads =>
    simp only [PhaseSound, hphase] at hsound
    obtain ⟨payload, payloads, rfl⟩ := exists_cons_of_ne_nil hsound.1
    obtain ⟨window, reserved, -, -, hreserved⟩ := forall₂_cons_right_iff.mp hsound.2
    simp [step, hphase, hreserved]
  | cancel offsets shards error =>
    simp only [PhaseSound, hphase] at hsound
    obtain ⟨index, shards, rfl⟩ := exists_cons_of_ne_nil hsound.1
    simp [step, hphase]
  | wait asleep =>
    simp only [PhaseSound, hphase] at hsound
    obtain ⟨window, waiting, hwaiting⟩ := exists_cons_of_ne_nil hsound.1
    cases asleep with
    | true => exact absurd hphase hawake
    | false =>
      rw [step, hphase]
      simp only [hwaiting]
      split <;> rfl
  | readUnshared => simp [step, hphase]
  | returned result => exact absurd hphase (hreturned result)

/-! ### The rank of a load -/

def Blocked (cache : SharedWindowCache others) (load : WindowLoad others) : Prop :=
  ∃ window ∈ load.waiting, cache.Loading window.offset

/-- More than a round of lookups and waits takes. -/
def bulk (load : WindowLoad others) : Nat := 4 * load.pending.length + 5

instance (cache : SharedWindowCache others) (load : WindowLoad others) :
    Decidable (load.Blocked cache) :=
  inferInstanceAs (Decidable (∃ window ∈ load.waiting, cache.Loading window.offset))

def unlessBlocked (cache : SharedWindowCache others) (load : WindowLoad others) (amount : Nat) :
    Nat :=
  if load.Blocked cache then 0 else amount

/-- Steps left until the load sleeps, ends or changes the loads. One that is not
blocked gets through its waits and into one more round, where it reserves, finds
or waits behind a load. -/
def effort (cache : SharedWindowCache others) (load : WindowLoad others) : Nat :=
  match load.phase with
  | .lookup todo =>
    load.unlessBlocked cache (if load.waiting.isEmpty then load.bulk else 3 * load.bulk) +
      3 * todo.length + 2 * load.waiting.length + 3
  | .read => load.unlessBlocked cache (3 * load.bulk) + 2 * load.waiting.length + 2
  | .publish _ => load.unlessBlocked cache (3 * load.bulk) + 2 * load.waiting.length + 1
  | .wait asleep =>
    load.unlessBlocked cache (2 * load.bulk) + 2 * load.waiting.length + if asleep then 0 else 1
  | _ => 0

variable {window : ReadWindow}

theorem missing_insertWindow_lt (h : window ∈ load.missing) (payload : WindowPayload) :
    (load.insertWindow window payload).missing.length < load.missing.length := by
  have hsub : (load.insertWindow window payload).missing =
      load.missing.filter fun other => other.offset ≠ window.offset := by
    rw [missing, missing, filter_filter]
    apply filter_congr
    intro other _
    have hkeys := AdjacencyWindowCache.insert_containsKey load.localCache window.offset
      other.offset payload
    by_cases hoffset : other.offset = window.offset
    · simp [insertWindow, hoffset]
    · have hsame : (load.localCache.insert window.offset payload).containsKey other.offset =
          load.localCache.containsKey other.offset := by
        rw [Bool.eq_iff_iff, hkeys]
        simp [hoffset]
      simp [insertWindow, hsame, hoffset]
  rw [hsub, length_filter_lt_length_iff_exists]
  exact ⟨window, h, by simp⟩

theorem outstanding_length_le {out : List ReadWindow}
    (h : Accounts content load.requested load.localCache load.pending out) :
    out.length ≤ load.missing.length := by
  have hnodup : out.Nodup := List.Nodup.of_map ReadWindow.offset h.nodup
  exact (hnodup.subperm h.lacking).length_le

variable {cache cache' : SharedWindowCache others}

theorem unlessBlocked_congr {load' : WindowLoad others}
    (h : load'.Blocked cache' ↔ load.Blocked cache) (amount : Nat) :
    load'.unlessBlocked cache' amount = load.unlessBlocked cache amount := by
  rw [unlessBlocked, unlessBlocked, if_congr h rfl rfl]

theorem unlessBlocked_of_loading (hwindow : window ∈ load.waiting)
    (hloading : cache.Loading window.offset) (amount : Nat) : load.unlessBlocked cache amount = 0 :=
  if_pos ⟨window, hwindow, hloading⟩

theorem unlessBlocked_of_nil (h : load.waiting = []) (amount : Nat) :
    load.unlessBlocked cache amount = amount := by
  rw [unlessBlocked, if_neg]
  simp [Blocked, h]

theorem effort_congr (hloading : ∀ offset, cache'.Loading offset ↔ cache.Loading offset)
    (load : WindowLoad others) : load.effort cache' = load.effort cache := by
  have hblocked : load.Blocked cache' ↔ load.Blocked cache := by
    simp only [Blocked, hloading]
  simp only [effort, unlessBlocked_congr hblocked]

theorem effort_behind_lt {rest : List ReadWindow} (hphase : load.phase = .lookup (window :: rest))
    (hloading : cache.Loading window.offset) :
    ((load.lookedUp window .loading).continueLookups rest).effort cache < load.effort cache := by
  have hbefore : 3 * (rest.length + 1) + 2 * load.waiting.length + 3 ≤ load.effort cache := by
    simp only [effort, hphase, length_cons]
    omega
  have hlength : (load.lookedUp window .loading).waiting.length = load.waiting.length + 1 := by
    simp [lookedUp]
  -- the window waited for is blocked, whichever phase comes next
  have hblocked : ∀ phase amount,
      ({ load.lookedUp window .loading with phase := phase } : WindowLoad others).unlessBlocked
        cache amount = 0 := by
    intro phase amount
    have hmem : window ∈ (load.lookedUp window .loading).waiting := by simp [lookedUp]
    exact unlessBlocked_of_loading hmem hloading amount
  refine lt_of_lt_of_le ?_ hbefore
  rw [continueLookups, afterLookups, startWaiting]
  split
  · split
    · split
      · rename_i hwaiting
        simp [lookedUp] at hwaiting
      · simp only [effort, hblocked, hlength, Bool.false_eq_true, if_false]
        omega
    · simp only [effort, hblocked, hlength]
      omega
  · simp only [effort, hblocked, hlength]
    omega

theorem effort_waited_lt {waiting : List ReadWindow} (hphase : load.phase = .wait false)
    (hwaiting : load.waiting = window :: waiting) (hidle : ¬cache.Loading window.offset) :
    ({ load with waiting := waiting } : WindowLoad others).startWaiting.effort cache <
      load.effort cache := by
  have hmissing : load.missing.length ≤ load.pending.length := length_filter_le _ _
  have hbefore : load.effort cache =
      load.unlessBlocked cache (2 * load.bulk) + 2 * (waiting.length + 1) + 1 := by
    simp only [effort, hphase, hwaiting, length_cons, Bool.false_eq_true, if_false]
  have hblocked : ∀ phase, ({ load with waiting := waiting, phase := phase } :
      WindowLoad others).Blocked cache ↔ load.Blocked cache := by
    intro phase
    simp [Blocked, hwaiting, hidle]
  rw [hbefore, startWaiting]
  split
  · rename_i hempty
    obtain rfl : waiting = [] := isEmpty_iff.mp hempty
    have hfree : load.unlessBlocked cache (2 * load.bulk) = 2 * load.bulk := by
      rw [← unlessBlocked_congr (hblocked load.phase)]
      exact unlessBlocked_of_nil rfl _
    rw [hfree, beginRound]
    split
    · exact Nat.zero_lt_succ _
    · have hround : ∀ pending : List ReadWindow,
          ({ load with
            pending := pending, reserved := [], waiting := [], phase := .lookup pending } :
            WindowLoad others).effort cache = 4 * pending.length + 5 + 3 * pending.length + 3 := by
        intro pending
        simp only [effort, isEmpty_nil, if_true]
        rw [unlessBlocked_of_nil rfl]
        rfl
      refine lt_of_eq_of_lt (hround load.missing) ?_
      rw [bulk, length_nil]
      omega
  · simp only [effort, unlessBlocked_congr (hblocked _), bulk, Bool.false_eq_true, if_false]
    omega

/-- A step lowers the announcements, or else the reservations that are left, or else the effort,
and in the last case no load and no waiter changes. -/
def Declines (cache : SharedWindowCache others) (load : WindowLoad others)
    (cache' : SharedWindowCache others) (load' : WindowLoad others)
    (notified : Option (Fin (others + 1))) : Prop :=
  load'.announcements < load.announcements ∨
  (load'.announcements = load.announcements ∧ load'.reservationsLeft < load.reservationsLeft) ∨
  (load'.announcements = load.announcements ∧ load'.reservationsLeft = load.reservationsLeft ∧
    notified = none ∧ (∀ offset, cache'.Loading offset ↔ cache.Loading offset) ∧
    load'.effort cache' < load.effort cache)

section Declines

variable {load' : WindowLoad others} {notified : Option (Fin (others + 1))}

/-- A window that is found is missing no more. -/
theorem declines_of_found (hmem : window ∈ load.missing)
    (hbefore : load.announcements = (others + 2) * load.missing.length) (payload : WindowPayload)
    {found : WindowLoad others} (hsettled : found.Settled load')
    (hfound : found.missing = (load.insertWindow window payload).missing) :
    load.Declines cache cache' load' notified := by
  refine .inl ?_
  rw [hsettled.announcements, hbefore, hfound]
  exact Nat.mul_lt_mul_of_pos_left (missing_insertWindow_lt hmem payload) (Nat.succ_pos _)

theorem lookedUp_declines (h : load.Sound content) {rest : List ReadWindow}
    {result : SharedWindowCacheLookup} {shard : SharedWindowCacheShard}
    (hphase : load.phase = .lookup (window :: rest))
    (hlookup : (cache.shard window.offset).lookupOrReserve window.offset window.length =
      (result, shard)) :
    load.Declines cache (cache.replace (shardIndex others window.offset) shard)
      ((load.lookedUp window result).continueLookups rest) none := by
  have haccounts := h.todo_accounts hphase
  have hbefore : load.announcements = (others + 2) * load.missing.length := by
    simp only [announcements, hphase]
  have hleft : load.reservationsLeft = load.missing.length - load.reserved.length := by
    simp only [reservationsLeft, hphase]
  obtain ⟨hsettled, -, hleft'⟩ := continueLookups_settled (load.lookedUp window result) rest
  rcases lookupOrReserve_loading hlookup with ⟨payload, rfl, -⟩ | ⟨rfl, -⟩ | ⟨rfl, hbusy, hloading⟩
  · exact declines_of_found (haccounts.lacking window (by simp)) hbefore
      (.shared payload) hsettled rfl
  · have hroom := outstanding_length_le haccounts
    simp only [length_append, length_cons] at hroom
    refine .inr (.inl ⟨hsettled.announcements.trans hbefore.symm, ?_⟩)
    rw [hleft', hleft]
    change load.missing.length - (load.reserved ++ [window]).length < _
    rw [length_append, length_singleton]
    omega
  · have hsame := loading_replace_same hloading
    refine .inr (.inr ⟨hsettled.announcements.trans hbefore.symm,
      hleft'.trans hleft.symm, rfl, hsame, ?_⟩)
    rw [effort_congr hsame]
    exact effort_behind_lt hphase hbusy

theorem readReserved_declines (h : load.Sound content) (hphase : load.phase = .read)
    (outcome : IoResult (ReadWindow → Nat)) :
    load.Declines cache cache (load.readReserved content outcome) none := by
  have hbefore : load.announcements = (others + 2) * load.missing.length := by
    simp only [announcements, hphase]
  cases outcome with
  | ok spare =>
    refine .inr (.inr ⟨?_, ?_, rfl, fun _ => Iff.rfl, ?_⟩)
    · rw [hbefore]
      rfl
    · simp only [reservationsLeft, hphase]
      rfl
    · simp only [effort, hphase]
      change load.unlessBlocked cache (3 * load.bulk) + 2 * load.waiting.length + 1 < _
      omega
  | error error =>
    have hreserved : load.reserved ≠ [] := by simpa only [PhaseSound, hphase] using h.phase
    have hroom := outstanding_length_le (h.rest_accounts (by simp [todo, hphase]))
    have hshards : (load.readReserved content (.error error)).announcements ≤ others + 1 := by
      refine (length_filter_le _ _).trans ?_
      rw [length_finRange]
    have hpos : 0 < load.reserved.length := length_pos_iff.mpr hreserved
    rw [length_append] at hroom
    have hone := Nat.mul_le_mul_left (others + 2) (show 1 ≤ load.missing.length by omega)
    exact .inl (by omega)

theorem waited_declines (h : load.Sound content) {waiting : List ReadWindow}
    {payload : Option ByteVec} {shard : SharedWindowCacheShard} (hphase : load.phase = .wait false)
    (hwaiting : load.waiting = window :: waiting) (hidle : ¬cache.Loading window.offset)
    (hwait : (cache.shard window.offset).waitFor window.offset window.length =
      some (payload, shard)) :
    load.Declines cache (cache.replace (shardIndex others window.offset) shard)
      ({ load with waiting := waiting }.waited window payload) none := by
  have hmem : window ∈ load.missing :=
    (h.rest_accounts (by simp [todo, hphase])).lacking window (by simp [hwaiting])
  have hnone := (h.of_wait hphase).2
  have hbefore : load.announcements = (others + 2) * load.missing.length := by
    simp only [announcements, hphase]
  cases payload with
  | some stored =>
    exact declines_of_found hmem hbefore (.shared stored) (startWaiting_settled _) rfl
  | none =>
    have hsame := loading_replace_same (waitFor_eq_some hwait).2.1
    have hsettled := startWaiting_settled { load with waiting := waiting }
    refine .inr (.inr ⟨hsettled.announcements.trans hbefore.symm, ?_, rfl, hsame, ?_⟩)
    · have hleft : load.reservationsLeft = load.missing.length := by
        simp only [reservationsLeft, hphase, hnone, length_nil, Nat.sub_zero]
      exact (hsettled.free hnone).2.trans hleft.symm
    · rw [effort_congr hsame]
      exact effort_waited_lt hphase hwaiting hidle

theorem Moves.declines (hmoves : Moves content cache load cache' load' notified)
    (h : load.Sound content) : load.Declines cache cache' load' notified := by
  cases hmoves with
  | lookedUp hphase hlookup => exact lookedUp_declines h hphase hlookup
  | read outcome hphase => exact readReserved_declines h hphase outcome
  | @published window reserved payload payloads hphase hreserved =>
    have hmem : window ∈ load.missing :=
      (h.rest_accounts (by simp [todo, hphase])).lacking window (by simp [hreserved])
    exact declines_of_found hmem (by simp only [announcements, hphase]) (.shared payload)
      (published_settled _ _) rfl
  | @cancelled offsets index shards error hphase =>
    refine .inl ?_
    simp only [announcements, hphase, WindowLoad.cancelled]
    cases shards with
    | nil => simp
    | cons index' shards => simp
  | @slept window waiting hphase hwaiting hloading =>
    refine .inr (.inr ⟨?_, ?_, rfl, fun _ => Iff.rfl, ?_⟩)
    · simp only [announcements, hphase]
      rfl
    · simp only [reservationsLeft, hphase]
      rfl
    · simp only [effort, hphase, if_true, Bool.false_eq_true, if_false]
      change load.unlessBlocked cache (2 * load.bulk) + 2 * load.waiting.length + 0 < _
      omega
  | waited hphase hwaiting hidle hwait => exact waited_declines h hphase hwaiting hidle hwait
  | readUnshared outcome hphase =>
    refine .inl ?_
    simp only [announcements, hphase]
    cases outcome <;> exact Nat.one_pos

end Declines

@[simp] theorem announcements_wake (load : WindowLoad others) (index : Fin (others + 1)) :
    (load.wake index).announcements = load.announcements := by
  rcases load.wake_cases index with heq | ⟨hphase, heq⟩
  · rw [heq]
  · rw [heq]
    simp only [announcements, hphase]
    rfl

@[simp] theorem reservationsLeft_wake (load : WindowLoad others) (index : Fin (others + 1)) :
    (load.wake index).reservationsLeft = load.reservationsLeft := by
  rcases load.wake_cases index with heq | ⟨hphase, heq⟩
  · rw [heq]
  · rw [heq]
    simp only [reservationsLeft, hphase]
    rfl

end WindowLoad

namespace WindowLoads

variable {n others : Nat} {content : Nat → UInt8}

def progress (s : WindowLoads n others) : ℕ ×ₗ ℕ ×ₗ ℕ :=
  rank (∑ i, (s.loads i).announcements) (∑ i, (s.loads i).reservationsLeft)
    (∑ i, (s.loads i).effort s.cache)

theorem progress_lt {s s' : WindowLoads n others} (h : s.Invariant content)
    (hstep : Step content s s') : s'.progress < s.progress := by
  obtain ⟨i, outcome, hstep⟩ := hstep
  obtain ⟨load, notified, hmoves, hi, hothers⟩ := step_cases hstep
  have hannounce : (s'.loads i).announcements = load.announcements := by
    rw [hi]
    cases notified <;> simp
  have hreserve : (s'.loads i).reservationsLeft = load.reservationsLeft := by
    rw [hi]
    cases notified <;> simp
  have hannounceOthers : ∀ j, j ≠ i → (s'.loads j).announcements = (s.loads j).announcements := by
    intro j hj
    rw [hothers j hj]
    cases notified <;> simp
  have hreserveOthers : ∀ j, j ≠ i →
      (s'.loads j).reservationsLeft = (s.loads j).reservationsLeft := by
    intro j hj
    rw [hothers j hj]
    cases notified <;> simp
  rw [progress, progress, rank_lt_iff]
  rcases hmoves.declines (h.sound i) with hlt | ⟨heq, hlt⟩ | ⟨heq, heq', rfl, hloading, hlt⟩
  · exact .inl (sum_lt_of_one i (hannounce ▸ hlt) hannounceOthers)
  · exact .inr ⟨sum_eq_of_one i (hannounce.trans heq) hannounceOthers,
      .inl (sum_lt_of_one i (hreserve ▸ hlt) hreserveOthers)⟩
  · refine .inr ⟨sum_eq_of_one i (hannounce.trans heq) hannounceOthers,
      .inr ⟨sum_eq_of_one i (hreserve.trans heq') hreserveOthers, sum_lt_of_one i ?_ ?_⟩⟩
    · rw [hi]
      exact hlt
    · intro j hj
      rw [hothers j hj]
      exact effort_congr hloading _

theorem exists_step {s : WindowLoads n others} (h : s.Invariant content)
    (hrunning : ∃ i, ∀ result, (s.loads i).phase ≠ .returned result) :
    ∃ s', Step content s s' := by
  have hmove : ∀ i, (∀ result, (s.loads i).phase ≠ .returned result) →
      (s.loads i).phase ≠ .wait true → ∃ s', Step content s s' := by
    intro i hreturned hawake
    obtain ⟨moved, hmoved⟩ := Option.isSome_iff_exists.mp (step_isSome (h.sound i)
      hreturned hawake (.ok fun _ => 0) s.cache)
    exact ⟨_, i, .ok fun _ => 0, by rw [step, hmoved]⟩
  obtain ⟨i, hreturned⟩ := hrunning
  by_cases hasleep : (s.loads i).phase = .wait true
  · obtain ⟨window, rest, hwaiting⟩ := exists_cons_of_ne_nil ((h.sound i).of_wait hasleep).1
    have hloading := h.asleep i window ⟨hasleep, by rw [hwaiting]; rfl⟩
    obtain ⟨j, hj⟩ := (h.leased.taken_iff window.offset).mp hloading
    -- the holder of the reservation has not returned and does not sleep
    have hholds : (s.loads j).reserved ≠ [] := by
      intro hnone
      rw [Holds, hnone] at hj
      cases hj
    apply hmove j
    · exact fun result heq => hholds ((h.sound j).of_returned heq).1
    · exact fun heq => hholds ((h.sound j).of_wait heq).2
  · exact hmove i hreturned hasleep

/-! ### Whole runs -/

/-- A call on the way in: the option that turns sharing off, the windows, and
what the query holds already. -/
structure Request where
  sharedCacheBytes : Nat
  windows : List ReadWindow
  localCache : AdjacencyWindowCache

def begin (cache : SharedWindowCache others) (requests : Fin n → Request) :
    WindowLoads n others where
  cache := cache
  loads i :=
    .start (requests i).sharedCacheBytes (requests i).windows (requests i).localCache

theorem start_accounts {windows : List ReadWindow}
    (h : (windows.map ReadWindow.offset).Nodup) (localCache : AdjacencyWindowCache) :
    Accounts content (missingFrom localCache windows) localCache (missingFrom localCache windows)
      [] where
  distinct := h.sublist (filter_sublist.map _)
  sublist := List.Sublist.refl _
  covered _ hwindow := .inl hwindow
  correct window hwindow payload hpayload := by
    have hkey := (mem_missingFrom.mp hwindow).2
    rw [AdjacencyWindowCache.get] at hpayload
    rw [AdjacencyWindowCache.containsKey, hpayload] at hkey
    cases hkey
  nodup := nodup_nil
  lacking := nofun

theorem start_sound {windows : List ReadWindow} (h : (windows.map ReadWindow.offset).Nodup)
    (sharedCacheBytes : Nat) (localCache : AdjacencyWindowCache) :
    (start sharedCacheBytes windows localCache : WindowLoad others).Sound content := by
  have haccounts : Accounts content _ _ _ _ := start_accounts h localCache
  have hmissing := missing_of_missing localCache windows
  rw [start]
  split
  · rename_i hempty
    have hnone : missingFrom localCache windows = [] := isEmpty_iff.mp hempty
    refine ⟨haccounts, rfl, fun _ window hwindow => ?_⟩
    change window ∈ missingFrom localCache windows at hwindow
    rw [hnone] at hwindow
    cases hwindow
  · split
    · exact ⟨haccounts, rfl, rfl, hmissing⟩
    · exact beginRound_sound haccounts

/-- A load before its first step. -/
structure Fresh (windows : List ReadWindow) (localCache : AdjacencyWindowCache)
    (load : WindowLoad others) : Prop where
  reserved : load.reserved = []
  awake : load.phase ≠ .wait true
  requested : load.requested = missingFrom localCache windows
  localCache : load.localCache = localCache

theorem start_fresh (sharedCacheBytes : Nat) (windows : List ReadWindow)
    (localCache : AdjacencyWindowCache) :
    Fresh windows localCache (start sharedCacheBytes windows localCache : WindowLoad others) := by
  rw [start]
  split
  · exact ⟨rfl, by simp, rfl, rfl⟩
  · split
    · exact ⟨rfl, by simp, rfl, rfl⟩
    · rw [beginRound]
      split <;> exact ⟨rfl, by simp, rfl, rfl⟩

section Reachable

variable {cache : SharedWindowCache others} (hidle : ∀ k, (cache.shards k).loading = ∅)
  (hfaithful : cache.AllShards fun _ shard => shard.Faithful content) {requests : Fin n → Request}
  (hdistinct : ∀ i, ((requests i).windows.map ReadWindow.offset).Nodup)

include hidle hfaithful hdistinct

theorem begin_invariant : (begin cache requests).Invariant content where
  sound i := start_sound (hdistinct i) _ _
  leased := by
    constructor
    · intro offset
      constructor
      · intro hloading
        change offset ∈ (cache.shards _).loading at hloading
        rw [hidle] at hloading
        cases hloading
      · rintro ⟨i, hholds⟩
        rw [Holds, begin, (start_fresh ..).reserved] at hholds
        cases hholds
    · intro i j offset hholds
      rw [Holds, begin, (start_fresh ..).reserved] at hholds
      cases hholds
  asleep i window hasleep := absurd hasleep.1 (start_fresh ..).awake
  faithful := hfaithful
  placed k offset hoffset := by
    change offset ∈ (cache.shards k).loading at hoffset
    rw [hidle] at hoffset
    cases hoffset

variable {s : WindowLoads n others}
  (hreach : Relation.ReflTransGen (Step content) (begin cache requests) s)

include hreach

theorem reachable_keeps :
    s.Invariant content ∧ ∀ i, ((begin cache requests).loads i).Keeps (s.loads i) := by
  refine invariant_of_reachable (I := fun s : WindowLoads n others =>
    s.Invariant content ∧ ∀ i, ((begin cache requests).loads i).Keeps (s.loads i)) ?_
      ⟨begin_invariant hidle hfaithful hdistinct, fun i => .refl _⟩ hreach
  exact fun s s' hs hstep => ⟨hs.1.step hstep, fun i => (hs.2 i).trans (keeps_of_step hs.1 hstep i)⟩

/-- A load that has succeeded holds what the query held before and its windows. -/
theorem containsKey_of_returned {i : Fin n} (hreturned : (s.loads i).phase = .returned (.ok ()))
    (offset : Nat) : (s.loads i).localCache.containsKey offset = true ↔
      (requests i).localCache.containsKey offset = true ∨
        offset ∈ (requests i).windows.map ReadWindow.offset := by
  obtain ⟨h, hkeeps⟩ := reachable_keeps hidle hfaithful hdistinct hreach
  have hfresh : Fresh (requests i).windows (requests i).localCache
      ((begin cache requests).loads i) := start_fresh ..
  constructor
  · intro hheld
    rcases (hkeeps i).2.2 offset hheld with hold | hmem
    · exact .inl (hfresh.localCache ▸ hold)
    · rw [hfresh.requested] at hmem
      exact .inr (map_subset _ (filter_subset_self _) hmem)
  · intro hheld
    by_cases hkey : (requests i).localCache.containsKey offset = true
    · exact (hkeeps i).2.1 offset (hfresh.localCache ▸ hkey)
    · obtain ⟨window, hwindow, rfl⟩ := mem_map.mp (hheld.resolve_left hkey)
      apply ((h.sound i).of_returned hreturned).2 rfl window
      rw [(hkeeps i).1, hfresh.requested]
      exact mem_missingFrom.mpr ⟨hwindow, by simpa using hkey⟩

/-- The call as a query makes it, whatever its environment answers, and the load among others
leave the same windows with the query when they succeed. -/
theorem loadAdjacencyWindows_agrees {i : Fin n}
    (hreturned : (s.loads i).phase = .returned (.ok ())) {World : Type}
    {env : QueryEnvironment World} {reader : DiskAnnReader} {rounds : Nat} {q q' : QueryState World}
    (hq : q.windowCache = (requests i).localCache)
    (hload : Effect.run (loadAdjacencyWindows env reader rounds (requests i).windows) q =
      (.ok (), q')) (offset : Nat) :
    q'.windowCache.containsKey offset = true ↔
      (s.loads i).localCache.containsKey offset = true := by
  rw [loadAdjacencyWindows_containsKey hload, hq,
    containsKey_of_returned hidle hfaithful hdistinct hreach hreturned]

end Reachable

/-- Any number of loads over one cache, in any order of their steps and with
any reads failing. -/
theorem single_flight_protocol (content : Nat → UInt8) (cache : SharedWindowCache others)
    (hidle : ∀ k, (cache.shards k).loading = ∅)
    (hfaithful : cache.AllShards fun _ shard => shard.Faithful content)
    (requests : Fin n → Request)
    (hdistinct : ∀ i, ((requests i).windows.map ReadWindow.offset).Nodup) :
    (∀ s, Relation.ReflTransGen (Step content) (begin cache requests) s →
      (∀ offset, (s.cache.Loading offset ↔ ∃ i, (s.loads i).Holds offset) ∧
        ∀ i j, (s.loads i).Holds offset → (s.loads j).Holds offset → i = j) ∧
      (∀ i asleep, (s.loads i).phase = .wait asleep → (s.loads i).reserved = []) ∧
      ((∃ i, ∀ result, (s.loads i).phase ≠ .returned result) → ∃ s', Step content s s') ∧
      ((∀ i, ∃ result, (s.loads i).phase = .returned result) →
        ∀ k, (s.cache.shards k).loading = ∅) ∧
      (∀ i, ∀ window ∈ (requests i).windows,
        (requests i).localCache.containsKey window.offset = false → ∀ payload,
        (s.loads i).localCache.get window.offset = some payload →
        payload.asSlice = fileWindow content window) ∧
      ∀ i, (s.loads i).phase = .returned (.ok ()) → ∀ window ∈ (requests i).windows,
        (s.loads i).localCache.containsKey window.offset = true) ∧
    ∀ run : ℕ → WindowLoads n others, run 0 = begin cache requests →
      ¬∀ k, Step content (run k) (run (k + 1)) := by
  refine ⟨fun s hreach => ?_, fun run hrun => ?_⟩
  · obtain ⟨h, hkeeps⟩ := reachable_keeps hidle hfaithful hdistinct hreach
    have hrequested : ∀ i, (s.loads i).requested =
        missingFrom (requests i).localCache (requests i).windows :=
      fun i => (hkeeps i).1.trans (start_fresh ..).requested
    refine ⟨fun offset => ⟨h.leased.taken_iff offset, fun i j => h.leased.unique⟩, ?_,
      exists_step h, ?_, ?_, ?_⟩
    · exact fun i asleep hphase => ((h.sound i).of_wait hphase).2
    · intro hreturned k
      refine Finset.eq_empty_of_forall_notMem fun offset hoffset => ?_
      have hloading : s.cache.Loading offset := by
        rw [Loading, shard, h.placed k offset hoffset]
        exact hoffset
      obtain ⟨i, hholds⟩ := (h.leased.taken_iff offset).mp hloading
      obtain ⟨result, hphase⟩ := hreturned i
      rw [Holds, ((h.sound i).of_returned hphase).1] at hholds
      cases hholds
    · intro i window hwindow hkey payload hpayload
      apply (h.sound i).accounts.correct window _ payload hpayload
      rw [hrequested]
      exact mem_missingFrom.mpr ⟨hwindow, hkey⟩
    · intro i hphase window hwindow
      exact (containsKey_of_returned hidle hfaithful hdistinct hreach hphase _).mpr
        (.inr (mem_map_of_mem hwindow))
  · apply no_infinite_run progress (fun s s' h => h.step) (fun s s' h => progress_lt h)
    rw [hrun]
    exact begin_invariant hidle hfaithful hdistinct

/-- Two queries after the same two windows, through a cache without room for
either. -/
def rivalRequests : Fin 2 → Request := fun _ => ⟨1, [⟨0, 8⟩, ⟨4096, 8⟩], .empty⟩

/-- The second query sleeps while the first one reads. It finds nothing kept and reads as well. -/
def rivalSchedule : List Nat := [0, 0, 1, 1, 1, 0, 0, 0, 1, 1, 1, 1, 1, 1, 1]

theorem rivalSchedule_runs : ∃ s, (rivalSchedule.map (Fin.ofNat 2)).foldlM
    (fun s i => s.step (fun _ => 7) i (.ok fun _ => 0)) (begin (new 4) rivalRequests) = some s ∧
      ∀ i, (s.loads i).phase = .returned (.ok ()) :=
  ⟨_, rfl, Fin.forall_fin_two.mpr ⟨rfl, rfl⟩⟩

theorem single_flight_protocol_rivals :
    (∃ s, Relation.ReflTransGen (Step fun _ => 7) (begin (new 4) rivalRequests) s ∧
      (∀ k, (s.cache.shards k).loading = ∅) ∧
      ∀ i, ∃ payload, (s.loads i).localCache.get 4096 = some payload ∧
        payload.asSlice = List.replicate 8 7) ∧
    ¬∃ run : ℕ → WindowLoads 2 _, run 0 = begin (new 4) rivalRequests ∧
      ∀ k, Step (fun _ => 7) (run k) (run (k + 1)) := by
  obtain ⟨hreachable, hends⟩ := single_flight_protocol (fun _ => 7) (new 4)
    (fun _ => rfl) (fun _ _ _ h => by cases h) rivalRequests (by decide)
  refine ⟨?_, not_exists.mpr fun run hrun => hends run hrun.1 hrun.2⟩
  obtain ⟨s, hrun, hreturned⟩ := rivalSchedule_runs
  have hreach : Relation.ReflTransGen (Step fun _ => 7) (begin (new 4) rivalRequests) s :=
    reachable_of_schedule (fun s i s' hstep => ⟨i, _, hstep⟩) hrun
  obtain ⟨-, -, -, hidle, hbytes, hdone⟩ := hreachable s hreach
  refine ⟨s, hreach, hidle fun i => ⟨_, hreturned i⟩, fun i => ?_⟩
  have hwindow : (⟨4096, 8⟩ : ReadWindow) ∈ (rivalRequests i).windows := by simp [rivalRequests]
  obtain ⟨payload, hpayload⟩ := Option.isSome_iff_exists.mp (hdone i (hreturned i) _ hwindow)
  exact ⟨payload, hpayload, hbytes i _ hwindow rfl payload hpayload⟩

end WindowLoads

end PaimonVindex
