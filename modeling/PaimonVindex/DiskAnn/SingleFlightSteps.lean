import PaimonVindex.DiskAnn.SingleFlightSafety

/-! The steps of concurrent window loads, one by one, and what every state they
reach has in common. -/

namespace PaimonVindex

open Checked Interleaving SharedWindowCache SharedWindowCacheShard WindowLoad List

namespace WindowLoad

variable {others : Nat} {content : Nat → UInt8} {load : WindowLoad others}

/-! ### What a step changes -/

/-- The steps a load can take, with what each leaves behind. -/
inductive Moves (content : Nat → UInt8) (cache : SharedWindowCache others)
    (load : WindowLoad others) :
    SharedWindowCache others → WindowLoad others → Option (Fin (others + 1)) → Prop
  | lookedUp {window : ReadWindow} {rest : List ReadWindow} {result : SharedWindowCacheLookup}
      {shard : SharedWindowCacheShard} (hphase : load.phase = .lookup (window :: rest))
      (hlookup : (cache.shard window.offset).lookupOrReserve window.offset window.length =
        (result, shard)) :
      Moves content cache load
        (cache.replace (shardIndex others window.offset) shard)
        ((load.lookedUp window result).continueLookups rest) none
  | read (outcome : IoResult (ReadWindow → Nat)) (hphase : load.phase = .read) :
      Moves content cache load cache (load.readReserved content outcome) none
  | published {window : ReadWindow} {reserved : List ReadWindow} {payload : ByteVec}
      {payloads : List ByteVec} (hphase : load.phase = .publish (payload :: payloads))
      (hreserved : load.reserved = window :: reserved) :
      Moves content cache load
        (cache.replace (shardIndex others window.offset)
          ((cache.shard window.offset).publish window.offset payload).2)
        ({ load.insertWindow window (.shared payload) with reserved := reserved }.published
          payloads)
        (some (shardIndex others window.offset))
  | cancelled {offsets : List Nat} {index : Fin (others + 1)} {shards : List (Fin (others + 1))}
      {error : IoError} (hphase : load.phase = .cancel offsets (index :: shards) error) :
      Moves content cache load (cache.removeLoading offsets index)
        (load.cancelled offsets index shards error) (some index)
  | slept {window : ReadWindow} {waiting : List ReadWindow} (hphase : load.phase = .wait false)
      (hwaiting : load.waiting = window :: waiting) (hloading : cache.Loading window.offset) :
      Moves content cache load cache { load with phase := .wait true } none
  | waited {window : ReadWindow} {waiting : List ReadWindow} {payload : Option ByteVec}
      {shard : SharedWindowCacheShard} (hphase : load.phase = .wait false)
      (hwaiting : load.waiting = window :: waiting) (hidle : ¬cache.Loading window.offset)
      (hwait : (cache.shard window.offset).waitFor window.offset window.length =
        some (payload, shard)) :
      Moves content cache load
        (cache.replace (shardIndex others window.offset) shard)
        ({ load with waiting := waiting }.waited window payload) none
  | readUnshared (outcome : IoResult (ReadWindow → Nat)) (hphase : load.phase = .readUnshared) :
      Moves content cache load cache (load.readUnshared content outcome) none

variable {cache cache' : SharedWindowCache others} {load' : WindowLoad others}
  {notified : Option (Fin (others + 1))}

theorem moves_of_step {outcome : IoResult (ReadWindow → Nat)}
    (h : load.step content outcome cache = some (cache', load', notified)) :
    Moves content cache load cache' load' notified := by
  cases hphase : load.phase with
  | lookup todo =>
    cases todo with
    | nil => simp [step, hphase] at h
    | cons window rest =>
      simp only [step, hphase] at h
      cases h
      exact .lookedUp hphase rfl
  | read =>
    simp only [step, hphase] at h
    cases h
    exact .read outcome hphase
  | publish payloads =>
    cases payloads with
    | nil => simp [step, hphase] at h
    | cons payload payloads =>
      cases hreserved : load.reserved with
      | nil => simp [step, hphase, hreserved] at h
      | cons window reserved =>
        simp only [step, hphase, hreserved] at h
        cases h
        exact .published hphase hreserved
  | cancel offsets shards error =>
    cases shards with
    | nil => simp [step, hphase] at h
    | cons index shards =>
      simp only [step, hphase] at h
      cases h
      exact .cancelled hphase
  | wait asleep =>
    cases asleep with
    | true => simp [step, hphase] at h
    | false =>
      cases hwaiting : load.waiting with
      | nil => simp [step, hphase, hwaiting] at h
      | cons window waiting =>
        cases hwait : (cache.shard window.offset).waitFor window.offset window.length with
        | none =>
          simp only [step, hphase, hwaiting, hwait] at h
          cases h
          rw [← hwaiting]
          exact .slept hphase hwaiting (waitFor_eq_none.mp hwait)
        | some found =>
          simp only [step, hphase, hwaiting, hwait] at h
          cases h
          rw [← hphase]
          exact .waited hphase hwaiting (waitFor_eq_some hwait).1 hwait
  | readUnshared =>
    simp only [step, hphase] at h
    cases h
    exact .readUnshared outcome hphase
  | returned result => simp [step, hphase] at h

/-! ### Between the phases -/

/-- Publications and cancellations a load can still make, each window counting
for a whole cancellation. -/
def announcements (load : WindowLoad others) : Nat :=
  match load.phase with
  | .returned _ => 0
  | .cancel _ shards _ => shards.length
  | .readUnshared => 1
  | _ => (others + 2) * load.missing.length

def reservationsLeft (load : WindowLoad others) : Nat :=
  match load.phase with
  | .returned _ | .cancel _ _ _ | .readUnshared => 0
  | _ => load.missing.length - load.reserved.length

def Keeps (load load' : WindowLoad others) : Prop :=
  load'.requested = load.requested ∧
    (∀ offset, load.localCache.containsKey offset = true →
      load'.localCache.containsKey offset = true) ∧
    ∀ offset, load'.localCache.containsKey offset = true →
      load.localCache.containsKey offset = true ∨ offset ∈ load.requested.map ReadWindow.offset

theorem Keeps.refl (load : WindowLoad others) : load.Keeps load := ⟨rfl, fun _ => id, fun _ => .inl⟩

theorem Keeps.trans {load'' : WindowLoad others} (h : load.Keeps load') (h' : load'.Keeps load'') :
    load.Keeps load'' := by
  obtain ⟨hrequested, hkept, hadded⟩ := h
  refine ⟨h'.1.trans hrequested, fun offset hkey => h'.2.1 offset (hkept offset hkey), ?_⟩
  intro offset hkey
  exact (h'.2.2 offset hkey).elim (hadded offset) fun hmem => .inr (hrequested ▸ hmem)

/-- A load at the head of its next phase, having made no reservation and found
nothing on the way there. -/
structure Settled (load load' : WindowLoad others) : Prop where
  keeps : load.Keeps load'
  awake : load'.phase ≠ .wait true
  announcements : load'.announcements = (others + 2) * load.missing.length
  free : load.reserved = [] →
    load'.reserved = [] ∧ load'.reservationsLeft = load.missing.length

theorem missing_of_missing (localCache : AdjacencyWindowCache) (pending : List ReadWindow) :
    missingFrom localCache (missingFrom localCache pending) = missingFrom localCache pending := by
  simp [missingFrom]

section Settled

variable (load)

theorem beginRound_settled : load.Settled load.beginRound := by
  rw [beginRound]
  split
  · rename_i hempty
    have hnone := isEmpty_iff.mp hempty
    exact ⟨.refl load, by simp, by rw [hnone]; rfl, fun _ => ⟨rfl, by rw [hnone]; rfl⟩⟩
  · have hmissing : missingFrom load.localCache load.missing = load.missing :=
      missing_of_missing _ _
    exact ⟨.refl load, by simp, congrArg (fun missing => (others + 2) * missing.length) hmissing,
      fun _ => ⟨rfl, congrArg List.length hmissing⟩⟩

theorem startWaiting_settled : load.Settled load.startWaiting := by
  rw [startWaiting]
  split
  · exact beginRound_settled load
  · refine ⟨.refl load, by simp, rfl, fun hnone => ⟨hnone, ?_⟩⟩
    simp [reservationsLeft, hnone, missing]

theorem published_settled (payloads : List ByteVec) : load.Settled (load.published payloads) := by
  rw [published]
  split
  · exact startWaiting_settled load
  · refine ⟨.refl load, by simp, rfl, fun hnone => ⟨hnone, ?_⟩⟩
    simp [reservationsLeft, hnone, missing]

theorem continueLookups_settled (rest : List ReadWindow) :
    load.Settled (load.continueLookups rest) ∧
      (load.continueLookups rest).reserved = load.reserved ∧
      (load.continueLookups rest).reservationsLeft =
        load.missing.length - load.reserved.length := by
  rw [continueLookups, afterLookups]
  split
  · split
    · rename_i hempty
      have hnone := isEmpty_iff.mp hempty
      have hsettled := startWaiting_settled load
      obtain ⟨hreserved, hleft⟩ := hsettled.free hnone
      exact ⟨hsettled, by rw [hreserved, hnone], by rw [hleft, hnone]; rfl⟩
    · rename_i hheld
      exact ⟨⟨.refl load, by simp, rfl, fun hnone => absurd (isEmpty_iff.mpr hnone) hheld⟩,
        rfl, rfl⟩
  · refine ⟨⟨.refl load, by simp, rfl, fun hnone => ⟨hnone, ?_⟩⟩, rfl, rfl⟩
    simp [reservationsLeft, hnone, missing]

theorem readReserved_reserved (outcome : IoResult (ReadWindow → Nat)) :
    (load.readReserved content outcome).reserved = load.reserved := by
  cases outcome <;> rfl

end Settled

def Holds (load : WindowLoad others) (offset : Nat) : Prop :=
  offset ∈ load.reserved.map ReadWindow.offset

section Released

variable (h : load.Sound content) {window : ReadWindow} {reserved : List ReadWindow}
  {payload : ByteVec} {payloads : List ByteVec} {offsets : List Nat} {index : Fin (others + 1)}
  {shards : List (Fin (others + 1))} {error : IoError}

include h

theorem published_holds (hphase : load.phase = .publish (payload :: payloads))
    (hreserved : load.reserved = window :: reserved) (offset : Nat) :
    ({ load.insertWindow window (.shared payload) with reserved := reserved }.published
        payloads).Holds offset ↔ load.Holds offset ∧ offset ≠ window.offset := by
  have hnodup : (window.offset :: reserved.map ReadWindow.offset).Nodup := by
    have hall := h.accounts.nodup
    rw [hreserved, append_assoc, map_append] at hall
    exact hall.of_append_left
  have hholds : ({ load.insertWindow window (.shared payload) with reserved := reserved }.published
      payloads).reserved = reserved := by
    rw [published]
    split
    · rename_i hempty
      have hrest := (h.of_publish hphase hreserved).2
      obtain rfl := forall₂_nil_right_iff.mp (isEmpty_iff.mp hempty ▸ hrest)
      exact ((startWaiting_settled _).free rfl).1
    · rfl
  rw [Holds, hholds, Holds, hreserved, map_cons, mem_cons]
  constructor
  · intro hmem
    exact ⟨.inr hmem, fun heq => (nodup_cons.mp hnodup).1 (heq ▸ hmem)⟩
  · rintro ⟨heq | hmem, hne⟩
    · exact absurd heq hne
    · exact hmem

theorem cancelled_holds (hphase : load.phase = .cancel offsets (index :: shards) error)
    (offset : Nat) : (load.cancelled offsets index shards error).Holds offset ↔
      load.Holds offset ∧ ¬(offset ∈ offsets ∧ shardIndex others offset = index) := by
  have hcancel := h.phase
  simp only [PhaseSound, hphase] at hcancel
  rw [Holds, Holds]
  simp only [cancelled, mem_map, mem_filter]
  constructor
  · rintro ⟨window, ⟨hmem, hne⟩, rfl⟩
    refine ⟨⟨window, hmem, rfl⟩, fun hgiven => ?_⟩
    simp [hgiven.2] at hne
  · rintro ⟨⟨window, hmem, rfl⟩, hkeep⟩
    have hoffset := (hcancel.2.2.1 window hmem).1
    exact ⟨window, ⟨hmem, by simpa using fun heq => hkeep ⟨hoffset, heq⟩⟩, rfl⟩

theorem readUnshared_reserved (hphase : load.phase = .readUnshared)
    (outcome : IoResult (ReadWindow → Nat)) :
    (load.readUnshared content outcome).reserved = load.reserved := by
  have hnone := h.phase
  simp only [PhaseSound, hphase] at hnone
  cases outcome with
  | error error => rfl
  | ok spare =>
    have hall := (h.rest_accounts (by simp [todo, hphase])).restart
    rw [show missingFrom load.localCache load.pending = load.pending from hnone.2.2] at hall
    exact (insertAll_accounts spare hall).2.2.2.1

end Released

section

variable (hmoves : Moves content cache load cache' load' notified)

include hmoves

theorem Moves.leased {ι : Type} (hsound : load.Sound content) {own own' : ι → Nat → Prop} {i : ι}
    (h : Leased cache.Loading own) (hi : ∀ offset, own i offset ↔ load.Holds offset)
    (hi' : ∀ offset, own' i offset ↔ load'.Holds offset)
    (hothers : ∀ j, j ≠ i → ∀ offset, own' j offset ↔ own j offset) :
    Leased cache'.Loading own' := by
  -- every case that leaves loads and reservations alone
  have hsame : (∀ offset, cache'.Loading offset ↔ cache.Loading offset) →
      load'.reserved = load.reserved → Leased cache'.Loading own' := by
    intro hloading hreserved
    refine h.congr hloading fun j offset => ?_
    by_cases hj : j = i
    · subst hj
      rw [hi', hi, Holds, Holds, hreserved]
    · exact hothers j hj offset
  cases hmoves with
  | @lookedUp window rest result shard hphase hlookup =>
    have hreserved := (continueLookups_settled (load.lookedUp window result) rest).2.1
    rcases lookupOrReserve_loading hlookup with
      ⟨payload, rfl, -, -, hloading⟩ | ⟨rfl, hidle, hloading⟩ | ⟨rfl, -, hloading⟩
    · exact hsame (loading_replace_same hloading) hreserved
    · refine h.acquire hidle (loading_replace_insert hloading) (fun offset => ?_) hothers
      rw [hi', hi, Holds, Holds, hreserved]
      simp [WindowLoad.lookedUp, or_comm]
    · exact hsame (loading_replace_same hloading) hreserved
  | read outcome hphase => exact hsame (fun _ => Iff.rfl) (readReserved_reserved load outcome)
  | @published window reserved payload payloads hphase hreserved =>
    refine h.release (fun offset => offset = window.offset) ?_
      (loading_replace_erase (publish_loading _ _ _)) (fun offset => ?_) hothers
    · rintro offset - rfl
      rw [hi, Holds, hreserved]
      exact mem_cons_self
    · rw [hi', hi, published_holds hsound hphase hreserved]
  | @cancelled offsets index shards error hphase =>
    have hcancel := hsound.phase
    simp only [PhaseSound, hphase] at hcancel
    refine h.release (fun offset => offset ∈ offsets ∧ shardIndex others offset = index) ?_
      loading_removeLoading (fun offset => ?_) hothers
    · rintro offset - ⟨hoffset, hindex⟩
      rw [hi]
      exact hcancel.2.2.2 offset hoffset (hindex ▸ mem_cons_self)
    · rw [hi', hi, cancelled_holds hsound hphase]
  | slept hphase hwaiting hloading => exact hsame (fun _ => Iff.rfl) rfl
  | @waited window waiting payload shard hphase hwaiting hidle hwait =>
    refine hsame (loading_replace_same (waitFor_eq_some hwait).2.1) ?_
    rw [(hsound.of_wait hphase).2]
    exact ((startWaiting_settled _).free (by cases payload <;> rfl)).1
  | readUnshared outcome hphase =>
    exact hsame (fun _ => Iff.rfl) (readUnshared_reserved hsound hphase outcome)

theorem Moves.loading {offset : Nat} (h : cache.Loading offset) :
    cache'.Loading offset ∨ notified = some (shardIndex others offset) := by
  cases hmoves with
  | @lookedUp window rest result shard hphase hlookup =>
    rcases lookupOrReserve_loading hlookup with
      ⟨payload, -, -, -, hloading⟩ | ⟨-, -, hloading⟩ | ⟨-, -, hloading⟩
    · exact .inl ((loading_replace_same hloading offset).mpr h)
    · exact .inl ((loading_replace_insert hloading offset).mpr (.inr h))
    · exact .inl ((loading_replace_same hloading offset).mpr h)
  | read outcome hphase => exact .inl h
  | @published window reserved payload payloads hphase hreserved =>
    by_cases heq : offset = window.offset
    · exact .inr (by rw [heq])
    · exact .inl ((loading_replace_erase
        (publish_loading _ _ _) offset).mpr ⟨h, heq⟩)
  | @cancelled offsets index shards error hphase =>
    by_cases hindex : shardIndex others offset = index
    · exact .inr (by rw [hindex])
    · exact .inl (loading_removeLoading offset |>.mpr
        ⟨h, fun hgiven => hindex hgiven.2⟩)
  | slept hphase hwaiting hloading => exact .inl h
  | @waited window waiting payload shard hphase hwaiting hidle hwait =>
    exact .inl ((loading_replace_same (waitFor_eq_some hwait).2.1 offset).mpr h)
  | readUnshared outcome hphase => exact .inl h

theorem Moves.sound (hfaithful : cache.AllShards fun _ shard => shard.Faithful content)
    (h : load.Sound content) :
    load'.Sound content := by
  -- what is stored in the length of the window is the window
  have hstored : ∀ {window : ReadWindow} {payload : ByteVec},
      (cache.shard window.offset).entries window.offset = some payload →
      payload.bytes.length = window.length → payload.bytes = fileWindow content window := by
    intro window payload hentry hlength
    have hbytes := hfaithful _ _ _ hentry
    rwa [hlength] at hbytes
  cases hmoves with
  | @lookedUp window rest result shard hphase hlookup =>
    apply lookedUp_sound h hphase
    rintro payload rfl
    rcases lookupOrReserve_loading hlookup with
      ⟨payload', heq, hentry, hlength, -⟩ | ⟨heq, -⟩ | ⟨heq, -⟩
    · cases heq
      exact hstored hentry hlength
    · cases heq
    · cases heq
  | read outcome hphase => exact readReserved_sound h hphase outcome
  | published hphase hreserved => exact published_sound h hphase hreserved
  | cancelled hphase => exact cancelled_sound h hphase
  | slept hphase hwaiting hloading =>
    have haccounts := h.rest_accounts (by simp [todo, hphase])
    exact ⟨by simpa [todo] using haccounts, h.of_wait hphase⟩
  | @waited window waiting payload shard hphase hwaiting hidle hwait =>
    apply waited_sound h hphase hwaiting
    intro stored heq
    obtain ⟨hentry, hlength⟩ := (waitFor_eq_some hwait).2.2 stored heq
    exact hstored hentry hlength
  | readUnshared outcome hphase => exact readUnshared_sound h hphase outcome

end

def Asleep (load : WindowLoad others) (window : ReadWindow) : Prop :=
  load.phase = .wait true ∧ load.waiting.head? = some window

theorem keeps_insertWindow {window : ReadWindow} (hmem : window ∈ load.requested)
    (payload : WindowPayload) : load.Keeps (load.insertWindow window payload) := by
  refine ⟨rfl, fun _ hkey => (AdjacencyWindowCache.insert_containsKey ..).mpr (.inr hkey), ?_⟩
  intro offset hkey
  rcases (AdjacencyWindowCache.insert_containsKey ..).mp hkey with rfl | hold
  · exact .inr (mem_map_of_mem hmem)
  · exact .inl hold

theorem Sound.requested_of_missing (h : load.Sound content) {window : ReadWindow}
    (hmem : window ∈ load.missing) : window ∈ load.requested :=
  h.accounts.sublist.subset (mem_filter.mp hmem).1

theorem keeps_wake (load : WindowLoad others) (index : Fin (others + 1)) :
    load.Keeps (load.wake index) := by
  rcases load.wake_cases index with heq | ⟨-, heq⟩ <;> rw [heq] <;> exact .refl load

variable (hmoves : Moves content cache load cache' load' notified)

include hmoves

theorem Moves.allShards {P : Fin (others + 1) → SharedWindowCacheShard → Prop}
    (hstable : ∀ i, Stable (P i))
    (hinserted : ∀ shard window payload, P (shardIndex others window.offset) shard →
      payload.bytes = fileWindow content window →
      P (shardIndex others window.offset) (shard.inserted window.offset payload))
    (hsound : load.Sound content) (h : cache.AllShards P) : cache'.AllShards P := by
  cases hmoves with
  | @lookedUp window rest result shard hphase hlookup =>
    have hshard := (hstable _).lookupOrReserve
      (h (shardIndex others window.offset)) window.offset window.length
    rw [show cache.shards (shardIndex others window.offset) =
      cache.shard window.offset from rfl, hlookup] at hshard
    exact h.replace hshard
  | read outcome hphase => exact h
  | @published window reserved payload payloads hphase hreserved =>
    have hpayload := (hsound.of_publish hphase hreserved).1
    exact h.replace ((hstable _).publish (hinserted _ window payload (h _) hpayload))
  | @cancelled offsets index shards error hphase => exact h.removeLoading hstable offsets index
  | slept hphase hwaiting hloading => exact h
  | @waited window waiting payload shard hphase hwaiting hidle hwait =>
    exact h.replace ((hstable _).waitFor
      (h (shardIndex others window.offset)) hwait)
  | readUnshared outcome hphase => exact h

theorem Moves.placed (h : cache.AllShards SharedWindowCache.Placed) :
    cache'.AllShards SharedWindowCache.Placed := by
  -- a shard whose loads are among the old ones and its own offset
  have hreplace : ∀ (offset : Nat) (shard : SharedWindowCacheShard),
      (∀ x ∈ shard.loading, x = offset ∨ x ∈ (cache.shard offset).loading) →
      (cache.replace (shardIndex others offset) shard).AllShards
        SharedWindowCache.Placed := by
    intro offset shard hsub
    refine h.replace fun x hx => ?_
    rcases hsub x hx with rfl | hold
    · rfl
    · exact h _ x hold
  cases hmoves with
  | @lookedUp window rest result shard hphase hlookup =>
    apply hreplace
    intro x hx
    rcases lookupOrReserve_loading hlookup with
      ⟨payload, -, -, -, hloading⟩ | ⟨-, -, hloading⟩ | ⟨-, -, hloading⟩
    · exact .inr (hloading ▸ hx)
    · rw [hloading, Finset.mem_insert] at hx
      exact hx
    · exact .inr (hloading ▸ hx)
  | read outcome hphase => exact h
  | @published window reserved payload payloads hphase hreserved =>
    apply hreplace
    intro x hx
    rw [publish_loading] at hx
    exact .inr (Finset.mem_of_mem_erase hx)
  | @cancelled offsets index shards error hphase =>
    exact h.replace fun x hx => h index x (Finset.mem_sdiff.mp hx).1
  | slept hphase hwaiting hloading => exact h
  | @waited window waiting payload shard hphase hwaiting hidle hwait =>
    apply hreplace
    intro x hx
    exact .inr ((waitFor_eq_some hwait).2.1 ▸ hx)
  | readUnshared outcome hphase => exact h

theorem Moves.asleep {window : ReadWindow}
    (h : load'.Asleep window) : cache'.Loading window.offset := by
  cases hmoves with
  | lookedUp hphase hlookup => exact absurd h.1 (continueLookups_settled _ _).1.awake
  | read outcome hphase => cases outcome <;> cases h.1
  | published hphase hreserved => exact absurd h.1 (published_settled _ _).awake
  | @cancelled offsets index shards error hphase =>
    have hphase' := h.1
    simp only [WindowLoad.cancelled] at hphase'
    split at hphase' <;> cases hphase'
  | @slept window' waiting hphase hwaiting hloading =>
    have hhead := h.2
    simp only [hwaiting, List.head?_cons, Option.some.injEq] at hhead
    rwa [← hhead]
  | @waited window' waiting payload shard hphase hwaiting hidle hwait =>
    exact absurd h.1 (startWaiting_settled _).awake
  | readUnshared outcome hphase => cases outcome <;> cases h.1

theorem Moves.keeps (h : load.Sound content) : load.Keeps load' := by
  cases hmoves with
  | @lookedUp window rest result shard hphase hlookup =>
    refine Keeps.trans ?_ (continueLookups_settled _ rest).1.keeps
    cases result with
    | hit payload =>
      have hmem : window ∈ load.missing := (h.todo_accounts hphase).lacking window (by simp)
      exact keeps_insertWindow (h.requested_of_missing hmem) _
    | reserved => exact .refl load
    | loading => exact .refl load
  | read outcome hphase => cases outcome <;> exact .refl load
  | @published window reserved payload payloads hphase hreserved =>
    have hmem : window ∈ load.missing :=
      (h.rest_accounts (by simp [todo, hphase])).lacking window (by simp [hreserved])
    exact (keeps_insertWindow (h.requested_of_missing hmem) (.shared payload)).trans
      (published_settled _ _).keeps
  | cancelled hphase => exact .refl load
  | slept hphase hwaiting hloading => exact .refl load
  | @waited window waiting payload shard hphase hwaiting hidle hwait =>
    refine Keeps.trans ?_ (startWaiting_settled _).keeps
    cases payload with
    | none => exact .refl load
    | some stored =>
      have hmem : window ∈ load.missing :=
        (h.rest_accounts (by simp [todo, hphase])).lacking window (by simp [hwaiting])
      exact keeps_insertWindow (h.requested_of_missing hmem) (.shared stored)
  | readUnshared outcome hphase =>
    cases outcome with
    | error error => exact .refl load
    | ok spare =>
      have hall : ∀ (l : List ReadWindow) (load : WindowLoad others), l ⊆ load.requested →
          load.Keeps (l.foldl (fun load window =>
            load.insertWindow window (.owned (readPayload content spare window))) load) := by
        intro l
        induction l with
        | nil => exact fun load _ => .refl load
        | cons window l ih =>
          intro load hsub
          obtain ⟨hwindow, hsub⟩ := cons_subset.mp hsub
          exact (keeps_insertWindow hwindow _).trans (ih _ hsub)
      exact hall load.pending load h.accounts.sublist.subset

end WindowLoad

namespace WindowLoads

variable {n others : Nat} {content : Nat → UInt8}

/-- What every reachable state satisfies. -/
structure Invariant (content : Nat → UInt8) (s : WindowLoads n others) : Prop where
  sound : ∀ i, (s.loads i).Sound content
  leased : Leased s.cache.Loading fun i => (s.loads i).Holds
  asleep : ∀ i window, (s.loads i).Asleep window → s.cache.Loading window.offset
  faithful : s.cache.AllShards fun _ shard => shard.Faithful content
  placed : s.cache.AllShards SharedWindowCache.Placed

variable {s' s : WindowLoads n others}

theorem step_cases {i : Fin n} {outcome : IoResult (ReadWindow → Nat)}
    (h : s.step content i outcome = some s') :
    ∃ load notified, Moves content s.cache (s.loads i) s'.cache load notified ∧
      s'.loads i = notified.elim load (load.wake ·) ∧
      ∀ j, j ≠ i → s'.loads j = notified.elim (s.loads j) ((s.loads j).wake ·) := by
  rw [step] at h
  split at h
  · cases h
  · rename_i cache load notified hstep
    cases h
    refine ⟨load, notified, moves_of_step hstep, ?_, ?_⟩
    · cases notified <;> simp
    · intro j hj
      cases notified <;> simp [hj]

theorem elim_wake_sound {load : WindowLoad others} (h : load.Sound content)
    (notified : Option (Fin (others + 1))) :
    (notified.elim load (load.wake ·)).Sound content := by
  cases notified with
  | none => exact h
  | some index => exact wake_sound h index

theorem elim_wake_holds (load : WindowLoad others) (notified : Option (Fin (others + 1)))
    (offset : Nat) : (notified.elim load (load.wake ·)).Holds offset ↔ load.Holds offset := by
  cases notified with
  | none => rfl
  | some index => rw [Holds, Option.elim_some, wake_reserved, Holds]

theorem elim_wake_asleep {load : WindowLoad others} {notified : Option (Fin (others + 1))}
    {window : ReadWindow} (h : (notified.elim load (load.wake ·)).Asleep window) :
    load.Asleep window ∧ notified ≠ some (shardIndex others window.offset) := by
  cases notified with
  | none => exact ⟨h, nofun⟩
  | some index =>
    rw [Option.elim_some, wake] at h
    split at h
    · rename_i first rest hphase hwaiting
      split at h
      · cases h.1
      · rename_i hindex
        refine ⟨h, fun heq => hindex ?_⟩
        have hhead := h.2
        rw [hwaiting, List.head?_cons, Option.some.injEq] at hhead
        rw [hhead]
        exact (Option.some.inj heq).symm
    · rename_i hnot
      obtain ⟨hphase, hhead⟩ := h
      obtain ⟨rest, hwaiting⟩ := List.head?_eq_some_iff.mp hhead
      exact absurd hwaiting (hnot window rest hphase)

theorem Invariant.step (h : s.Invariant content) (hstep : Step content s s') :
    s'.Invariant content := by
  obtain ⟨i, outcome, hstep⟩ := hstep
  obtain ⟨load, notified, hmoves, hi, hothers⟩ := step_cases hstep
  constructor
  · intro j
    by_cases hj : j = i
    · rw [hj, hi]
      exact elim_wake_sound (hmoves.sound h.faithful (h.sound i)) notified
    · rw [hothers j hj]
      exact elim_wake_sound (h.sound j) notified
  · refine hmoves.leased (h.sound i) h.leased (fun _ => Iff.rfl) (fun offset => ?_) ?_
    · rw [hi, elim_wake_holds]
    · intro j hj offset
      rw [hothers j hj, elim_wake_holds]
  · intro j window hasleep
    by_cases hj : j = i
    · rw [hj, hi] at hasleep
      exact hmoves.asleep (elim_wake_asleep hasleep).1
    · rw [hothers j hj] at hasleep
      obtain ⟨hold, hnotified⟩ := elim_wake_asleep hasleep
      rcases hmoves.loading (h.asleep j window hold) with hloading | heq
      · exact hloading
      · exact absurd heq hnotified
  · exact hmoves.allShards (fun _ => faithful_stable content)
      (fun shard window payload hshard hpayload =>
        Faithful.inserted hshard hpayload) (h.sound i) h.faithful
  · exact hmoves.placed h.placed

theorem keeps_of_step (h : s.Invariant content) (hstep : Step content s s') (i : Fin n) :
    (s.loads i).Keeps (s'.loads i) := by
  obtain ⟨j, outcome, hstep⟩ := hstep
  obtain ⟨load, notified, hmoves, hj, hothers⟩ := step_cases hstep
  have hwake : ∀ load : WindowLoad others, load.Keeps (notified.elim load (load.wake ·)) := by
    intro load
    cases notified with
    | none => exact .refl load
    | some index => exact keeps_wake load index
  by_cases hij : i = j
  · rw [hij, hj]
    exact (hmoves.keeps (h.sound j)).trans (hwake load)
  · rw [hothers i hij]
    exact hwake (s.loads i)

end WindowLoads

end PaimonVindex
