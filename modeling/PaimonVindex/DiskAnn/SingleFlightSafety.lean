import PaimonVindex.DiskAnn.SingleFlight

/-! What holds in every state of concurrent window loads: reservations have one
holder, a waiting load has none, a sleeping load has somebody to wait for, and
all payloads are the file's bytes. -/

namespace PaimonVindex

open Checked Interleaving SharedWindowCache SharedWindowCacheShard List

variable {result : SharedWindowCacheLookup} {window : ReadWindow} {payload : ByteVec}

namespace SharedWindowCacheShard

theorem evictDown_loading (capacity rounds : Nat) (shard : SharedWindowCacheShard) :
    (evictDown capacity rounds shard).2.loading = shard.loading :=
  evictDown_induction (P := fun s => s.loading = shard.loading) (fun _ _ _ h _ => h) rounds rfl

theorem publish_loading (shard : SharedWindowCacheShard) (offset : Nat) (payload : ByteVec) :
    (shard.publish offset payload).2.loading = shard.loading.erase offset := by
  rw [publish_eq, evictDown_loading]
  rfl

section

variable {shard shard' : SharedWindowCacheShard} {offset length : Nat}

theorem reserve_loading (h : shard.reserve offset = (result, shard')) :
    (result = .reserved ∧ offset ∉ shard.loading ∧
      shard'.loading = insert offset shard.loading) ∨
    (result = .loading ∧ offset ∈ shard.loading ∧ shard'.loading = shard.loading) := by
  by_cases hmem : offset ∈ shard.loading
  · right
    simp only [reserve, hmem, if_true] at h
    cases h
    exact ⟨rfl, hmem, rfl⟩
  · left
    simp only [reserve, hmem, if_false] at h
    cases h
    exact ⟨rfl, hmem, rfl⟩

theorem lookupOrReserve_loading (h : shard.lookupOrReserve offset length = (result, shard')) :
    (∃ payload, result = .hit payload ∧ shard.entries offset = some payload ∧
      payload.bytes.length = length ∧ shard'.loading = shard.loading) ∨
    (result = .reserved ∧ offset ∉ shard.loading ∧
      shard'.loading = insert offset shard.loading) ∨
    (result = .loading ∧ offset ∈ shard.loading ∧ shard'.loading = shard.loading) := by
  rcases shard.lookupOrReserve_cases offset length with
    ⟨payload, hentry, hlength, heq⟩ | ⟨-, heq⟩ | ⟨payload, -, -, heq⟩
  · rw [heq] at h
    cases h
    exact .inl ⟨payload, rfl, hentry, hlength, rfl⟩
  · exact .inr (reserve_loading (heq ▸ h))
  · have hreserve : (shard.removed offset).reserve offset = (result, shard') := heq ▸ h
    have hloading := reserve_loading hreserve
    exact .inr hloading

theorem waitFor_eq_none : shard.waitFor offset length = none ↔ offset ∈ shard.loading := by
  rw [waitFor]
  split
  · simpa
  · split <;> simpa

theorem waitFor_eq_some {payload : Option ByteVec}
    (h : shard.waitFor offset length = some (payload, shard')) :
    offset ∉ shard.loading ∧ shard'.loading = shard.loading ∧ ∀ stored, payload = some stored →
      shard.entries offset = some stored ∧ stored.bytes.length = length := by
  rw [waitFor] at h
  split at h
  · cases h
  · rename_i hmem
    split at h
    · rename_i stored hstored
      cases h
      refine ⟨hmem, rfl, ?_⟩
      rintro _ ⟨⟩
      simpa using Option.filter_eq_some_iff.mp hstored
    · cases h
      exact ⟨hmem, rfl, by simp⟩

end

def Faithful (content : Nat → UInt8) (shard : SharedWindowCacheShard) : Prop :=
  ∀ offset payload, shard.entries offset = some payload →
    payload.bytes = fileWindow content ⟨offset, payload.bytes.length⟩

theorem faithful_stable (content : Nat → UInt8) : Stable (Faithful content) where
  loading h _ := h
  touched h _ _ := h
  removed {shard} h offset other payload hentry := by
    by_cases hother : other = offset
    · subst hother
      simp [removed] at hentry
    · apply h
      simpa [removed, hother] using hentry

theorem Faithful.inserted {content : Nat → UInt8} {shard : SharedWindowCacheShard}
    (h : shard.Faithful content) (hpayload : payload.bytes = fileWindow content window) :
    (shard.inserted window.offset payload).Faithful content := by
  intro other stored hentry
  by_cases hother : other = window.offset
  · subst hother
    obtain rfl : payload = stored := by
      simpa [SharedWindowCacheShard.inserted] using hentry
    have hlength : payload.bytes.length = window.length := by simp [hpayload, fileWindow]
    rw [hlength]
    exact hpayload
  · apply h
    simpa [SharedWindowCacheShard.inserted, hother] using hentry

end SharedWindowCacheShard

namespace SharedWindowCache

variable {others : Nat}

def Loading (cache : SharedWindowCache others) (offset : Nat) : Prop :=
  offset ∈ (cache.shard offset).loading

instance (cache : SharedWindowCache others) (offset : Nat) : Decidable (cache.Loading offset) :=
  inferInstanceAs (Decidable (offset ∈ (cache.shard offset).loading))

/-- An offset is only ever loaded in its own shard. -/
def Placed (i : Fin (others + 1)) (shard : SharedWindowCacheShard) : Prop :=
  ∀ offset ∈ shard.loading, shardIndex others offset = i

variable {cache : SharedWindowCache others} {shard : SharedWindowCacheShard}
  {index : Fin (others + 1)}

theorem loading_replace {offset : Nat} :
    (cache.replace index shard).Loading offset ↔
      if shardIndex others offset = index then offset ∈ shard.loading
      else cache.Loading offset := by
  rw [Loading, SharedWindowCache.shard, SharedWindowCache.replace]
  by_cases hindex : shardIndex others offset = index
  · simp [hindex]
  · simp [hindex, Loading, SharedWindowCache.shard]

theorem loading_replace_same (h : shard.loading = (cache.shards index).loading) (offset : Nat) :
    (cache.replace index shard).Loading offset ↔ cache.Loading offset := by
  rw [loading_replace]
  split
  · rename_i hindex
    rw [h, Loading, SharedWindowCache.shard, hindex]
  · rfl

theorem loading_replace_insert {offset : Nat}
    (h : shard.loading = insert offset (cache.shard offset).loading) (other : Nat) :
    (cache.replace (shardIndex others offset) shard).Loading other ↔
      other = offset ∨ cache.Loading other := by
  rw [loading_replace]
  split
  · rename_i hindex
    rw [h, Finset.mem_insert, Loading, SharedWindowCache.shard, SharedWindowCache.shard, hindex]
  · rename_i hindex
    have hne : other ≠ offset := fun heq => hindex (heq ▸ rfl)
    simp [hne]

theorem loading_replace_erase {offset : Nat}
    (h : shard.loading = (cache.shard offset).loading.erase offset) (other : Nat) :
    (cache.replace (shardIndex others offset) shard).Loading other ↔
      cache.Loading other ∧ ¬other = offset := by
  rw [loading_replace]
  split
  · rename_i hindex
    rw [h, Finset.mem_erase, Loading, SharedWindowCache.shard, SharedWindowCache.shard, hindex,
      and_comm]
  · rename_i hindex
    have hne : other ≠ offset := fun heq => hindex (heq ▸ rfl)
    simp [hne]

theorem loading_removeLoading {offsets : List Nat} (other : Nat) :
    (cache.removeLoading offsets index).Loading other ↔
      cache.Loading other ∧ ¬(other ∈ offsets ∧ shardIndex others other = index) := by
  rw [removeLoading, loading_replace]
  by_cases hindex : shardIndex others other = index
  · simp [hindex, Loading, shard]
  · simp [hindex]

end SharedWindowCache

/-! ### One load -/

section Accounts

def missingFrom (localCache : AdjacencyWindowCache) (pending : List ReadWindow) :
    List ReadWindow :=
  pending.filter fun window => !localCache.containsKey window.offset

theorem mem_missingFrom {localCache : AdjacencyWindowCache} {pending : List ReadWindow} :
    window ∈ missingFrom localCache pending ↔
      window ∈ pending ∧ localCache.containsKey window.offset = false := by
  simp [missingFrom]

/-- A load's books: what it has is right, what it lacks is pending, and what is
reserved, waited for or to be looked up (`out`) is lacking, each window once. -/
structure Accounts (content : Nat → UInt8) (requested : List ReadWindow)
    (localCache : AdjacencyWindowCache) (pending out : List ReadWindow) : Prop where
  distinct : (requested.map ReadWindow.offset).Nodup
  sublist : pending.Sublist requested
  covered : ∀ window ∈ requested,
    window ∈ pending ∨ localCache.containsKey window.offset = true
  correct : ∀ window ∈ requested, ∀ payload, localCache.get window.offset = some payload →
    payload.asSlice = fileWindow content window
  nodup : (out.map ReadWindow.offset).Nodup
  lacking : ∀ window ∈ out, window ∈ missingFrom localCache pending

namespace Accounts

variable {content : Nat → UInt8} {requested pending out : List ReadWindow}
  {localCache : AdjacencyWindowCache}

variable (h : Accounts content requested localCache pending out)

include h

theorem perm {out' : List ReadWindow}
    (hperm : out'.Perm out) : Accounts content requested localCache pending out' :=
  { h with
    nodup := (hperm.map ReadWindow.offset).nodup_iff.mpr h.nodup
    lacking := fun window hwindow => h.lacking window (hperm.mem_iff.mp hwindow) }

theorem sub {out' : List ReadWindow}
    (hsub : out'.Sublist out) : Accounts content requested localCache pending out' :=
  { h with
    nodup := h.nodup.sublist (hsub.map ReadWindow.offset)
    lacking := fun window hwindow => h.lacking window (hsub.subset hwindow) }

theorem eq_of_offset {window' : ReadWindow}
    (hwindow : window ∈ requested) (hwindow' : window' ∈ requested)
    (hoffset : window.offset = window'.offset) : window = window' :=
  inj_on_of_nodup_map h.distinct hwindow hwindow' hoffset

omit h in
theorem insert (h : Accounts content requested localCache pending (window :: out))
    {payload : WindowPayload} (hpayload : payload.asSlice = fileWindow content window) :
    Accounts content requested (localCache.insert window.offset payload) pending out := by
  have hmem : window ∈ requested :=
    h.sublist.subset (mem_missingFrom.mp (h.lacking window mem_cons_self)).1
  constructor
  · exact h.distinct
  · exact h.sublist
  · intro other hother
    rcases h.covered other hother with hpending | hheld
    · exact .inl hpending
    · right
      rw [AdjacencyWindowCache.insert_containsKey]
      exact .inr hheld
  · intro other hother stored hstored
    by_cases hoffset : other.offset = window.offset
    · obtain rfl := h.eq_of_offset hother hmem hoffset
      obtain rfl : payload = stored := by
        simpa [AdjacencyWindowCache.get, AdjacencyWindowCache.insert] using hstored
      exact hpayload
    · apply h.correct other hother
      simpa [AdjacencyWindowCache.get, AdjacencyWindowCache.insert, hoffset] using hstored
  · exact (nodup_cons.mp h.nodup).2
  · intro other hother
    obtain ⟨hpending, hheld⟩ :=
      mem_missingFrom.mp (h.lacking other (mem_cons_of_mem _ hother))
    have hne : other.offset ≠ window.offset := by
      intro heq
      exact (nodup_cons.mp h.nodup).1 (heq ▸ mem_map_of_mem hother)
    rw [mem_missingFrom]
    refine ⟨hpending, ?_⟩
    rw [← Bool.not_eq_true, AdjacencyWindowCache.insert_containsKey]
    simp [hne, hheld]

theorem restart :
    Accounts content requested localCache (missingFrom localCache pending)
      (missingFrom localCache pending) := by
  have hsub : (missingFrom localCache pending).Sublist requested :=
    filter_sublist.trans h.sublist
  refine ⟨h.distinct, hsub, ?_, h.correct, h.distinct.sublist (hsub.map _), ?_⟩
  · intro window hwindow
    rcases h.covered window hwindow with hpending | hheld
    · by_cases hkey : localCache.containsKey window.offset = true
      · exact .inr hkey
      · exact .inl (mem_missingFrom.mpr ⟨hpending, by simpa using hkey⟩)
    · exact .inr hheld
  · intro window hwindow
    exact mem_missingFrom.mpr ⟨hwindow, (mem_missingFrom.mp hwindow).2⟩

theorem complete (hnone : missingFrom localCache pending = []) :
    ∀ window ∈ requested, localCache.containsKey window.offset = true := by
  intro window hwindow
  rcases h.covered window hwindow with hpending | hheld
  · by_contra hkey
    have : window ∈ missingFrom localCache pending :=
      mem_missingFrom.mpr ⟨hpending, by simpa using hkey⟩
    rw [hnone] at this
    cases this
  · exact hheld

end Accounts

end Accounts

namespace WindowLoad

variable {others : Nat} {content : Nat → UInt8} {load : WindowLoad others}

def todo (load : WindowLoad others) : List ReadWindow :=
  match load.phase with
  | .lookup todo => todo
  | _ => []

def PhaseSound (content : Nat → UInt8) (load : WindowLoad others) : Prop :=
  match load.phase with
  | .lookup todo => todo ≠ []
  | .read => load.reserved ≠ []
  | .publish payloads => payloads ≠ [] ∧
    List.Forall₂ (fun window payload => payload.bytes = fileWindow content window)
      load.reserved payloads
  | .cancel offsets shards _ => shards ≠ [] ∧ shards.Nodup ∧
    (∀ window ∈ load.reserved, window.offset ∈ offsets ∧
      shardIndex others window.offset ∈ shards) ∧
    ∀ offset ∈ offsets, shardIndex others offset ∈ shards →
      offset ∈ load.reserved.map ReadWindow.offset
  | .wait _ => load.waiting ≠ [] ∧ load.reserved = []
  | .readUnshared => load.reserved = [] ∧ load.waiting = [] ∧ load.missing = load.pending
  | .returned result => load.reserved = [] ∧
    (result = .ok () → ∀ window ∈ load.requested,
      load.localCache.containsKey window.offset = true)

abbrev Books (content : Nat → UInt8) (load : WindowLoad others) (out : List ReadWindow) : Prop :=
  Accounts content load.requested load.localCache load.pending out

structure Sound (content : Nat → UInt8) (load : WindowLoad others) : Prop where
  accounts : Accounts content load.requested load.localCache load.pending
    (load.reserved ++ load.waiting ++ load.todo)
  phase : load.PhaseSound content

theorem beginRound_sound {out : List ReadWindow} (h : load.Books content out) :
    load.beginRound.Sound content := by
  rw [beginRound]
  split
  · rename_i hempty
    have hnone : missingFrom load.localCache load.pending = [] := isEmpty_iff.mp hempty
    constructor
    · have hrestart := h.restart
      rwa [hnone] at hrestart
    · exact ⟨rfl, fun _ => h.complete hnone⟩
  · rename_i hmissing
    exact ⟨h.restart, fun hnone => hmissing (isEmpty_iff.mpr hnone)⟩

theorem startWaiting_sound (hreserved : load.reserved = [])
    (h : load.Books content load.waiting) :
    load.startWaiting.Sound content := by
  rw [startWaiting]
  split
  · exact beginRound_sound h
  · rename_i hwaiting
    constructor
    · simpa [todo, hreserved] using h
    · exact ⟨by simpa using hwaiting, hreserved⟩

theorem afterLookups_sound (h : load.Books content (load.reserved ++ load.waiting)) :
    load.afterLookups.Sound content := by
  rw [afterLookups]
  split
  · rename_i hreserved
    have hnone : load.reserved = [] := by simpa using hreserved
    rw [hnone] at h
    exact startWaiting_sound hnone h
  · rename_i hreserved
    exact ⟨by simpa [todo] using h, by simpa [PhaseSound] using hreserved⟩

variable {rest : List ReadWindow}

theorem continueLookups_sound (h : load.Books content (load.reserved ++ load.waiting ++ rest)) :
    (load.continueLookups rest).Sound content := by
  rw [continueLookups]
  split
  · rename_i hrest
    have hnone : rest = [] := by simpa using hrest
    rw [hnone, append_nil] at h
    exact afterLookups_sound h
  · rename_i hrest
    exact ⟨h, by simpa [PhaseSound] using hrest⟩

section

variable (h : load.Sound content)

include h

theorem Sound.todo_accounts (hphase : load.phase = .lookup (window :: rest)) :
    load.Books content (load.reserved ++ load.waiting ++ (window :: rest)) := by
  have haccounts := h.accounts
  simpa only [todo, hphase] using haccounts

theorem Sound.rest_accounts (htodo : load.todo = []) :
    load.Books content (load.reserved ++ load.waiting) := by
  have haccounts := h.accounts
  rwa [htodo, append_nil] at haccounts

theorem Sound.of_wait {asleep : Bool} (hphase : load.phase = .wait asleep) :
    load.waiting ≠ [] ∧ load.reserved = [] := by
  simpa only [PhaseSound, hphase] using h.phase

theorem Sound.of_publish {reserved : List ReadWindow} {payloads : List ByteVec}
    (hphase : load.phase = .publish (payload :: payloads))
    (hreserved : load.reserved = window :: reserved) :
    payload.bytes = fileWindow content window ∧
      List.Forall₂ (fun window payload => payload.bytes = fileWindow content window)
        reserved payloads := by
  have hread := h.phase
  simp only [PhaseSound, hphase, hreserved] at hread
  exact forall₂_cons.mp hread.2

theorem Sound.of_returned {result : IoResult Unit} (hphase : load.phase = .returned result) :
    load.reserved = [] ∧ (result = .ok () → ∀ window ∈ load.requested,
      load.localCache.containsKey window.offset = true) := by
  simpa only [PhaseSound, hphase] using h.phase

theorem lookedUp_sound (hphase : load.phase = .lookup (window :: rest))
    (hresult : ∀ payload, result = .hit payload → payload.bytes = fileWindow content window) :
    ((load.lookedUp window result).continueLookups rest).Sound content := by
  have haccounts := h.todo_accounts hphase
  apply continueLookups_sound
  cases result with
  | hit payload =>
    have hfirst := haccounts.perm (perm_middle (a := window)).symm
    exact hfirst.insert (hresult payload rfl)
  | reserved =>
    refine haccounts.perm ?_
    simp only [lookedUp, append_assoc, cons_append, nil_append]
    exact (perm_middle (a := window)).symm.append_left _
  | loading =>
    refine haccounts.perm ?_
    simp [lookedUp]

theorem readReserved_sound (hphase : load.phase = .read) (outcome : IoResult (ReadWindow → Nat)) :
    (load.readReserved content outcome).Sound content := by
  have haccounts := h.rest_accounts (by simp [todo, hphase])
  have hreserved : load.reserved ≠ [] := by simpa only [PhaseSound, hphase] using h.phase
  cases outcome with
  | ok spare =>
    refine ⟨by simpa [readReserved, todo] using haccounts, ?_, ?_⟩
    · simpa [readReserved] using hreserved
    · rw [forall₂_map_right_iff]
      exact forall₂_same.mpr fun window _ => rfl
  | error error =>
    refine ⟨by simpa [readReserved, todo] using haccounts, ?_, ?_, ?_, ?_⟩
    · obtain ⟨window, rest, heq⟩ := exists_cons_of_ne_nil hreserved
      apply ne_nil_of_mem (a := shardIndex others window.offset)
      simp [heq]
    · exact (nodup_finRange _).filter _
    · intro window hwindow
      have hoffset := mem_map_of_mem (f := ReadWindow.offset) hwindow
      refine ⟨hoffset, mem_filter.mpr ⟨mem_finRange _, ?_⟩⟩
      exact any_eq_true.mpr ⟨_, hoffset, by simp⟩
    · intro offset hoffset _
      exact hoffset

theorem published_sound {reserved : List ReadWindow} {payloads : List ByteVec}
    (hphase : load.phase = .publish (payload :: payloads))
    (hreserved : load.reserved = window :: reserved) :
    ({ load.insertWindow window (.shared payload) with reserved := reserved }.published
      payloads).Sound content := by
  have haccounts := h.rest_accounts (by simp [todo, hphase])
  rw [hreserved] at haccounts
  obtain ⟨hpayload, hrest⟩ := h.of_publish hphase hreserved
  have hinserted : Accounts content load.requested
      (load.localCache.insert window.offset (.shared payload)) load.pending
      (reserved ++ load.waiting) := haccounts.insert hpayload
  rw [published]
  split
  · rename_i hempty
    obtain rfl : payloads = [] := isEmpty_iff.mp hempty
    obtain rfl : reserved = [] := forall₂_nil_right_iff.mp hrest
    exact startWaiting_sound rfl hinserted
  · rename_i hnonempty
    refine ⟨by simpa [todo, insertWindow] using hinserted, ?_, hrest⟩
    exact fun hnone => hnonempty (isEmpty_iff.mpr hnone)

theorem cancelled_sound {offsets : List Nat} {index : Fin (others + 1)}
    {shards : List (Fin (others + 1))} {error : IoError}
    (hphase : load.phase = .cancel offsets (index :: shards) error) :
    (load.cancelled offsets index shards error).Sound content := by
  have haccounts := h.rest_accounts (by simp [todo, hphase])
  obtain ⟨-, hnodup, hsub, hheld⟩ : _ ∧ (index :: shards).Nodup ∧ _ := by
    simpa only [PhaseSound, hphase] using h.phase
  have hkept : ((load.cancelled offsets index shards error).reserved ++
      load.waiting).Sublist (load.reserved ++ load.waiting) :=
    filter_sublist.append (List.Sublist.refl _)
  have hremaining : ∀ window ∈ (load.cancelled offsets index shards error).reserved,
      window.offset ∈ offsets ∧ shardIndex others window.offset ∈ shards := by
    intro window hwindow
    obtain ⟨hmem, hne⟩ := mem_filter.mp hwindow
    obtain ⟨hoffset, hindex⟩ := hsub window hmem
    rcases mem_cons.mp hindex with heq | hshard
    · simp [heq] at hne
    · exact ⟨hoffset, hshard⟩
  constructor
  · have htodo : (load.cancelled offsets index shards error).todo = [] := by
      by_cases hempty : shards.isEmpty = true
      · simp [todo, cancelled, hempty]
      · simp [todo, cancelled, hempty]
    rw [htodo, append_nil]
    exact haccounts.sub hkept
  · by_cases hempty : shards.isEmpty = true
    · have hphase' : (load.cancelled offsets index shards error).phase =
          .returned (.error error) := by simp [cancelled, hempty]
      rw [PhaseSound, hphase']
      refine ⟨eq_nil_iff_forall_not_mem.mpr fun window hwindow => ?_, by simp⟩
      have := (hremaining window hwindow).2
      rw [isEmpty_iff.mp hempty] at this
      cases this
    · have hphase' : (load.cancelled offsets index shards error).phase =
          .cancel offsets shards error := by simp [cancelled, hempty]
      rw [PhaseSound, hphase']
      refine ⟨fun hnone => hempty (isEmpty_iff.mpr hnone), (nodup_cons.mp hnodup).2,
        hremaining, ?_⟩
      intro offset hoffset hshard
      obtain ⟨window, hwindow, rfl⟩ :=
        mem_map.mp (hheld offset hoffset (mem_cons_of_mem _ hshard))
      refine mem_map_of_mem (mem_filter.mpr ⟨hwindow, ?_⟩)
      have hne : shardIndex others window.offset ≠ index := by
        intro heq
        exact (nodup_cons.mp hnodup).1 (heq ▸ hshard)
      simpa using hne

theorem waited_sound {asleep : Bool} {waiting : List ReadWindow}
    (hphase : load.phase = .wait asleep) (hwaiting : load.waiting = window :: waiting)
    {payload : Option ByteVec}
    (hpayload : ∀ stored, payload = some stored → stored.bytes = fileWindow content window) :
    ({ load with waiting := waiting }.waited window payload).Sound content := by
  have haccounts := h.rest_accounts (by simp [todo, hphase])
  have hreserved := (h.of_wait hphase).2
  rw [hreserved, hwaiting] at haccounts
  cases payload with
  | none => exact startWaiting_sound hreserved (haccounts.sub (sublist_cons_self _ _))
  | some stored => exact startWaiting_sound hreserved (haccounts.insert (hpayload stored rfl))

end

theorem insertAll_accounts (spare : ReadWindow → Nat) {l : List ReadWindow}
    (h : load.Books content l) :
    let load' := l.foldl (fun load window =>
      load.insertWindow window (.owned (readPayload content spare window))) load
    load'.Books content [] ∧
      load'.requested = load.requested ∧ load'.pending = load.pending ∧
      load'.reserved = load.reserved ∧ load'.waiting = load.waiting ∧
      ∀ offset, load'.localCache.containsKey offset = true ↔
        load.localCache.containsKey offset = true ∨ offset ∈ l.map ReadWindow.offset := by
  induction l generalizing load with
  | nil => simpa using h
  | cons window l ih =>
    let inserted := load.insertWindow window (.owned (readPayload content spare window))
    have hinserted : inserted.Books content l := h.insert rfl
    obtain ⟨haccounts, hrequested, hpending, hreserved, hwaiting, hkeys⟩ := ih hinserted
    refine ⟨haccounts, hrequested, hpending, hreserved, hwaiting, fun offset => ?_⟩
    rw [foldl_cons, hkeys]
    simp only [inserted, insertWindow, AdjacencyWindowCache.insert_containsKey, map_cons,
      mem_cons]
    tauto

theorem readUnshared_sound (h : load.Sound content) (hphase : load.phase = .readUnshared)
    (outcome : IoResult (ReadWindow → Nat)) :
    (load.readUnshared content outcome).Sound content := by
  obtain ⟨hreserved, hwaiting, hmissing⟩ :
      load.reserved = [] ∧ load.waiting = [] ∧ load.missing = load.pending := by
    simpa only [PhaseSound, hphase] using h.phase
  have haccounts := h.rest_accounts (by simp [todo, hphase])
  cases outcome with
  | ok spare =>
    have hstart := haccounts.restart
    rw [show missingFrom load.localCache load.pending = load.pending from hmissing] at hstart
    obtain ⟨hall, hrequested, hpending, hreserved', hwaiting', hkeys⟩ :=
      insertAll_accounts spare hstart
    constructor
    · simpa [readUnshared, todo, hreserved', hreserved, hwaiting', hwaiting] using hall
    · refine ⟨hreserved'.trans hreserved, fun _ window hwindow => ?_⟩
      rw [readUnshared] at hwindow ⊢
      rw [hkeys]
      rw [hrequested] at hwindow
      rcases haccounts.covered window hwindow with hmem | hheld
      · exact .inr (mem_map_of_mem hmem)
      · exact .inl hheld
  | error error =>
    exact ⟨by simpa [readUnshared, todo] using haccounts, hreserved, by simp⟩

theorem wake_cases (load : WindowLoad others) (index : Fin (others + 1)) :
    load.wake index = load ∨
      load.phase = .wait true ∧ load.wake index = { load with phase := .wait false } := by
  rw [wake]
  split
  · rename_i hphase _
    split
    · exact .inr ⟨hphase, rfl⟩
    · exact .inl rfl
  · exact .inl rfl

theorem wake_sound (h : load.Sound content) (index : Fin (others + 1)) :
    (load.wake index).Sound content := by
  rcases load.wake_cases index with heq | ⟨hphase, heq⟩
  · rwa [heq]
  · rw [heq]
    have haccounts := h.rest_accounts (by simp [todo, hphase])
    exact ⟨by simpa [todo] using haccounts, h.of_wait hphase⟩

@[simp] theorem wake_reserved (load : WindowLoad others) (index : Fin (others + 1)) :
    (load.wake index).reserved = load.reserved := by
  rcases load.wake_cases index with heq | ⟨-, heq⟩ <;> rw [heq]

end WindowLoad

end PaimonVindex
