import PaimonVindex.DiskAnn.QueryLoad

/-! What loading windows does to the window cache, whatever the environment
answers: it only adds windows it was asked for, and a successful load has added
all of them. -/

namespace PaimonVindex

open Checked ReadWindow List
open Effect (lift fail attempt forEach moves_bind moves_bind_spec moves_pure moves_lift moves_get
  moves_fail moves_attempt moves_forEach spec_pure spec_fail spec_bind spec_attempt run_bind_eq_ok)

section Load

variable {World : Type} {env : QueryEnvironment World} {reader : DiskAnnReader}

structure SameWindows (s s' : QueryState World) : Prop where
  cache : s'.windowCache = s.windowCache
  pages : s'.loadedPages = s.loadedPages

instance : IsPreorder (QueryState World) SameWindows where
  refl _ := ⟨rfl, rfl⟩
  trans _ _ _ hab hbc := ⟨hbc.cache.trans hab.cache, hbc.pages.trans hab.pages⟩

structure AddsWindows (offsets : List Nat) (s s' : QueryState World) : Prop where
  kept : ∀ offset, s.windowCache.containsKey offset = true →
    s'.windowCache.containsKey offset = true
  added : ∀ offset, s'.windowCache.containsKey offset = true →
    s.windowCache.containsKey offset = true ∨ offset ∈ offsets
  pages : s'.loadedPages = s.loadedPages

instance (offsets : List Nat) : IsPreorder (QueryState World) (AddsWindows offsets) where
  refl _ := ⟨fun _ => id, fun _ => Or.inl, rfl⟩
  trans _ _ _ hab hbc := {
    kept := fun offset h => hbc.kept offset (hab.kept offset h)
    added := fun offset h => (hbc.added offset h).elim (hab.added offset) .inr
    pages := hbc.pages.trans hab.pages }

theorem SameWindows.adds (offsets : List Nat) (s s' : QueryState World) (h : SameWindows s s') :
    AddsWindows offsets s s' := by
  refine ⟨fun offset hoffset => ?_, fun offset hoffset => ?_, h.pages⟩
  · rwa [h.cache]
  · rw [h.cache] at hoffset
    exact .inl hoffset

theorem moves_onWorld {α : Type} (call : World → α × World) :
    (onWorld call).Moves SameWindows := fun _ => ⟨rfl, rfl⟩

theorem moves_askWorld {α : Type} (call : World → IoResult α × World) :
    (askWorld call).Moves SameWindows :=
  moves_bind (moves_onWorld call) fun r => moves_lift r

theorem moves_recycleBuffer (payload : ByteVec) :
    (recycleBuffer payload : Query World Unit).Moves SameWindows := fun _ => ⟨rfl, rfl⟩

theorem moves_modifyBuffers (f : QueryState World → WindowBufferPool) :
    (Effect.modify fun s => { s with windowBuffers := f s } : Query World Unit).Moves
      SameWindows := fun _ => ⟨rfl, rfl⟩

theorem moves_recycleAll (requests : List (ReadWindow × ByteVec)) :
    (forEach requests fun request => recycleBuffer request.2 :
      Query World Unit).Moves SameWindows :=
  moves_forEach fun request _ => moves_recycleBuffer request.2

theorem moves_resizeTo (capacity len : Nat) :
    (resizeTo env capacity len).Moves SameWindows := by
  rw [resizeTo]
  split
  · exact moves_pure _
  · exact moves_bind (moves_onWorld _) fun _ => moves_pure _

theorem moves_extendBuffer (capacity len : Nat) :
    (extendBuffer env capacity len).Moves SameWindows := by
  rw [extendBuffer]
  split
  · refine moves_bind ?_ fun granted => ?_
    · rw [tryReserveExact]
      split
      · exact moves_pure _
      · exact moves_onWorld _
    · cases granted with
      | none =>
        exact moves_bind (moves_modifyBuffers _)
          fun _ => moves_fail _
      | some capacity => exact moves_resizeTo capacity len
  · exact moves_resizeTo _ len

theorem moves_takeBuffer (len : Nat) : (takeBuffer env len).Moves SameWindows :=
  moves_bind moves_get fun _ =>
    moves_bind (moves_modifyBuffers _) fun _ => moves_extendBuffer _ len

theorem takeBuffers_spec (windows : List ReadWindow) :
    (takeBuffers env windows).Spec SameWindows fun requests => requests.map Prod.fst = windows := by
  induction windows with
  | nil => exact spec_pure rfl
  | cons window rest ih =>
    refine spec_bind (moves_takeBuffer window.length).spec fun payload _ => ?_
    refine spec_bind ih fun requests hrequests => ?_
    exact spec_pure (by rw [map_cons, hrequests])

/-- A read fills the buffers of its windows. -/
abbrev Fills (x : Query World (List (ReadWindow × ByteVec)))
    (requests : List (ReadWindow × ByteVec)) : Prop :=
  x.Spec SameWindows fun filled => filled.map Prod.fst = requests.map Prod.fst

theorem pread_fills (requests : List (ReadWindow × ByteVec)) :
    Fills (pread env requests) requests := by
  refine spec_bind (moves_onWorld _).spec fun outcome _ => ?_
  cases outcome with
  | error error => exact spec_fail _
  | ok content =>
    refine spec_pure ?_
    rw [map_map]
    rfl

variable {rounds : Nat}

theorem preadChunks_fills {maxRanges : Nat} {requests : List (ReadWindow × ByteVec)}
    (hmax : maxRanges ≠ 0) (hrounds : requests.length ≤ rounds) :
    Fills (preadChunks env maxRanges rounds requests) requests := by
  induction rounds generalizing requests with
  | zero =>
    have hnil := eq_nil_of_length_eq_zero (Nat.le_zero.mp hrounds)
    exact spec_pure (by rw [hnil])
  | succ rounds ih =>
    rw [preadChunks]
    split
    · rename_i hempty
      exact spec_pure (by rw [isEmpty_iff.mp hempty])
    · refine spec_bind (pread_fills _) fun head hhead => ?_
      have hrest : (requests.drop maxRanges).length ≤ rounds := by
        rw [length_drop]
        omega
      refine spec_bind (ih hrest) fun tail htail => spec_pure ?_
      rw [map_append, hhead, htail, ← map_append, take_append_drop]

theorem preadRanges_fills (requests : List (ReadWindow × ByteVec)) :
    Fills (preadRanges env reader requests) requests := by
  rw [preadRanges]
  split
  · exact pread_fills requests
  · rename_i hchunked
    exact preadChunks_fills (fun hzero => hchunked (.inl hzero)) le_rfl

theorem moves_insertWindow {offsets : List Nat} {offset : Nat} (h : offset ∈ offsets)
    (payload : WindowPayload) :
    (insertWindow offset payload : Query World Unit).Moves (AddsWindows offsets) := by
  intro s
  refine ⟨fun other hother => ?_, fun other hother => ?_, rfl⟩
  · exact (s.windowCache.insert_containsKey offset other payload).mpr (.inr hother)
  · rcases (s.windowCache.insert_containsKey offset other payload).mp hother with rfl | hold
    · exact .inr h
    · exact .inl hold

variable {s s' : QueryState World}

theorem insertWindow_contains {offset : Nat} {payload : WindowPayload}
    (h : Effect.run (insertWindow offset payload) s = (.ok (), s')) :
    s'.windowCache.containsKey offset = true := by
  cases h
  exact (s.windowCache.insert_containsKey offset offset payload).mpr (.inl rfl)

theorem moves_loadUnshared (pending : List ReadWindow) :
    (loadUnshared env reader pending).Moves (AddsWindows (pending.map offset)) := by
  refine moves_bind_spec ((takeBuffers_spec pending).mono (SameWindows.adds _))
    fun requests hrequests => ?_
  refine moves_bind_spec ((spec_attempt (preadRanges_fills requests)).mono (SameWindows.adds _))
    fun outcome houtcome => ?_
  cases outcome with
  | error error =>
    exact moves_bind ((moves_recycleAll requests).mono (SameWindows.adds _)) fun _ => moves_fail _
  | ok filled =>
    refine moves_forEach fun request hmem => ?_
    have hfst := houtcome filled rfl
    rw [hrequests] at hfst
    have hin : request.1 ∈ pending := hfst ▸ mem_map_of_mem hmem
    exact moves_insertWindow (mem_map_of_mem hin) _

variable {pending : List ReadWindow}

theorem loadUnshared_loads (h : Effect.run (loadUnshared env reader pending) s = (.ok (), s')) :
    ∀ window ∈ pending, s'.windowCache.containsKey window.offset = true := by
  obtain ⟨requests, s₁, htake, h⟩ := run_bind_eq_ok.mp h
  obtain ⟨outcome, s₂, hread, h⟩ := run_bind_eq_ok.mp h
  have hrequests := (takeBuffers_spec pending).2 _ _ _ htake
  have hfilled := (spec_attempt (preadRanges_fills requests)).2 _ _ _ hread
  cases outcome with
  | error error =>
    obtain ⟨_, s₃, -, hfail⟩ := run_bind_eq_ok.mp h
    cases hfail
  | ok filled =>
    have hfst := hfilled filled rfl
    rw [hrequests] at hfst
    have hmarks := Effect.forEach_marks
      (R := AddsWindows (filled.map fun request => request.1.offset))
      (fun (request : ReadWindow × ByteVec) (s : QueryState World) =>
        s.windowCache.containsKey request.1.offset = true)
      (fun request s s' hmove hmark => hmove.kept request.1.offset hmark)
      (fun request hmem =>
        moves_insertWindow (mem_map.mpr ⟨request, hmem, rfl⟩) (.owned request.2))
      (fun request _ _ _ => insertWindow_contains) h
    intro window hwindow
    obtain ⟨request, hmem, rfl⟩ := mem_map.mp (hfst ▸ hwindow)
    exact hmarks request hmem

theorem lookupWindows_spec {rest reserved waiting : List ReadWindow} (hrest : rest ⊆ pending)
    (hreserved : reserved ⊆ pending) (hwaiting : waiting ⊆ pending) :
    (lookupWindows env rest reserved waiting).Spec (AddsWindows (pending.map offset))
      fun found => found.1 ⊆ pending ∧ found.2 ⊆ pending := by
  induction rest generalizing reserved waiting with
  | nil => exact spec_pure ⟨hreserved, hwaiting⟩
  | cons window rest ih =>
    obtain ⟨hwindow, hrest⟩ := cons_subset.mp hrest
    have hone : [window] ⊆ pending := by simpa using hwindow
    refine spec_bind ((moves_askWorld _).mono (SameWindows.adds _)).spec fun found _ => ?_
    cases found with
    | hit payload =>
      exact spec_bind (moves_insertWindow (mem_map_of_mem hwindow) _).spec
        fun _ _ => ih hrest hreserved hwaiting
    | reserved => exact ih hrest (append_subset.mpr ⟨hreserved, hone⟩) hwaiting
    | loading => exact ih hrest hreserved (append_subset.mpr ⟨hwaiting, hone⟩)

theorem abandon_spec (reserved : List ReadWindow) (payloads : List (ReadWindow × ByteVec))
    (error : IoError) (P : List (ReadWindow × ByteVec) → Prop) :
    (abandon env reserved payloads error).Spec SameWindows P :=
  spec_bind (moves_askWorld _).spec fun _ _ =>
    spec_bind (moves_recycleAll payloads).spec fun _ _ => spec_fail _

theorem takeReserved_spec (reserved rest : List ReadWindow)
    (payloads : List (ReadWindow × ByteVec)) :
    (takeReserved env reserved rest payloads).Spec SameWindows
      fun requests => requests.map Prod.fst = payloads.map Prod.fst ++ rest := by
  induction rest generalizing payloads with
  | nil => exact spec_pure (append_nil _).symm
  | cons window rest ih =>
    refine spec_bind (moves_attempt (moves_takeBuffer window.length)).spec fun outcome _ => ?_
    cases outcome with
    | ok payload => simpa using ih (payloads ++ [(window, payload)])
    | error error => exact abandon_spec reserved payloads error _

theorem readReserved_fills (reserved : List ReadWindow) (requests : List (ReadWindow × ByteVec)) :
    Fills (readReserved env reader reserved requests) requests := by
  refine spec_bind (spec_attempt (preadRanges_fills requests)) fun outcome houtcome => ?_
  cases outcome with
  | ok filled => exact spec_pure (houtcome filled rfl)
  | error error => exact abandon_spec reserved requests error _

theorem moves_loadReserved {reserved : List ReadWindow} (h : reserved ⊆ pending) :
    (loadReserved env reader reserved).Moves (AddsWindows (pending.map offset)) := by
  rw [loadReserved]
  split
  · exact moves_pure _
  · refine moves_bind_spec ((takeReserved_spec reserved reserved []).mono (SameWindows.adds _))
      fun requests hrequests => ?_
    refine moves_bind_spec ((readReserved_fills reserved requests).mono (SameWindows.adds _))
      fun filled hfilled => ?_
    refine moves_forEach fun request hmem => ?_
    rw [hrequests, map_nil, nil_append] at hfilled
    have hin : request.1 ∈ reserved := hfilled ▸ mem_map_of_mem hmem
    exact moves_bind (moves_insertWindow (mem_map_of_mem (h hin)) _)
      fun _ => (moves_askWorld _).mono (SameWindows.adds _)

theorem moves_waitForWindow {window : ReadWindow} (h : window ∈ pending) :
    (waitForWindow env window).Moves (AddsWindows (pending.map offset)) := by
  refine moves_bind ((moves_askWorld _).mono (SameWindows.adds _))
    fun found => ?_
  cases found with
  | some payload => exact moves_insertWindow (mem_map_of_mem h) _
  | none => exact moves_pure _

theorem moves_loadRound (pending : List ReadWindow) :
    (loadRound env reader pending).Moves (AddsWindows (pending.map offset)) := by
  refine moves_bind_spec (lookupWindows_spec (List.Subset.refl _) (nil_subset _)
    (nil_subset _)) fun found hfound => ?_
  refine moves_bind (moves_loadReserved hfound.1) fun _ => ?_
  exact moves_forEach fun window hwindow => moves_waitForWindow (hfound.2 hwindow)

theorem AddsWindows.of_subset {offsets offsets' : List Nat} (h : offsets ⊆ offsets')
    (s s' : QueryState World) (hadds : AddsWindows offsets s s') : AddsWindows offsets' s s' where
  kept := hadds.kept
  added offset hoffset := (hadds.added offset hoffset).imp_right fun hmem => h hmem
  pages := hadds.pages

theorem moves_loadShared (rounds : Nat) (pending : List ReadWindow) :
    (loadShared env reader rounds pending).Moves
      (AddsWindows (pending.map offset)) := by
  induction rounds generalizing pending with
  | zero =>
    rw [loadShared]
    split
    · exact moves_pure _
    · exact moves_fail _
  | succ rounds ih =>
    rw [loadShared]
    split
    · exact moves_pure _
    · refine moves_bind (moves_loadRound pending) fun _ => ?_
      refine moves_bind moves_get fun s => ?_
      exact (ih _).mono (AddsWindows.of_subset (map_subset _ (filter_subset_self _)))

theorem loadShared_loads (h : Effect.run (loadShared env reader rounds pending) s = (.ok (), s')) :
    ∀ window ∈ pending, s'.windowCache.containsKey window.offset = true := by
  induction rounds generalizing pending s with
  | zero =>
    rw [loadShared] at h
    split at h
    · rename_i hempty
      simp [isEmpty_iff.mp hempty]
    · cases h
  | succ rounds ih =>
    rw [loadShared] at h
    split at h
    · rename_i hempty
      simp [isEmpty_iff.mp hempty]
    · obtain ⟨_, s₁, -, h⟩ := run_bind_eq_ok.mp h
      obtain ⟨s₂, s₃, hget, h⟩ := run_bind_eq_ok.mp h
      cases hget
      intro window hwindow
      by_cases harrived : s₁.windowCache.containsKey window.offset = true
      · exact ((moves_loadShared rounds _).of_run h).kept _ harrived
      · exact ih h window (mem_filter.mpr ⟨hwindow, by simpa using harrived⟩)

theorem moves_loadAdjacencyWindows (rounds : Nat) (windows : List ReadWindow) :
    (loadAdjacencyWindows env reader rounds windows).Moves
      (AddsWindows (windows.map offset)) := by
  refine moves_bind moves_get fun s => ?_
  have hsub : (windows.filter fun window => !s.windowCache.containsKey window.offset).map
      offset ⊆ windows.map offset :=
    map_subset _ (filter_subset_self _)
  dsimp only
  split
  · exact moves_pure _
  · split
    · exact (moves_loadUnshared _).mono (AddsWindows.of_subset hsub)
    · exact (moves_loadShared rounds _).mono (AddsWindows.of_subset hsub)

theorem loadAdjacencyWindows_loads {windows : List ReadWindow}
    (h : Effect.run (loadAdjacencyWindows env reader rounds windows) s = (.ok (), s')) :
    ∀ window ∈ windows, s'.windowCache.containsKey window.offset = true := by
  have hmoves := (moves_loadAdjacencyWindows rounds windows).of_run h
  obtain ⟨s₁, s₂, hget, h⟩ := run_bind_eq_ok.mp h
  cases hget
  dsimp only at h
  intro window hwindow
  by_cases hheld : s.windowCache.containsKey window.offset = true
  · exact hmoves.kept _ hheld
  · have hpending : window ∈ windows.filter
        fun window => !s.windowCache.containsKey window.offset :=
      mem_filter.mpr ⟨hwindow, by simpa using hheld⟩
    split at h
    · rename_i hempty
      simp [isEmpty_iff.mp hempty] at hpending
    · split at h
      · exact loadUnshared_loads h window hpending
      · exact loadShared_loads h window hpending

theorem loadAdjacencyWindows_containsKey {windows : List ReadWindow}
    (h : Effect.run (loadAdjacencyWindows env reader rounds windows) s = (.ok (), s'))
    (offset : Nat) :
    s'.windowCache.containsKey offset = true ↔
      s.windowCache.containsKey offset = true ∨ offset ∈ windows.map ReadWindow.offset := by
  have hmoves := (moves_loadAdjacencyWindows rounds windows).of_run h
  constructor
  · exact hmoves.added offset
  · rintro (hheld | hmem)
    · exact hmoves.kept offset hheld
    · obtain ⟨window, hwindow, rfl⟩ := mem_map.mp hmem
      exact loadAdjacencyWindows_loads h window hwindow

structure AddsPages (s s' : QueryState World) : Prop where
  cache : s'.windowCache = s.windowCache
  pages : s.loadedPages ⊆ s'.loadedPages

instance : IsPreorder (QueryState World) AddsPages where
  refl _ := ⟨rfl, Finset.Subset.refl _⟩
  trans _ _ _ hab hbc := ⟨hbc.cache.trans hab.cache, hab.pages.trans hbc.pages⟩

theorem SameWindows.addsPages (s s' : QueryState World) (h : SameWindows s s') :
    AddsPages s s' := ⟨h.cache, h.pages.symm.subset⟩

theorem moves_validateAdjacencyPage (page : Nat) (bytes : List UInt8) :
    (validateAdjacencyPage env reader page bytes).Moves SameWindows := by
  refine moves_bind (moves_lift _) fun _ => ?_
  refine moves_bind (moves_onWorld _) fun claim => ?_
  cases claim with
  | some verdict => exact moves_lift _
  | none =>
    exact moves_bind (moves_onWorld _) fun _ => moves_lift _

theorem moves_validateLoadedPage (page : Nat) :
    (validateLoadedPage env reader page).Moves AddsPages := by
  refine moves_bind (moves_lift _) fun window => ?_
  refine moves_bind moves_get fun s => ?_
  refine moves_bind (moves_lift _) fun payload => ?_
  refine moves_bind (moves_lift _) fun bytes => ?_
  refine moves_bind ((moves_validateAdjacencyPage page bytes).mono SameWindows.addsPages)
    fun _ => ?_
  exact fun s => ⟨rfl, Finset.subset_insert page s.loadedPages⟩

theorem validateLoadedPage_loaded {page : Nat}
    (h : Effect.run (validateLoadedPage env reader page) s = (.ok (), s')) :
    page ∈ s'.loadedPages := by
  simp only [validateLoadedPage, run_bind_eq_ok] at h
  obtain ⟨_, _, -, _, _, -, _, _, -, _, _, -, _, _, -, h⟩ := h
  cases h
  exact Finset.mem_insert_self page _

theorem validatePages_loaded {pages : List Nat}
    (h : Effect.run (forEach pages (validateLoadedPage env reader)) s = (.ok (), s')) :
    s'.windowCache = s.windowCache ∧ s.loadedPages ⊆ s'.loadedPages ∧
      ∀ page ∈ pages, page ∈ s'.loadedPages := by
  have hmoves : AddsPages s s' :=
    (moves_forEach fun page _ => moves_validateLoadedPage page).of_run h
  refine ⟨hmoves.cache, hmoves.pages, ?_⟩
  exact Effect.forEach_marks (R := AddsPages)
    (fun page (s : QueryState World) => page ∈ s.loadedPages)
    (fun page s s' hmove hmark => hmove.pages hmark)
    (fun page _ => moves_validateLoadedPage page)
    (fun page _ _ _ => validateLoadedPage_loaded) h

end Load

end PaimonVindex
