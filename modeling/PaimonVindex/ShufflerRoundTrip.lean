import PaimonVindex.ShufflerFiles
import Mathlib.Data.List.Induction

/-! The shuffler when nothing fails: the open writers are those of the queue, what
was written stays written while writers are evicted and opened again, and both
readers give the records back. -/

namespace PaimonVindex

open Checked DiskShuffler Effect List Function

namespace DiskShuffler

def noFaults : Faults := fun _ => none

/-- The queue holds the open writers, each once, and not too many. -/
structure QueueOk (s : DiskShuffler) : Prop where
  nodup : s.writerLru.Nodup
  mem : ∀ p, p ∈ s.writerLru ↔ (s.partitionWriters p).isSome = true
  inRange : ∀ p ∈ s.writerLru, p < s.nlist
  bound : s.writerLru.length ≤ maxOpenPartitionWriters

variable {s : DiskShuffler}

theorem QueueOk.openWriters_length (h : QueueOk s) :
    s.openWriters.length = s.writerLru.length := by
  refine List.Perm.length_eq ((perm_ext_iff_of_nodup (nodup_range.filter _) h.nodup).mpr
    fun p => ?_)
  rw [mem_filter, mem_range, h.mem]
  exact ⟨fun hp => hp.2, fun hp => ⟨h.inRange p ((h.mem p).mpr hp), hp⟩⟩

/-- What has been written to a partition, in its file or still in a buffer. -/
def log (s : DiskShuffler) (p : Nat) : List UInt8 :=
  s.partitionFiles p ++ (s.partitionWriters p).getD []

structure Wrote (p : Nat) (bytes : List UInt8) (s s' : DiskShuffler) : Prop where
  book : SameBook s s'
  queue : s'.writerLru = s.writerLru
  opened : s'.partitionOpened = s.partitionOpened
  writers : ∀ q, (s'.partitionWriters q).isSome = (s.partitionWriters q).isSome
  log_eq : ∀ q, s'.log q = s.log q ++ if q = p then bytes else []
  grows : ∀ q, s.partitionFiles q <+: s'.partitionFiles q

theorem Wrote.refl (p : Nat) (s : DiskShuffler) : Wrote p [] s s :=
  ⟨refl_of SameBook s, rfl, rfl, fun _ => rfl, by simp, fun _ => prefix_rfl⟩

variable {p : Nat} {writes : List (UInt32 × ShuffledRecord)}

theorem Wrote.trans {bytes bytes' : List UInt8} {s' s'' : DiskShuffler} (h : Wrote p bytes s s')
    (h' : Wrote p bytes' s' s'') : Wrote p (bytes ++ bytes') s s'' where
  book := trans_of SameBook h.book h'.book
  queue := h'.queue.trans h.queue
  opened := h'.opened.trans h.opened
  writers q := (h'.writers q).trans (h.writers q)
  log_eq q := by
    rw [h'.log_eq, h.log_eq]
    by_cases hq : q = p <;> simp [hq]
  grows q := (h.grows q).trans (h'.grows q)

theorem writeDirect_wrote (hempty : (s.partitionWriters p).getD [] = []) (bytes : List UInt8) :
    ∃ s', (writeDirect noFaults p bytes).run s = (.ok (), s') ∧ Wrote p bytes s s' := by
  refine ⟨(s.setFile p (s.partitionFiles p ++ bytes)).tick, ?_,
    ⟨⟨rfl, rfl, rfl, rfl, rfl⟩, rfl, rfl, fun _ => rfl, fun q => ?_, fun q => ?_⟩⟩
  · simp [run, writeDirect, writeFile, noFaults]
  · by_cases hq : q = p <;> simp [hq, log, setFile, tick, hempty]
  · by_cases hq : q = p <;> simp [hq, setFile, tick]

section

variable (hopen : (s.partitionWriters p).isSome)

include hopen

theorem appendBuffer_wrote (bytes : List UInt8) :
    ∃ s', (appendBuffer p bytes).run s = (.ok (), s') ∧ Wrote p bytes s s' := by
  obtain ⟨buffer, hbuffer⟩ := Option.isSome_iff_exists.mp hopen
  refine ⟨_, rfl, ⟨rfl, rfl, rfl, rfl, rfl⟩, rfl, rfl, fun q => ?_, fun q => ?_,
    fun q => prefix_rfl⟩
  · by_cases hq : q = p <;> simp [hq, setWriter, hbuffer]
  · by_cases hq : q = p <;> simp [hq, log, setWriter, hbuffer]

theorem flushBuf_wrote :
    ∃ s', (flushBuf noFaults p).run s = (.ok (), s') ∧ Wrote p [] s s' ∧
      s'.partitionWriters p = some [] ∧
      ∀ q, q ≠ p → s'.partitionWriters q = s.partitionWriters q := by
  obtain ⟨buffer, hbuffer⟩ := Option.isSome_iff_exists.mp hopen
  refine ⟨((s.setFile p (s.partitionFiles p ++ buffer)).tick).setWriter p (some []), ?_,
    ⟨⟨rfl, rfl, rfl, rfl, rfl⟩, rfl, rfl, fun q => ?_, fun q => ?_, fun q => ?_⟩, ?_,
    fun q hq => ?_⟩
  · simp [run, flushBuf, hbuffer, writeFile, noFaults]
  · by_cases hq : q = p <;> simp [hq, setWriter, hbuffer, setFile, tick]
  · by_cases hq : q = p <;> simp [hq, log, setWriter, setFile, tick, hbuffer]
  · by_cases hq : q = p <;> simp [hq, setWriter, setFile, tick]
  · simp [setWriter]
  · simp [setWriter, setFile, tick, update_of_ne hq]

theorem writeAll_wrote (bytes : List UInt8) :
    ∃ s', (writeAll noFaults p bytes).run s = (.ok (), s') ∧ Wrote p bytes s s' := by
  rw [writeAll, run_bind_ok (run_get s)]
  dsimp only
  split
  · exact appendBuffer_wrote hopen bytes
  · rename_i hlong
    -- A buffer that has no room for the bytes is written out first.
    obtain ⟨s₁, hflush, hwrote, hempty⟩ : ∃ s₁,
        (if partitionBufferBytes - ((s.partitionWriters p).getD []).length < bytes.length then
          flushBuf noFaults p else pure () : Step Unit).run s = (.ok (), s₁) ∧ Wrote p [] s s₁ ∧
        (partitionBufferBytes ≤ bytes.length → (s₁.partitionWriters p).getD [] = []) := by
      by_cases hroom : partitionBufferBytes - ((s.partitionWriters p).getD []).length < bytes.length
      · obtain ⟨s₁, hrun, hwrote, hnil, -⟩ := flushBuf_wrote hopen
        exact ⟨s₁, by rw [if_pos hroom, hrun], hwrote, fun _ => by rw [hnil]; rfl⟩
      · refine ⟨s, by rw [if_neg hroom]; rfl, Wrote.refl p s, fun hlarge => ?_⟩
        have hcapacity : 0 < partitionBufferBytes := by decide
        exact length_eq_zero_iff.mp (by omega)
    rw [run_bind_ok hflush]
    split
    · rename_i hlarge
      obtain ⟨s', hrun, hwrote'⟩ := writeDirect_wrote (hempty hlarge) bytes
      exact ⟨s', hrun, hwrote.trans hwrote'⟩
    · obtain ⟨s', hrun, hwrote'⟩ := appendBuffer_wrote (hwrote.writers p ▸ hopen) bytes
      exact ⟨s', hrun, hwrote.trans hwrote'⟩

theorem writePieces_wrote (pieces : List (List UInt8)) :
    ∃ s', (forEach pieces (writeAll noFaults p)).run s = (.ok (), s') ∧
      Wrote p pieces.flatten s s' := by
  induction pieces generalizing s with
  | nil => exact ⟨s, rfl, Wrote.refl p s⟩
  | cons piece pieces ih =>
    obtain ⟨s₁, hrun, hwrote⟩ := writeAll_wrote hopen piece
    obtain ⟨s', hrun', hwrote'⟩ := ih (hwrote.writers p ▸ hopen)
    refine ⟨s', ?_, hwrote.trans hwrote'⟩
    rw [forEach, run_bind_ok hrun, hrun']

end

/-! ### The queue of writers -/

/-- A step that opens and closes writers, and writes nothing. -/
structure Rotated (s s' : DiskShuffler) : Prop where
  book : SameBook s s'
  opened : ∀ q, s.partitionOpened q = true → s'.partitionOpened q = true
  log_eq : ∀ q, s.partitionOpened q = true → s'.log q = s.log q
  grows : ∀ q, s.partitionOpened q = true → s.partitionFiles q <+: s'.partitionFiles q

theorem Rotated.trans {s' s'' : DiskShuffler} (h : Rotated s s') (h' : Rotated s' s'') :
    Rotated s s'' where
  book := trans_of SameBook h.book h'.book
  opened q hq := h'.opened q (h.opened q hq)
  log_eq q hq := (h'.log_eq q (h.opened q hq)).trans (h.log_eq q hq)
  grows q hq := (h.grows q hq).trans (h'.grows q (h.opened q hq))

structure Ready (s : DiskShuffler) : Prop extends QueueOk s where
  opened : ∀ p, (s.partitionWriters p).isSome = true → s.partitionOpened p = true

theorem evictIfFull (h : Ready s) :
    ∃ s₁, (if s.openWriters.length = maxOpenPartitionWriters then evictWriter noFaults
        else pure () : Step Unit).run s = (.ok (), s₁) ∧ Rotated s s₁ ∧ Ready s₁ ∧
      s₁.writerLru.length < maxOpenPartitionWriters ∧
      s₁.partitionOpened = s.partitionOpened ∧
      ∀ q, s.partitionWriters q = none → s₁.partitionWriters q = none := by
  rw [h.openWriters_length]
  by_cases hfull : s.writerLru.length = maxOpenPartitionWriters
  · rw [if_pos hfull]
    cases hqueue : s.writerLru with
    | nil =>
      rw [hqueue] at hfull
      cases hfull
    | cons evicted rest =>
      have hnodup := h.nodup
      rw [hqueue, nodup_cons] at hnodup
      obtain ⟨buffer, hbuffer⟩ := Option.isSome_iff_exists.mp
        ((h.mem evicted).mp (by rw [hqueue]; exact mem_cons_self))
      have hroom : rest.length < maxOpenPartitionWriters := by
        rw [hqueue, length_cons] at hfull
        omega
      refine ⟨{ s with
          writerLru := rest
          partitionWriters := update s.partitionWriters evicted none
          partitionFiles := update s.partitionFiles evicted (s.partitionFiles evicted ++ buffer)
          clock := s.clock + 1 }, ?_, ⟨⟨rfl, rfl, rfl, rfl, rfl⟩, fun _ hq => hq, fun q _ => ?_,
        fun q _ => ?_⟩, ⟨⟨hnodup.2, fun q => ?_, fun q hq => ?_, hroom.le⟩, fun q hq => ?_⟩, hroom,
        rfl, fun q hq => ?_⟩
      · simp [run, evictWriter, hqueue, hbuffer, closeWriter, writeFile, noFaults, setWriter,
          setFile, tick]
      · by_cases hq : q = evicted <;> simp [hq, log, hbuffer]
      · by_cases hq : q = evicted <;> simp [hq]
      · have hmem := h.mem q
        rw [hqueue, mem_cons] at hmem
        by_cases hq : q = evicted
        · simp [hq, hnodup.1]
        · simpa [hq] using hmem
      · exact h.inRange q (by rw [hqueue]; exact mem_cons_of_mem _ hq)
      · by_cases hq' : q = evicted
        · simp [hq'] at hq
        · exact h.opened q (by simpa [hq'] using hq)
      · by_cases hq' : q = evicted <;> simp [hq', hq]
  · rw [if_neg hfull]
    refine ⟨s, rfl, ⟨refl_of SameBook s, fun _ hq => hq, fun _ _ => rfl, fun _ _ => prefix_rfl⟩, h,
      lt_of_le_of_ne h.bound hfull, rfl, fun _ hq => hq⟩

theorem openPartition_noFaults (p : Nat) (s : DiskShuffler) :
    (openPartition noFaults p).run s = (.ok (), { s with
      partitionOpened := update s.partitionOpened p true
      partitionFiles :=
        if s.partitionOpened p then s.partitionFiles else update s.partitionFiles p []
      clock := s.clock + 1 }) := by
  simp only [run, openPartition, noFaults]
  split
  · rename_i hopen
    rw [update_eq_self_iff.mpr hopen.symm]
    rfl
  · rfl

theorem openWriter_ready (h : Ready s) (hp : p < s.nlist) (hclosed : s.partitionWriters p = none) :
    ∃ s', (openWriter noFaults p >>= fun _ => touchWriter p).run s = (.ok (), s') ∧ Rotated s s' ∧
      Ready s' ∧ (s'.partitionWriters p).isSome = true ∧
      s'.partitionOpened = update s.partitionOpened p true ∧
      (s.partitionOpened p = false → s'.log p = []) := by
  obtain ⟨s₁, hevict, hrotated, hready, hroom, hopened, hnone⟩ := evictIfFull h
  have hclosed₁ := hnone p hclosed
  have hfresh : p ∉ s₁.writerLru := by
    rw [hready.mem, hclosed₁]
    simp
  rw [← hopened]
  refine ⟨{ s₁ with
      partitionOpened := update s₁.partitionOpened p true
      partitionFiles :=
        if s₁.partitionOpened p then s₁.partitionFiles else update s₁.partitionFiles p []
      clock := s₁.clock + 1
      partitionWriters := update s₁.partitionWriters p (some [])
      writerLru := s₁.writerLru ++ [p] }, ?_, hrotated.trans ⟨⟨rfl, rfl, rfl, rfl, rfl⟩,
    fun q hq => ?_, fun q hq => ?_, fun q hq => ?_⟩,
    ⟨⟨?_, fun q => ?_, fun q hq => ?_, ?_⟩, fun q hq => ?_⟩, ?_, rfl,
    fun hfirst => ?_⟩
  · have hopen : (openWriter noFaults p).run s = _ := (run_bind_ok (run_get s)).trans
      ((run_bind_ok hevict).trans ((run_bind_ok (openPartition_noFaults p s₁)).trans
        (run_modify _ _)))
    rw [run_bind_ok hopen, touchWriter, run_modify]
    simp only [setWriter, erase_of_not_mem hfresh]
  · by_cases hqp : q = p <;> simp [hqp, hq]
  · by_cases hqp : q = p
    · subst hqp
      simp [log, hq, hclosed₁]
    · by_cases hold : s₁.partitionOpened p = true <;> simp [log, hqp, hold]
  · dsimp only
    split
    · exact prefix_rfl
    · rename_i hfirst
      have hne : q ≠ p := by
        rintro rfl
        exact hfirst hq
      exact (update_of_ne hne _ _).symm ▸ prefix_rfl
  · exact (perm_append_singleton p _).nodup_iff.mpr (nodup_cons.mpr ⟨hfresh, hready.nodup⟩)
  · by_cases hqp : q = p <;> simp [hqp, hready.mem]
  · rcases mem_append.mp hq with hq | hq
    · exact hready.inRange q hq
    · rw [mem_singleton.mp hq]
      exact hrotated.book.nlist ▸ hp
  · simp only [length_append, length_singleton]
    omega
  · by_cases hqp : q = p
    · simp [hqp]
    · simp only [update_of_ne hqp] at hq ⊢
      exact hready.opened q hq
  · simp
  · simp [log, hfirst]

theorem touchWriter_ready (h : Ready s) (hopen : (s.partitionWriters p).isSome = true) :
    ∃ s', (touchWriter p).run s = (.ok (), s') ∧ Rotated s s' ∧ Ready s' ∧
      s'.partitionWriters = s.partitionWriters ∧ s'.partitionOpened = s.partitionOpened := by
  have hmem := (h.mem p).mpr hopen
  have hperm : (s.writerLru.erase p ++ [p]).Perm s.writerLru :=
    (perm_append_singleton _ _).trans (perm_cons_erase hmem).symm
  refine ⟨_, rfl, ⟨⟨rfl, rfl, rfl, rfl, rfl⟩, fun _ hq => hq, fun _ _ => rfl,
    fun _ _ => prefix_rfl⟩, ⟨⟨hperm.nodup_iff.mpr h.nodup, fun q => ?_, fun q hq => ?_, ?_⟩,
    h.opened⟩, rfl, rfl⟩
  · exact hperm.mem_iff.trans (h.mem q)
  · exact h.inRange q (hperm.mem_iff.mp hq)
  · exact hperm.length_eq.trans_le h.bound

theorem partitionWriter_ready (h : Ready s) (hp : p < s.nlist) :
    ∃ s', (partitionWriter noFaults p).run s = (.ok (), s') ∧ Rotated s s' ∧ Ready s' ∧
      (s'.partitionWriters p).isSome = true ∧
      s'.partitionOpened = update s.partitionOpened p true ∧
      (s.partitionOpened p = false → s'.log p = []) := by
  have hlast : ∀ s' : DiskShuffler, (s'.partitionWriters p).isSome = true →
      (get >>= fun self : DiskShuffler => lift (rejectIf
        ((self.partitionWriters p).isNone) ⟨.other, "failed to open partition writer"⟩) :
          Step Unit).run s' = (.ok (), s') := by
    intro s' hopen
    obtain ⟨buffer, hbuffer⟩ := Option.isSome_iff_exists.mp hopen
    rw [run_bind_ok (run_get s'), run_lift, rejectIf_of_not (by simp [hbuffer])]
  rw [partitionWriter, run_bind_ok (run_get s)]
  by_cases hclosed : s.partitionWriters p = none
  · rw [if_pos (by rw [hclosed]; rfl)]
    obtain ⟨s', hrun, hrotated, hready, hopen, hopened, hfirst⟩ := openWriter_ready h hp hclosed
    obtain ⟨_, s₁, hwriter, htouch⟩ := run_bind_eq_ok.mp hrun
    refine ⟨s', ?_, hrotated, hready, hopen, hopened, hfirst⟩
    rw [run_bind_ok hwriter, run_bind_ok htouch]
    exact hlast s' hopen
  · have hopen : (s.partitionWriters p).isSome = true := Option.isSome_iff_ne_none.mpr hclosed
    obtain ⟨s', htouch, hrotated, hready, hwriters, hopened⟩ := touchWriter_ready h hopen
    refine ⟨s', ?_, hrotated, hready, hwriters ▸ hopen, ?_, fun hfirst => ?_⟩
    · rw [if_neg (by simpa using hclosed), run_bind_ok (run_pure () s),
        run_bind_ok htouch]
      exact hlast s' (hwriters ▸ hopen)
    · rw [hopened]
      exact (update_eq_self_iff.mpr (h.opened p hopen).symm).symm
    · rw [h.opened p hopen] at hfirst
      cases hfirst

/-! ### Runs without failures -/

def TruncatesOnce (s s' : DiskShuffler) : Prop := ∀ p, s.partitionOpened p = true →
  s'.partitionOpened p = true ∧ s.partitionFiles p <+: s'.partitionFiles p

/-- The partitions hold the accepted records and nothing else. -/
structure Clean (run : Run) : Prop where
  ready : Ready run.shuffler
  unfinished : run.shuffler.finalized = false
  written : ∀ p, run.shuffler.partitionOpened p = true →
    run.shuffler.log p = (run.accepted p).flatMap (shuffledBytes (UInt32.ofNat p))
  unopened : ∀ p, run.shuffler.partitionOpened p = false → run.accepted p = []
  small : ∀ p, run.accepted p ≠ [] → p < 2 ^ 32

theorem writeVector_noFaults (h : Ready s) (hopen : s.finalized = false) {partitionId : UInt32}
    {record : ShuffledRecord} (hp : partitionId.toNat < s.nlist)
    (hdim : record.vector.length = s.dim) :
    ∃ s₁ s₂, (writeVector noFaults partitionId record).run s =
        (.ok (), s₂.countRecord partitionId.toNat) ∧ Rotated s s₁ ∧ Ready s₁ ∧
      s₁.partitionOpened = update s.partitionOpened partitionId.toNat true ∧
      (s.partitionOpened partitionId.toNat = false → s₁.log partitionId.toNat = []) ∧
      Wrote partitionId.toNat (shuffledBytes partitionId record) s₁ s₂ := by
  obtain ⟨s₁, hwriter, hrotated, hready, hsome, hopened, hfirst⟩ := partitionWriter_ready h hp
  obtain ⟨s₂, hpieces, hwrote⟩ := writePieces_wrote hsome (recordPieces partitionId record)
  refine ⟨s₁, s₂, ?_, hrotated, hready, hopened, hfirst, hwrote⟩
  rw [writeVector, run_bind_ok (run_get s)]
  dsimp only
  rw [rejectIf_of_not (not_not.mpr hdim), rejectIf_of_not (Nat.not_le.mpr hp),
    rejectIf_of_not (by simp [hopen])]
  rw [run_bind_ok (run_lift _ s), run_bind_ok (run_lift _ s),
    run_bind_ok (run_lift _ s), run_bind_ok hwriter,
    run_bind_ok hpieces, run_modify]

theorem Clean.write {run : Run} (h : Clean run) {partitionId : UInt32} {record : ShuffledRecord}
    (hp : partitionId.toNat < run.shuffler.nlist)
    (hdim : record.vector.length = run.shuffler.dim) :
    Clean (run.step noFaults (.write partitionId record)) ∧
      (run.step noFaults (.write partitionId record)).accepted =
        update run.accepted partitionId.toNat
          (run.accepted partitionId.toNat ++ [record]) ∧
      TruncatesOnce run.shuffler (run.step noFaults (.write partitionId record)).shuffler := by
  obtain ⟨s₁, s₂, hrun, hrotated, hready, hopened, hfirst, hwrote⟩ :=
    writeVector_noFaults h.ready h.unfinished hp hdim
  have hid : UInt32.ofNat partitionId.toNat = partitionId := UInt32.ofNat_toNat
  have hopened₂ : s₂.partitionOpened =
      update run.shuffler.partitionOpened partitionId.toNat true :=
    hwrote.opened.trans hopened
  simp only [Run.step, call, hrun]
  refine ⟨⟨⟨⟨?_, fun q => ?_, fun q hq => ?_, ?_⟩, fun q hq => ?_⟩, ?_, fun q hq => ?_,
    fun q hq => ?_, fun q hq => ?_⟩, trivial, fun q hq => ⟨?_, ?_⟩⟩
  · exact hwrote.queue ▸ hready.nodup
  · have hmem := hready.mem q
    rw [← hwrote.queue, ← hwrote.writers q] at hmem
    exact hmem
  · have := hready.inRange q (hwrote.queue ▸ hq)
    rw [← hwrote.book.nlist] at this
    exact this
  · have := hready.bound
    rw [← hwrote.queue] at this
    exact this
  · have hsome : (s₁.partitionWriters q).isSome = true := (hwrote.writers q).symm.trans hq
    have := hready.opened q hsome
    rw [← hwrote.opened] at this
    exact this
  · exact hwrote.book.finalized.trans (hrotated.book.finalized.trans h.unfinished)
  · change s₂.partitionOpened q = true at hq
    change s₂.log q = (update run.accepted partitionId.toNat
      (run.accepted partitionId.toNat ++ [record]) q).flatMap (shuffledBytes (UInt32.ofNat q))
    rw [hwrote.log_eq]
    by_cases hqp : q = partitionId.toNat
    · subst hqp
      rw [if_pos rfl, update_self, flatMap_append, flatMap_singleton, hid]
      congr 1
      by_cases hold : run.shuffler.partitionOpened partitionId.toNat = true
      · rw [hrotated.log_eq _ hold, h.written _ hold, hid]
      · have hold' : run.shuffler.partitionOpened partitionId.toNat = false := by simpa using hold
        rw [hfirst hold', h.unopened _ hold', flatMap_nil]
    · rw [hopened₂, update_of_ne hqp] at hq
      rw [if_neg hqp, append_nil, update_of_ne hqp, hrotated.log_eq q hq, h.written q hq]
  · change s₂.partitionOpened q = false at hq
    rw [hopened₂] at hq
    by_cases hqp : q = partitionId.toNat
    · rw [hqp, update_self] at hq
      cases hq
    · rw [update_of_ne hqp] at hq
      dsimp only
      rw [update_of_ne hqp]
      exact h.unopened q hq
  · by_cases hqp : q = partitionId.toNat
    · rw [hqp]
      exact partitionId.toNat_lt
    · dsimp only at hq
      rw [update_of_ne hqp] at hq
      exact h.small q hq
  · change s₂.partitionOpened q = true
    rw [hwrote.opened]
    exact hrotated.opened q hq
  · exact (hrotated.grows q hq).trans (hwrote.grows q)

def recordsOf (writes : List (UInt32 × ShuffledRecord)) (p : Nat) : List ShuffledRecord :=
  (writes.filter fun w => w.1.toNat = p).map Prod.snd

def writeCalls (writes : List (UInt32 × ShuffledRecord)) : List Call :=
  writes.map fun w => .write w.1 w.2

theorem clean_after {dim nlist : Nat} (files : Nat → List UInt8) (file : List UInt8)
    (hvalid : ∀ w ∈ writes, w.1.toNat < nlist ∧ w.2.vector.length = dim) :
    Clean (.after noFaults (.new dim nlist files file) (writeCalls writes)) ∧
      (Run.after noFaults (.new dim nlist files file) (writeCalls writes)).accepted =
        recordsOf writes := by
  induction writes using List.reverseRecOn with
  | nil =>
    refine ⟨⟨⟨⟨nodup_nil, ?_, ?_, Nat.zero_le _⟩, ?_⟩, rfl, ?_, fun _ _ => rfl, ?_⟩, rfl⟩ <;>
      simp [writeCalls, Run.after, new]
  | append_singleton writes w ih =>
    obtain ⟨hclean, haccepted⟩ := ih fun w' hw' => hvalid w' (mem_append_left _ hw')
    have hbook := booked_after noFaults dim nlist files file (writeCalls writes)
    obtain ⟨hp, hdim⟩ := hvalid w (by simp)
    rw [← hbook.nlist_eq] at hp
    rw [← hbook.dim_eq] at hdim
    obtain ⟨hnext, hnow, -⟩ := hclean.write hp hdim
    have hsplit : Run.after noFaults (.new dim nlist files file) (writeCalls (writes ++ [w])) =
        (Run.after noFaults (.new dim nlist files file) (writeCalls writes)).step noFaults
          (.write w.1 w.2) := by
      rw [writeCalls, map_append, Run.after, foldl_append]
      rfl
    rw [hsplit]
    refine ⟨hnext, ?_⟩
    rw [hnow, haccepted]
    funext p
    by_cases hpw : p = w.1.toNat
    · subst hpw
      simp [recordsOf]
    · simp [recordsOf, update_of_ne hpw, Ne.symm hpw]

/-! ### Finishing -/

theorem flushAll_noFaults {ps : List Nat} (hopen : ∀ p ∈ ps, (s.partitionWriters p).isSome = true) :
    ∃ s', (forEach ps (flushBuf noFaults)).run s = (.ok (), s') ∧ Wrote 0 [] s s' ∧
      (∀ p ∈ ps, s'.partitionWriters p = some []) ∧
      ∀ q ∉ ps, s'.partitionWriters q = s.partitionWriters q := by
  induction ps generalizing s with
  | nil => exact ⟨s, rfl, Wrote.refl 0 s, by simp, fun _ _ => rfl⟩
  | cons p ps ih =>
    rw [forall_mem_cons] at hopen
    obtain ⟨s₁, hflush, hwrote, hnil, hother⟩ := flushBuf_wrote hopen.1
    have hwrote₀ : Wrote 0 [] s s₁ :=
      { hwrote with log_eq := fun q => by rw [hwrote.log_eq q, ite_self, ite_self] }
    obtain ⟨s', hrest, hwrote', hempty, hkeep⟩ := ih (s := s₁) fun q hq => by
      rw [hwrote.writers q]
      exact hopen.2 q hq
    refine ⟨s', by rw [forEach, run_bind_ok hflush, hrest], hwrote₀.trans hwrote',
      fun q hq => ?_, fun q hq => ?_⟩
    · by_cases hqs : q ∈ ps
      · exact hempty q hqs
      · obtain rfl : q = p := (mem_cons.mp hq).resolve_right hqs
        rw [hkeep q hqs, hnil]
    · rw [mem_cons, not_or] at hq
      rw [hkeep q hq.2, hother q hq.1]

theorem closeWriters_noFaults (h : QueueOk s) :
    ∃ s', (closeWriters noFaults).run s = (.ok (), s') ∧ SameBook s s' ∧ s'.writerLru = [] ∧
      (∀ p, s'.partitionWriters p = none) ∧ s'.partitionOpened = s.partitionOpened ∧
      (∀ p, s'.partitionFiles p = s.log p) ∧ ∀ p, s.partitionFiles p <+: s'.partitionFiles p := by
  have hopen : ∀ p ∈ s.openWriters, (s.partitionWriters p).isSome = true :=
    fun p hp => (mem_filter.mp hp).2
  obtain ⟨s₁, hflush, hwrote, hempty, hkeep⟩ := flushAll_noFaults hopen
  have hbook := hwrote.book
  refine ⟨{ s₁ with partitionWriters := fun _ => none, writerLru := [] }, ?_,
    ⟨hbook.dim, hbook.nlist, hbook.count, hbook.counts, hbook.finalized⟩, rfl, fun _ => rfl,
    hwrote.opened, fun p => ?_, hwrote.grows⟩
  · rw [closeWriters, run_bind_ok (run_get s), run_bind_ok hflush]
    rfl
  · have hlog := hwrote.log_eq p
    have hnil : (s₁.partitionWriters p).getD [] = [] := by
      by_cases hp : p ∈ s.openWriters
      · rw [hempty p hp]
        rfl
      · rw [hkeep p hp]
        cases hwriter : s.partitionWriters p with
        | none => rfl
        | some buffer =>
          have hsome : (s.partitionWriters p).isSome = true := by rw [hwriter]; rfl
          have hrange := mem_range.mpr (h.inRange p ((h.mem p).mpr hsome))
          exact absurd (show p ∈ s.openWriters from mem_filter.mpr ⟨hrange, hsome⟩) hp
    simp only [log, hnil, append_nil, ite_self] at hlog ⊢
    exact hlog

theorem copyPartitions_noFaults (ps : List Nat) (offset : Nat) (s : DiskShuffler) :
    ∃ s', (copyPartitions noFaults ps offset).run s = (.ok (), s') ∧
      s'.partitionOpened = s.partitionOpened ∧ s'.partitionWriters = s.partitionWriters ∧
      s'.writerLru = s.writerLru := by
  induction ps generalizing offset s with
  | nil => exact ⟨s, rfl, rfl, rfl, rfl⟩
  | cons p ps ih =>
    rw [copyPartitions, run_bind_ok (run_modify _ s),
      run_bind_ok (run_get _)]
    dsimp only
    split
    · exact ih offset _
    · exact ih _ _

theorem combinePartitions_noFaults (s : DiskShuffler) :
    ∃ s', (combinePartitions noFaults).run s = (.ok (), s') ∧
      s'.partitionOpened = s.partitionOpened ∧ s'.partitionWriters = s.partitionWriters ∧
      s'.writerLru = s.writerLru := by
  rw [combinePartitions, run_bind_ok (run_get s)]
  obtain ⟨s₁, hcopy, hkept⟩ := copyPartitions_noFaults (List.range s.nlist) 0
    { s with file := [] }.tick
  have hcreate : (writeOutput noFaults fun _ => []).run s =
      (.ok (), { s with file := [] }.tick) := rfl
  rw [run_bind_ok hcreate, run_bind_ok hcopy]
  exact ⟨{ s₁ with file := id s₁.file }.tick, rfl, hkept⟩

theorem Clean.finish {run : Run} (h : Clean run) :
    ∃ s', (run.step noFaults .finish) = ⟨s', run.accepted⟩ ∧ s'.finalized = true ∧
      QueueOk s' ∧ TruncatesOnce run.shuffler s' ∧
      ∀ p, run.shuffler.partitionOpened p = true → s'.partitionFiles p = run.shuffler.log p := by
  obtain ⟨s₁, hclose, hbook, hqueue, hwriters, hopened, hfiles, hgrows⟩ :=
    closeWriters_noFaults h.ready.toQueueOk
  obtain ⟨s₂, hcombine, hopened₂, hwriters₂, hqueue₂⟩ := combinePartitions_noFaults s₁
  have hfiles₂ := (combinePartitions_ok hcombine).1
  have hrun : (finishWrite noFaults).run run.shuffler =
      (.ok (), { s₂ with finalized := true }) := by
    rw [finishWrite, run_bind_ok (run_get _), if_neg (by simp [h.unfinished]),
      run_bind_ok hclose, run_bind_ok hcombine]
    rfl
  refine ⟨{ s₂ with finalized := true }, ?_, rfl, ⟨?_, fun p => ?_, ?_, ?_⟩, fun p hp => ⟨?_, ?_⟩,
    fun p _ => ?_⟩
  · simp only [Run.step, call, hrun]
  · simp [hqueue₂, hqueue]
  · simp [hqueue₂, hqueue, hwriters₂, hwriters]
  · simp [hqueue₂, hqueue]
  · simp [hqueue₂, hqueue]
  · simp only [hopened₂, hopened, hp]
  · simp only [hfiles₂]
    exact hgrows p
  · simp only [hfiles₂]
    exact hfiles p

/-! ### Reading back -/

def storedRecords (accepted : Nat → List ShuffledRecord) (p : Nat) : List (List UInt8) :=
  (accepted p).map (shuffledBytes (UInt32.ofNat p))

structure Stored (dim nlist : Nat) (run : Run) : Prop where
  booked : Booked dim nlist run
  finished : run.shuffler.finalized = true
  segment_eq : ∀ p, run.shuffler.segment p = (storedRecords run.accepted p).flatten
  small : ∀ p, run.accepted p ≠ [] → p < 2 ^ 32

section Stored

variable {dim nlist : Nat} {run : Run} (h : Stored dim nlist run)
include h

theorem Stored.length_eq {part : List UInt8} (hpart : part ∈ storedRecords run.accepted p) :
    part.length = run.shuffler.recordSize := by
  obtain ⟨record, hrecord, rfl⟩ := mem_map.mp hpart
  rw [shuffledBytes_length, h.booked.vectors p record hrecord, ← h.booked.dim_eq]
  rfl

theorem Stored.decode :
    (storedRecords run.accepted p).map (decodeRecord run.shuffler.dim) = run.accepted p := by
  rw [storedRecords, map_map]
  refine (map_congr_left fun record hrecord => ?_).trans (map_id _)
  rw [comp_apply, h.booked.dim_eq, ← h.booked.vectors p record hrecord,
    decodeRecord_shuffledBytes]
  rfl

theorem Stored.readPartition {p : UInt32} (hp : p.toNat < nlist) :
    run.shuffler.readPartition p = .ok (resultOf (run.accepted p.toNat)) := by
  have hsize : ∀ part ∈ storedRecords run.accepted p.toNat,
      part.length = run.shuffler.recordSize := fun part => h.length_eq
  -- The partition's own records come first.
  obtain ⟨rest, hbytes⟩ : ∃ rest, run.shuffler.bytesFrom p.toNat =
      (storedRecords run.accepted p.toNat).flatten ++ rest := by
    obtain ⟨k, hk⟩ : ∃ k, run.shuffler.nlist - p.toNat = k + 1 := by
      rw [h.booked.nlist_eq]
      exact Nat.exists_eq_succ_of_ne_zero (by omega)
    rw [bytesFrom, hk, List.range'_succ, flatMap_cons, h.segment_eq]
    exact ⟨_, rfl⟩
  have hlength : (run.accepted p.toNat).length = (storedRecords run.accepted p.toNat).length := by
    rw [storedRecords, length_map]
  rw [readPartition_eq_ok h.booked p _ h.finished, h.booked.nlist_eq, hbytes, hlength,
    blocks_flatten hsize, h.decode]
  refine ⟨hp, ?_, rfl⟩
  have htotal := Words.flatMap_length_of_width (f := fun part : List UInt8 => part) hsize
  rw [length_append, ← flatMap_id', htotal]
  omega

theorem Stored.bytes_eq : run.shuffler.bytesFrom 0 =
    ((List.range nlist).flatMap (storedRecords run.accepted)).flatten := by
  rw [bytesFrom, h.booked.nlist_eq, Nat.sub_zero, ← range_eq_range', ← flatMap_id',
    flatMap_assoc]
  exact flatMap_congr fun p _ => (h.segment_eq p).trans flatMap_id'.symm

theorem Stored.count_eq :
    run.shuffler.count = ((List.range nlist).flatMap (storedRecords run.accepted)).length := by
  rw [h.booked.count, length_flatMap]
  congr 1
  refine map_congr_left fun p _ => ?_
  rw [h.booked.counts, storedRecords, length_map]

theorem Stored.partition_eq {part : List UInt8} (hpart : part ∈ storedRecords run.accepted p) :
    recordPartition part = p := by
  obtain ⟨record, hrecord, rfl⟩ := mem_map.mp hpart
  rw [recordPartition_shuffledBytes, UInt32.toNat_ofNat_of_lt']
  exact h.small p (ne_nil_of_mem hrecord)

theorem Stored.filter_eq (hp : p < nlist) :
    ((List.range nlist).flatMap (storedRecords run.accepted)).filter
      (fun part => recordPartition part = p) = storedRecords run.accepted p := by
  have hnone : ∀ q, q ≠ p → (storedRecords run.accepted q).filter
      (fun part => recordPartition part = p) = [] := by
    intro q hq
    rw [filter_eq_nil_iff]
    intro part hpart
    simpa [h.partition_eq hpart] using hq
  have hother : ∀ qs : List Nat, p ∉ qs → qs.flatMap (fun q => (storedRecords run.accepted q).filter
      fun part => recordPartition part = p) = [] := by
    intro qs hqs
    rw [flatMap_eq_nil_iff]
    intro q hq
    refine hnone q ?_
    rintro rfl
    exact hqs hq
  have hall : (storedRecords run.accepted p).filter (fun part => recordPartition part = p) =
      storedRecords run.accepted p := by
    rw [filter_eq_self]
    intro part hpart
    simpa using h.partition_eq hpart
  rw [filter_flatMap, range_split hp, flatMap_append, flatMap_cons,
    hother _ (by simp), hother _ (by simp), hall, nil_append, append_nil]

theorem Stored.readAllPartitions : run.shuffler.readAllPartitions =
    .ok ((List.range nlist).map (fun p => (resultOf (run.accepted p)).1),
      (List.range nlist).map fun p => (resultOf (run.accepted p)).2) := by
  have hsize : ∀ part ∈ (List.range nlist).flatMap (storedRecords run.accepted),
      part.length = run.shuffler.recordSize := by
    intro part hpart
    obtain ⟨p, -, hpart⟩ := mem_flatMap.mp hpart
    exact h.length_eq hpart
  have hblocks := blocks_flatten hsize []
  rw [append_nil] at hblocks
  rw [readAllPartitions_eq_ok h.booked _ h.finished, h.bytes_eq, h.count_eq, hblocks,
    h.booked.nlist_eq]
  refine ⟨?_, fun i hi => ?_, ?_⟩
  · have htotal := Words.flatMap_length_of_width (f := fun part : List UInt8 => part) hsize
    rw [← flatMap_id', htotal]
  · have hmem := mem_map_of_mem (f := block run.shuffler.recordSize
      ((List.range nlist).flatMap (storedRecords run.accepted)).flatten) (mem_range.mpr hi)
    rw [hblocks] at hmem
    obtain ⟨p, hp, hpart⟩ := mem_flatMap.mp hmem
    rw [h.partition_eq hpart]
    exact mem_range.mp hp
  · rw [Prod.mk.injEq, map_inj_left, map_inj_left]
    constructor <;>
    · intro p hp
      rw [h.filter_eq (mem_range.mp hp), h.decode]

end Stored

theorem Clean.stored {dim nlist : Nat} {run : Run} (h : Clean run)
    (hbooked : Booked dim nlist run) :
    Stored dim nlist (run.step noFaults .finish) ∧
      (run.step noFaults .finish).accepted = run.accepted := by
  have hnext : Booked dim nlist (run.step noFaults .finish) := booked_step hbooked .finish
  obtain ⟨s', hstep, hfinished, -, -, hfiles⟩ := h.finish
  rw [hstep] at hnext ⊢
  refine ⟨⟨hnext, hfinished, fun p => ?_, h.small⟩, rfl⟩
  have hcounts := hnext.counts p
  rw [segment, hcounts, storedRecords, ← flatMap_def]
  by_cases hzero : (run.accepted p).length = 0
  · rw [if_pos hzero, length_eq_zero_iff.mp hzero, flatMap_nil]
  · rw [if_neg hzero]
    have hopened : run.shuffler.partitionOpened p = true := by
      by_contra hclosed
      rw [h.unopened p (by simpa using hclosed)] at hzero
      exact hzero rfl
    exact (hfiles p hopened).trans (h.written p hopened)

theorem stored_after {dim nlist : Nat} (files : Nat → List UInt8) (file : List UInt8)
    (hvalid : ∀ w ∈ writes, w.1.toNat < nlist ∧ w.2.vector.length = dim) :
    Stored dim nlist
      (.after noFaults (.new dim nlist files file) (writeCalls writes ++ [.finish])) ∧
      (Run.after noFaults (.new dim nlist files file) (writeCalls writes ++ [.finish])).accepted =
        recordsOf writes := by
  obtain ⟨hclean, haccepted⟩ := clean_after files file hvalid
  obtain ⟨hstored, hsame⟩ := hclean.stored (booked_after noFaults dim nlist files file _)
  rw [Run.after, foldl_append]
  exact ⟨hstored, hsame.trans haccepted⟩

end DiskShuffler

/-- Without failures every written record is read back, in both ways. Between the
calls the queue holds the open writers, and a file is truncated when it is first
opened only. -/
theorem shuffler_round_trip (dim nlist : Nat) (files : Nat → List UInt8) (file : List UInt8)
    (writes : List (UInt32 × ShuffledRecord))
    (hvalid : ∀ w ∈ writes, w.1.toNat < nlist ∧ w.2.vector.length = dim) :
    let state := fun calls => (Run.after noFaults
      (.new dim nlist files file) calls).shuffler
    let calls := writeCalls writes ++ [.finish]
    (∀ p : UInt32, p.toNat < nlist → (state calls).readPartition p =
        .ok (resultOf (recordsOf writes p.toNat))) ∧
      (state calls).readAllPartitions =
        .ok ((List.range nlist).map fun p =>
            (resultOf (recordsOf writes p)).1,
          (List.range nlist).map fun p =>
            (resultOf (recordsOf writes p)).2) ∧
      ∀ k, QueueOk (state (calls.take k)) ∧
        TruncatesOnce (state (calls.take k)) (state (calls.take (k + 1))) := by
  intro state calls
  obtain ⟨hstored, haccepted⟩ := stored_after files file hvalid
  refine ⟨fun p hp => ?_, ?_, fun k => ?_⟩
  · rw [← haccepted]
    exact hstored.readPartition hp
  · rw [← haccepted]
    exact hstored.readAllPartitions
  · have hlength : (writeCalls writes).length = writes.length := by
      rw [writeCalls, length_map]
    have hcalls : calls.length = writes.length + 1 := by
      rw [length_append, hlength, length_singleton]
    -- After `k` writes, and after everything.
    have hwrites : ∀ j ≤ writes.length, calls.take j =
        writeCalls (writes.take j) := by
      intro j hj
      rw [take_append_of_le_length (by omega), writeCalls,
        writeCalls, map_take]
    have hall : ∀ j, writes.length < j → calls.take j = calls := fun j hj =>
      take_of_length_le (by omega)
    have hclean : ∀ j, Clean (.after noFaults (.new dim nlist files file)
        (writeCalls (writes.take j))) := fun j =>
      (clean_after files file fun w hw => hvalid w (mem_of_mem_take hw)).1
    have hfinish : state calls = ((Run.after noFaults
        (.new dim nlist files file) (writeCalls writes)).step noFaults
          .finish).shuffler := by
      simp only [state, calls, Run.after, foldl_append, foldl_cons,
        foldl_nil]
    have hwhole := hclean writes.length
    rw [take_length] at hwhole
    obtain ⟨s', hstep, -, hqueue, htruncates, -⟩ := hwhole.finish
    rw [hstep] at hfinish
    rcases Nat.lt_trichotomy k writes.length with hk | rfl | hk
    · -- One more record is written.
      rw [hwrites k hk.le, hwrites (k + 1) hk, take_add_one, List.getElem?_eq_getElem hk,
        Option.toList_some]
      refine ⟨(hclean k).ready.toQueueOk, ?_⟩
      have hbook := booked_after noFaults dim nlist files file
        (writeCalls (writes.take k))
      obtain ⟨hp, hdim⟩ := hvalid writes[k] (getElem_mem hk)
      rw [← hbook.nlist_eq] at hp
      rw [← hbook.dim_eq] at hdim
      have hnext := ((hclean k).write hp hdim).2.2
      simpa only [state, Run.after, writeCalls, map_append,
        map_cons, map_nil, foldl_append, foldl_cons, foldl_nil] using hnext
    · rw [hwrites _ le_rfl, hall _ (Nat.lt_succ_self _), hfinish, take_length]
      exact ⟨hwhole.ready.toQueueOk, htruncates⟩
    · rw [hall k hk, hall (k + 1) (by omega), hfinish]
      exact ⟨hqueue, fun p hp => ⟨hp, prefix_rfl⟩⟩

/-- A record for each of 66 partitions, and a second one for the first: its writer
is evicted and opened again. -/
def evictingWrites : List (UInt32 × ShuffledRecord) :=
  ((List.range 66).map fun p => (UInt32.ofNat p, ⟨Int64.ofNat p, [⟨UInt32.ofNat p⟩]⟩)) ++
    [(0, ⟨100, [⟨7⟩]⟩)]

theorem shuffler_round_trip_evicting :
    (Run.after noFaults (.new 1 66 (fun _ => [7]) [])
      (writeCalls evictingWrites ++ [.finish])).shuffler.readPartition 0 =
        .ok ([0, 100], [⟨0⟩, ⟨7⟩]) :=
  (shuffler_round_trip 1 66 (fun _ => [7]) [] evictingWrites (by decide +kernel)).1 0 (by decide)

end PaimonVindex
