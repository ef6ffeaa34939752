import PaimonVindex.Shuffler

/-! What a run of the shuffler leaves in its files, whatever fails, and which
records the readers then cut from them. -/

namespace PaimonVindex

open Checked Effect List Function

/-! ### Records -/

def recordPayload (record : ShuffledRecord) : List UInt8 :=
  i64Bytes record.rowId ++ record.vector.flatMap F32.toBytes

theorem shuffledBytes_eq (p : UInt32) (record : ShuffledRecord) :
    shuffledBytes p record = u32Bytes p ++ recordPayload record := by
  simp [shuffledBytes, recordPieces, recordPayload, List.flatMap]

theorem shuffledBytes_length (p : UInt32) (record : ShuffledRecord) :
    (shuffledBytes p record).length = recordOverhead + record.vector.length * 4 := by
  have hvector := Words.flatMap_length_of_width (l := record.vector)
    fun v _ => F32.toBytes_length v
  simp only [shuffledBytes_eq, recordPayload, length_append, u32Bytes_length, i64Bytes_length,
    hvector, recordOverhead]
  omega

variable {dim : Nat}

namespace DiskShuffler

/-! ### Reading -/

def block (size : Nat) (bytes : List UInt8) (i : Nat) :
    List UInt8 := (bytes.drop (i * size)).take size

theorem block_zero (size : Nat) (bytes : List UInt8) : block size bytes 0 = bytes.take size := by
  rw [block, Nat.zero_mul, drop_zero]

theorem block_succ (size : Nat) (bytes : List UInt8) (i : Nat) :
    block size bytes (i + 1) = block size (bytes.drop size) i := by
  rw [block, block, drop_drop, Nat.succ_mul, Nat.add_comm]

theorem blocks_succ (size n : Nat) (bytes : List UInt8) :
    (List.range (n + 1)).map (block size bytes) =
      bytes.take size :: (List.range n).map (block size (bytes.drop size)) := by
  rw [range_succ_eq_map, map_cons, map_map, block_zero]
  exact congrArg _ (map_congr_left fun i _ => block_succ size bytes i)

theorem blocks_flatten {size : Nat} {parts : List (List UInt8)}
    (h : ∀ part ∈ parts, part.length = size) (rest : List UInt8) :
    (List.range parts.length).map (block size (parts.flatten ++ rest)) = parts := by
  induction parts with
  | nil => rfl
  | cons part parts ih =>
    rw [forall_mem_cons] at h
    have htail := ih h.2
    rw [length_cons, blocks_succ, flatten_cons, append_assoc, ← h.1, take_left,
      drop_left, h.1, htail]

theorem decodeRecord_shuffledBytes (p : UInt32) (record : ShuffledRecord) :
    decodeRecord record.vector.length (shuffledBytes p record) = record := by
  have hpayload : (shuffledBytes p record).drop 4 = recordPayload record := by
    rw [shuffledBytes_eq, drop_left' (u32Bytes_length p)]
  have hvector : (shuffledBytes p record).drop recordOverhead =
      (record.vector.map F32.toBytes).flatten := by
    rw [recordOverhead, ← drop_drop, hpayload, recordPayload, drop_left' (i64Bytes_length _),
      flatMap_def]
  have hblocks := @blocks_flatten 4 (record.vector.map F32.toBytes) (by simp) []
  rw [length_map, append_nil] at hblocks
  have hvalues : (List.range record.vector.length).map (fun i => F32.ofBytes
      (((shuffledBytes p record).drop (recordOverhead + i * 4)).take 4)) = record.vector := by
    calc _ = ((List.range record.vector.length).map
            (block 4 (record.vector.map F32.toBytes).flatten)).map F32.ofBytes := by
          simp only [map_map, ← hvector, comp_def, block, drop_drop]
      _ = record.vector := by
          rw [hblocks, map_map]
          exact map_id'' F32.ofBytes_toBytes _
  rw [decodeRecord, hvalues, hpayload, recordPayload, take_left' (i64Bytes_length _),
    i64OfBytes_i64Bytes]

theorem recordPartition_shuffledBytes (p : UInt32) (record : ShuffledRecord) :
    recordPartition (shuffledBytes p record) = p.toNat := by
  rw [recordPartition, shuffledBytes_eq, take_left' (u32Bytes_length p), u32OfBytes_u32Bytes]

variable {bytes : List UInt8} {n : Nat}

theorem readRecords_eq_ok {size : Nat} {records : List (List UInt8)} :
    readRecords size n bytes = .ok records ↔
      n * size ≤ bytes.length ∧ records = (List.range n).map (block size bytes) := by
  induction n generalizing bytes records with
  | zero => simp [readRecords, eq_comm]
  | succ n ih =>
    simp only [readRecords, accepted, ih, length_drop, blocks_succ, Nat.succ_mul]
    constructor
    · rintro ⟨hlong, _, ⟨hle, rfl⟩, rfl⟩
      exact ⟨by omega, rfl⟩
    · rintro ⟨hle, rfl⟩
      exact ⟨by omega, _, ⟨by omega, rfl⟩, rfl⟩

theorem readAllFrom_eq_ok {nlist : Nat} {rows out : Nat → List ShuffledRecord} :
    readAllFrom dim nlist n bytes rows = .ok out ↔
      n * (recordOverhead + dim * 4) ≤ bytes.length ∧
      (∀ i < n, recordPartition (block (recordOverhead + dim * 4) bytes i) < nlist) ∧
      out = fun p => rows p ++ (((List.range n).map (block (recordOverhead + dim * 4) bytes)).filter
        fun b => recordPartition b = p).map (decodeRecord dim) := by
  induction n generalizing bytes rows with
  | zero =>
    simp only [readAllFrom, Except.ok.injEq, Nat.zero_mul, Nat.zero_le, true_and, Nat.not_lt_zero,
      false_imp_iff, implies_true, range_zero, map_nil, filter_nil, append_nil]
    exact eq_comm
  | succ n ih =>
    have hrows : ∀ (b : List UInt8) (bs : List (List UInt8)),
        (fun p => update rows (recordPartition b)
          (rows (recordPartition b) ++ [decodeRecord dim b]) p ++
          (bs.filter fun c => recordPartition c = p).map (decodeRecord dim)) =
        fun p => rows p ++ ((b :: bs).filter fun c => recordPartition c = p).map
          (decodeRecord dim) := by
      intro b bs
      funext p
      by_cases hp : recordPartition b = p
      · subst hp
        simp
      · simp [update_of_ne (Ne.symm hp), hp]
    simp only [readAllFrom, accepted, ih, length_drop, blocks_succ, hrows, Nat.succ_mul]
    constructor
    · rintro ⟨hlong, hp, hle, hparts, rfl⟩
      refine ⟨by omega, fun i hi => ?_, rfl⟩
      cases i with
      | zero => rw [block_zero]; omega
      | succ i => rw [block_succ]; exact hparts i (by omega)
    · rintro ⟨hle, hparts, rfl⟩
      have hfirst := hparts 0 (Nat.succ_pos n)
      rw [block_zero] at hfirst
      refine ⟨by omega, by omega, by omega, fun i hi => ?_, rfl⟩
      have := hparts (i + 1) (by omega)
      rwa [block_succ] at this

/-! ### What a write may change -/

/-- Everything but the files of the partitions and their writers. -/
structure SameBook (s s' : DiskShuffler) : Prop where
  dim : s'.dim = s.dim
  nlist : s'.nlist = s.nlist
  count : s'.count = s.count
  counts : s'.partitionCounts = s.partitionCounts
  finalized : s'.finalized = s.finalized

instance : IsPreorder DiskShuffler SameBook where
  refl _ := ⟨rfl, rfl, rfl, rfl, rfl⟩
  trans _ _ _ h h' := ⟨h'.dim.trans h.dim, h'.nlist.trans h.nlist, h'.count.trans h.count,
    h'.counts.trans h.counts, h'.finalized.trans h.finalized⟩

section Moves

variable (faults : Faults) (p : Nat)

theorem writeFile_sameBook (bytes : List UInt8) (s : DiskShuffler) :
    SameBook s (writeFile faults p bytes s).2.2 := by
  rw [writeFile]
  split <;> exact ⟨rfl, rfl, rfl, rfl, rfl⟩

theorem moves_writeDirect (bytes : List UInt8) : (writeDirect faults p bytes).Moves SameBook := by
  intro s
  have hbook := writeFile_sameBook faults p bytes s
  simp only [run, writeDirect]
  split <;> simp_all

theorem moves_flushBuf : (flushBuf faults p).Moves SameBook := by
  intro s
  simp only [run, flushBuf]
  split
  · exact refl_of SameBook s
  · rename_i buffer _
    have hbook := writeFile_sameBook faults p buffer s
    have hset : SameBook s ((writeFile faults p buffer s).2.2.setWriter p
        (some (writeFile faults p buffer s).2.1)) :=
      ⟨hbook.dim, hbook.nlist, hbook.count, hbook.counts, hbook.finalized⟩
    split <;> exact hset

theorem moves_writeAll (bytes : List UInt8) : (writeAll faults p bytes).Moves SameBook := by
  refine moves_bind moves_get fun s => ?_
  have happend : (appendBuffer p bytes).Moves SameBook := fun _ => ⟨rfl, rfl, rfl, rfl, rfl⟩
  dsimp only
  split
  · exact happend
  · refine moves_bind ?_ fun _ => ?_
    · split
      · exact moves_flushBuf faults p
      · exact moves_pure ()
    · split
      · exact moves_writeDirect faults p bytes
      · exact happend

theorem moves_evictWriter : (evictWriter faults).Moves SameBook := by
  intro s
  simp only [run, evictWriter]
  split
  · exact refl_of SameBook s
  · rename_i evicted rest _
    split
    · exact ⟨rfl, rfl, rfl, rfl, rfl⟩
    · rename_i buffer _
      simp only [closeWriter]
      generalize hs₁ : ({ s with writerLru := rest } : DiskShuffler).setWriter evicted none = s₁
      have hfirst : SameBook s s₁ := hs₁ ▸ ⟨rfl, rfl, rfl, rfl, rfl⟩
      have hwrite := trans_of SameBook hfirst (writeFile_sameBook faults evicted buffer s₁)
      split
      · rename_i s₂ heq
        rwa [heq] at hwrite
      · rename_i e left s₂ heq
        rw [heq] at hwrite
        exact trans_of SameBook hwrite (writeFile_sameBook faults evicted left s₂)

theorem moves_openPartition : (openPartition faults p).Moves SameBook := by
  intro s
  simp only [run, openPartition]
  split <;> split <;> exact ⟨rfl, rfl, rfl, rfl, rfl⟩

theorem moves_partitionWriter : (partitionWriter faults p).Moves SameBook := by
  refine moves_bind moves_get fun s => ?_
  refine moves_bind ?_ fun _ => ?_
  · split
    · refine moves_bind moves_get fun s => ?_
      refine moves_bind ?_ fun _ => moves_bind
        (moves_openPartition faults p) fun _ => fun _ => ⟨rfl, rfl, rfl, rfl, rfl⟩
      split
      · exact moves_evictWriter faults
      · exact moves_pure ()
    · exact moves_pure ()
  · refine moves_bind (fun _ => ⟨rfl, rfl, rfl, rfl, rfl⟩) fun _ => ?_
    exact moves_bind moves_get fun _ =>
      moves_lift _

theorem moves_writeOutput (change : List UInt8 → List UInt8) :
    (writeOutput faults change).Moves SameBook := by
  intro s
  simp only [run, writeOutput]
  split <;> exact ⟨rfl, rfl, rfl, rfl, rfl⟩

theorem moves_copyPartitions (ps : List Nat) (offset : Nat) :
    (copyPartitions faults ps offset).Moves SameBook := by
  induction ps generalizing offset with
  | nil => exact moves_pure ()
  | cons p ps ih =>
    refine moves_bind (fun _ => ⟨rfl, rfl, rfl, rfl, rfl⟩) fun _ => ?_
    refine moves_bind moves_get fun s => ?_
    split
    · exact ih offset
    · refine moves_bind ?_ fun _ => ih _
      refine moves_bind moves_get fun s => ?_
      exact moves_bind (moves_writeOutput faults id) fun _ =>
        moves_writeOutput faults _

end Moves

/-! ### Calls -/

section Calls

variable {faults : Faults}

theorem writeVector_ensures (faults : Faults) (partitionId : UInt32) (record : ShuffledRecord)
    (s : DiskShuffler) :
    (writeVector faults partitionId record).Ensures (· = s)
      (fun _ s' => record.vector.length = s.dim ∧ partitionId.toNat < s.nlist ∧
        s.finalized = false ∧ ∃ s₁, s' = s₁.countRecord partitionId.toNat ∧ SameBook s s₁)
      fun s' => SameBook s s' ∧ (s.finalized = true → s' = s) := by
  refine ensures_bind_get ?_
  rintro s rfl
  have hsame : ∀ s', s' = s → SameBook s s' ∧ (s.finalized = true → s' = s) := by
    rintro _ rfl
    exact ⟨refl_of SameBook _, fun _ => rfl⟩
  refine ensures_bind_lift hsame fun _ hdim => ensures_bind_lift hsame fun _ hrange =>
    ensures_bind_lift hsame fun _ hopen => ?_
  rw [rejectIf_eq_ok] at hdim hrange hopen
  have hfail : ∀ s', SameBook s s' → SameBook s s' ∧ (s.finalized = true → s' = s) :=
    fun s' hbook => ⟨hbook, fun hdone => absurd hdone hopen⟩
  refine ensures_bind (fun s' hs' => (moves_partitionWriter faults _).ensures hfail s'
    (hs' ▸ refl_of SameBook s)) fun _ => ensures_bind ((moves_forEach fun piece _ =>
      moves_writeAll faults partitionId.toNat piece).ensures hfail) fun _ => ?_
  refine ensures_modify fun s₁ hbook => ⟨not_ne_iff.mp hdim, Nat.lt_of_not_le hrange, ?_,
    s₁, rfl, hbook⟩
  simpa using hopen

def segment (s : DiskShuffler) (p : Nat) : List UInt8 :=
  if s.partitionCounts p = 0 then [] else s.partitionFiles p

variable {s s' : DiskShuffler}

theorem writeOutput_ok {change : List UInt8 → List UInt8}
    (h : (writeOutput faults change).run s = (.ok (), s')) :
    s' = { s with file := change s.file }.tick := by
  simp only [run, writeOutput] at h
  split at h
  · exact (Prod.mk.inj h).2.symm
  · cases (Prod.mk.inj h).1

theorem copyPartitions_ok {ps : List Nat} {offset : Nat} (hnodup : ps.Nodup)
    (h : (copyPartitions faults ps offset).run s = (.ok (), s')) :
    s'.partitionFiles = s.partitionFiles ∧ s'.file = s.file ++ ps.flatMap s.segment ∧
      (∀ q ∉ ps, s'.partitionOffsets q = s.partitionOffsets q) ∧
      ∀ before q after, ps = before ++ q :: after →
        s'.partitionOffsets q = offset + (before.flatMap s.segment).length := by
  induction ps generalizing offset s with
  | nil =>
    obtain ⟨-, rfl⟩ := Prod.mk.inj h
    simp
  | cons p ps ih =>
    obtain ⟨hp, hps⟩ := nodup_cons.mp hnodup
    rw [copyPartitions, run_bind_ok (run_modify _ s),
      run_bind_ok (run_get _)] at h
    dsimp only at h
    -- The state behind this partition and the offset of the next one.
    obtain ⟨s₁, next, hrest, hfiles, hcounts, hfile, hoffsets, hnext⟩ : ∃ s₁ next,
        (copyPartitions faults ps next).run s₁ = (.ok (), s') ∧
        s₁.partitionFiles = s.partitionFiles ∧ s₁.partitionCounts = s.partitionCounts ∧
        s₁.file = s.file ++ s.segment p ∧
        s₁.partitionOffsets = update s.partitionOffsets p offset ∧
        next = offset + (s.segment p).length := by
      by_cases hzero : s.partitionCounts p = 0
      · rw [if_pos hzero] at h
        refine ⟨_, offset, h, rfl, rfl, ?_, rfl, ?_⟩ <;> simp [segment, hzero]
      · rw [if_neg hzero] at h
        obtain ⟨_, s₃, hcopy, hrest⟩ := run_bind_eq_ok.mp h
        rw [copyPartition, run_bind_ok (run_get _)] at hcopy
        obtain ⟨_, s₂, hopen, hcopy⟩ := run_bind_eq_ok.mp hcopy
        have hopen := writeOutput_ok hopen
        have hcopy := writeOutput_ok hcopy
        subst hopen hcopy
        refine ⟨_, _, hrest, rfl, rfl, ?_, rfl, ?_⟩ <;> simp [segment, hzero, tick]
    have hsegment : s₁.segment = s.segment := by
      funext q
      rw [segment, segment, hfiles, hcounts]
    obtain ⟨hfiles', hfile', hkeep, hoffset⟩ := ih hps hrest
    rw [hsegment] at hfile' hoffset
    refine ⟨hfiles'.trans hfiles, ?_, fun q hq => ?_, fun before q after hsplit => ?_⟩
    · rw [hfile', hfile, flatMap_cons, append_assoc]
    · obtain ⟨hne, hq⟩ := not_or.mp (fun h => hq (mem_cons.mpr h))
      rw [hkeep q hq, hoffsets, update_of_ne hne]
    · cases before with
      | nil =>
        obtain ⟨rfl, -⟩ := List.cons.inj hsplit
        rw [hkeep p hp, hoffsets, update_self, flatMap_nil, length_nil,
          Nat.add_zero]
      | cons b before =>
        obtain ⟨rfl, hrest'⟩ := List.cons.inj hsplit
        rw [hoffset before q after hrest', hnext, flatMap_cons, length_append,
          Nat.add_assoc]

structure Combined (s : DiskShuffler) : Prop where
  file : s.file = (List.range s.nlist).flatMap s.segment
  offset : ∀ p < s.nlist, s.partitionOffsets p = ((List.range p).flatMap s.segment).length

theorem range_split {p : Nat} (h : p < n) :
    List.range n = List.range p ++ p :: List.range' (p + 1) (n - (p + 1)) := by
  obtain ⟨k, rfl⟩ := Nat.exists_eq_add_of_lt h
  rw [show p + k + 1 - (p + 1) = k by omega, ← List.range'_succ, range_eq_range',
    range_eq_range', Nat.add_assoc, ← List.range'_append_1, Nat.zero_add]

theorem moves_closeWriters : (closeWriters faults).Moves SameBook := by
  refine moves_bind moves_get fun s => ?_
  exact moves_bind (moves_forEach
    fun p _ => moves_flushBuf faults p) fun _ => fun _ => ⟨rfl, rfl, rfl, rfl, rfl⟩

theorem moves_combinePartitions : (combinePartitions faults).Moves SameBook := by
  refine moves_bind moves_get fun s => ?_
  exact moves_bind (moves_writeOutput faults _) fun _ =>
    moves_bind (moves_copyPartitions faults _ 0) fun _ =>
      moves_writeOutput faults id

theorem combinePartitions_ok (h : (combinePartitions faults).run s = (.ok (), s')) :
    s'.partitionFiles = s.partitionFiles ∧ Combined s' := by
  have hbook := moves_combinePartitions.of_run h
  rw [combinePartitions, run_bind_ok (run_get s)] at h
  obtain ⟨_, s₁, hcreate, h⟩ := run_bind_eq_ok.mp h
  obtain rfl := writeOutput_ok hcreate
  obtain ⟨_, s₂, hcopy, h⟩ := run_bind_eq_ok.mp h
  obtain ⟨hfiles, hfile, -, hoffset⟩ := copyPartitions_ok nodup_range hcopy
  obtain rfl := writeOutput_ok h
  have hsegment : ({ s₂ with file := id s₂.file }.tick).segment = s.segment := by
    funext p
    rw [segment, segment, hbook.counts]
    exact congrArg (fun files => if s.partitionCounts p = 0 then [] else files p) hfiles
  refine ⟨hfiles, ?_, fun p hp => ?_⟩
  · rw [hsegment, hbook.nlist]
    exact hfile
  · rw [hsegment]
    rw [hbook.nlist] at hp
    exact (hoffset _ p _ (range_split hp)).trans (Nat.zero_add _)

theorem finishWrite_ensures (faults : Faults) (s : DiskShuffler) :
    (finishWrite faults).Ensures (· = s)
      (fun _ s' => s' = s ∨ ∃ s₁, s' = { s₁ with finalized := true } ∧ SameBook s s₁ ∧ Combined s₁)
      fun s' => SameBook s s' ∧ s.finalized = false := by
  refine ensures_bind_get ?_
  rintro s rfl
  split
  · exact ensures_pure fun _ => .inl
  · rename_i hdone
    have hfail : ∀ s', SameBook s s' → SameBook s s' ∧ s.finalized = false :=
      fun s' hbook => ⟨hbook, by simpa using hdone⟩
    refine ensures_bind (fun s' hs' => moves_closeWriters.ensures hfail s'
      (hs' ▸ refl_of SameBook s)) fun _ => ensures_bind
      (Q := fun _ s₁ => SameBook s s₁ ∧ Combined s₁)
        (fun s₁ hs₁ => ?_) fun _ => ensures_modify fun s₁ hs₁ => .inr ⟨s₁, rfl, hs₁⟩
    obtain ⟨hok, herror⟩ := moves_combinePartitions.ensures hfail s₁ hs₁
    exact ⟨fun a s' hrun => ⟨hok a s' hrun, (combinePartitions_ok hrun).2⟩, herror⟩

/-- What is known of every run, whatever has failed in it. -/
structure Booked (dim nlist : Nat) (run : Run) : Prop where
  dim_eq : run.shuffler.dim = dim
  nlist_eq : run.shuffler.nlist = nlist
  counts : ∀ p, run.shuffler.partitionCounts p = (run.accepted p).length
  count : run.shuffler.count = ((List.range nlist).map run.shuffler.partitionCounts).sum
  inRange : ∀ p, nlist ≤ p → run.accepted p = []
  vectors : ∀ p, ∀ record ∈ run.accepted p, record.vector.length = dim
  combined : run.shuffler.finalized = true → Combined run.shuffler

theorem Booked.of_sameBook {nlist : Nat} {run : Run} (h : Booked dim nlist run)
    (hbook : SameBook run.shuffler s) (hdone : run.shuffler.finalized = true → s = run.shuffler) :
    Booked dim nlist ⟨s, run.accepted⟩ where
  dim_eq := hbook.dim.trans h.dim_eq
  nlist_eq := hbook.nlist.trans h.nlist_eq
  counts p := (congrFun hbook.counts p).trans (h.counts p)
  count := by
    rw [hbook.counts]
    exact hbook.count.trans h.count
  inRange := h.inRange
  vectors := h.vectors
  combined hfinal := by
    have hfinal' : run.shuffler.finalized = true := hbook.finalized ▸ hfinal
    rw [hdone hfinal']
    exact h.combined hfinal'

theorem sum_update_succ {f : Nat → Nat} {p : Nat} (h : p < n) :
    ((List.range n).map (update f p (f p + 1))).sum = ((List.range n).map f).sum + 1 := by
  have hbefore : ∀ l : List Nat, p ∉ l → l.map (update f p (f p + 1)) = l.map f := by
    intro l hl
    refine map_congr_left fun q hq => update_of_ne ?_ _ _
    rintro rfl
    exact hl hq
  rw [range_split h]
  simp only [map_append, map_cons, sum_append, sum_cons, update_self]
  rw [hbefore _ (by simp), hbefore _ (by simp)]
  omega

theorem booked_step {nlist : Nat} {run : Run} (h : Booked dim nlist run) (c : Call) :
    Booked dim nlist (run.step faults c) := by
  cases c with
  | write partitionId record =>
    obtain ⟨hok, herror⟩ := writeVector_ensures faults partitionId record run.shuffler _ rfl
    rcases hrun : (writeVector faults partitionId record).run run.shuffler with ⟨_ | _, s'⟩
    · simp only [Run.step, call, hrun]
      exact h.of_sameBook (herror _ s' hrun).1 (herror _ s' hrun).2
    · obtain ⟨hvector, hrange, hopen, s₁, rfl, hbook⟩ := hok _ s' hrun
      simp only [Run.step, call, hrun]
      rw [h.nlist_eq] at hrange
      refine ⟨hbook.dim.trans h.dim_eq, hbook.nlist.trans h.nlist_eq, fun p => ?_, ?_,
        fun p hp => ?_, fun p r hr => ?_, fun hfinal => ?_⟩
      · simp only [countRecord, hbook.counts]
        by_cases hp : p = partitionId.toNat
        · subst hp
          simp [h.counts]
        · rw [update_of_ne hp, update_of_ne hp, h.counts]
      · simp only [countRecord, hbook.counts, hbook.count, h.count]
        exact (sum_update_succ hrange).symm
      · dsimp only
        rw [update_of_ne (by omega)]
        exact h.inRange p hp
      · dsimp only at hr
        by_cases hp : p = partitionId.toNat
        · subst hp
          rw [update_self, mem_append, mem_singleton] at hr
          rcases hr with hr | rfl
          · exact h.vectors _ r hr
          · exact hvector.trans h.dim_eq
        · rw [update_of_ne hp] at hr
          exact h.vectors p r hr
      · have hfinal' : s₁.finalized = true := hfinal
        rw [hbook.finalized, hopen] at hfinal'
        cases hfinal'
  | finish =>
    obtain ⟨hok, herror⟩ := finishWrite_ensures faults run.shuffler _ rfl
    rcases hrun : (finishWrite faults).run run.shuffler with ⟨_ | _, s'⟩ <;>
      simp only [Run.step, call, hrun]
    · obtain ⟨hbook, hopen⟩ := herror _ s' hrun
      exact h.of_sameBook hbook fun hdone => by rw [hopen] at hdone; cases hdone
    · obtain rfl | ⟨s₁, rfl, hbook, hcombined⟩ := hok _ s' hrun
      · exact h
      refine ⟨hbook.dim.trans h.dim_eq, hbook.nlist.trans h.nlist_eq,
        fun p => (congrFun hbook.counts p).trans (h.counts p), ?_, h.inRange, h.vectors,
        fun _ => ⟨hcombined.file, hcombined.offset⟩⟩
      rw [show ({ s₁ with finalized := true } : DiskShuffler).partitionCounts =
        run.shuffler.partitionCounts from hbook.counts]
      exact hbook.count.trans h.count

theorem booked_after (faults : Faults) (dim nlist : Nat) (files : Nat → List UInt8)
    (file : List UInt8) (calls : List Call) :
    Booked dim nlist (Run.after faults (.new dim nlist files file) calls) := by
  have hstart : Booked dim nlist ⟨.new dim nlist files file, fun _ => []⟩ :=
    ⟨rfl, rfl, fun _ => rfl, by simp [new], fun _ _ => rfl, by simp, by simp [new]⟩
  rw [Run.after]
  generalize (⟨.new dim nlist files file, fun _ => []⟩ : Run) = run at hstart
  induction calls generalizing run with
  | nil => exact hstart
  | cons c calls ih => exact ih _ (booked_step hstart c)

end Calls

/-! ### The readers on a combined file -/

/-- The bytes of a partition and of all later ones. -/
def bytesFrom (s : DiskShuffler) (p : Nat) : List UInt8 :=
  (List.range' p (s.nlist - p)).flatMap s.segment

theorem Combined.file_drop {s : DiskShuffler} (h : Combined s) {p : Nat} (hp : p < s.nlist) :
    s.file.drop (s.partitionOffsets p) = s.bytesFrom p := by
  have hsplit : List.range s.nlist = List.range p ++ List.range' p (s.nlist - p) := by
    nth_rewrite 1 [← Nat.add_sub_cancel' hp.le]
    rw [range_eq_range', range_eq_range', ← List.range'_append_1, Nat.zero_add]
  rw [h.file, h.offset p hp, hsplit, flatMap_append, drop_left, bytesFrom]

theorem Combined.file_eq {s : DiskShuffler} (h : Combined s) : s.file = s.bytesFrom 0 := by
  rw [h.file, bytesFrom, range_eq_range', Nat.sub_zero]

def resultOf (rows : List ShuffledRecord) : List Int64 × List F32 :=
  (rows.map (·.rowId), rows.flatMap (·.vector))

section Reads

variable {dim nlist : Nat} {run : Run} (h : Booked dim nlist run)
include h

theorem readPartition_eq_ok (p : UInt32) (result : List Int64 × List F32)
    (hdone : run.shuffler.finalized = true) :
    run.shuffler.readPartition p = .ok result ↔ p.toNat < run.shuffler.nlist ∧
      (run.accepted p.toNat).length * run.shuffler.recordSize ≤
        (run.shuffler.bytesFrom p.toNat).length ∧
      result = resultOf (((List.range (run.accepted p.toNat).length).map
        (block run.shuffler.recordSize (run.shuffler.bytesFrom p.toNat))).map
          (decodeRecord run.shuffler.dim)) := by
  simp only [readPartition, validateFinalized, validatePartitionId, accepted, hdone,
    Bool.true_eq_false, not_false_eq_true, true_and, readRecords_eq_ok, h.counts]
  constructor
  · rintro ⟨_, ⟨hp, rfl⟩, _, ⟨hle, rfl⟩, rfl⟩
    rw [Nat.not_le] at hp
    rw [(h.combined hdone).file_drop hp] at hle ⊢
    exact ⟨hp, hle, rfl⟩
  · rintro ⟨hp, hle, rfl⟩
    refine ⟨_, ⟨Nat.not_le.mpr hp, rfl⟩, _, ⟨?_, rfl⟩, ?_⟩
    · rwa [(h.combined hdone).file_drop hp]
    · rw [(h.combined hdone).file_drop hp]
      rfl

theorem readAllPartitions_eq_ok (result : List (List Int64) × List (List F32))
    (hdone : run.shuffler.finalized = true) :
    run.shuffler.readAllPartitions = .ok result ↔
      run.shuffler.count * run.shuffler.recordSize ≤ (run.shuffler.bytesFrom 0).length ∧
      (∀ i < run.shuffler.count,
        recordPartition (block run.shuffler.recordSize (run.shuffler.bytesFrom 0) i) <
          run.shuffler.nlist) ∧
      result = ((List.range run.shuffler.nlist).map fun p => (resultOf
          ((((List.range run.shuffler.count).map
            (block run.shuffler.recordSize (run.shuffler.bytesFrom 0))).filter
              fun b => recordPartition b = p).map (decodeRecord run.shuffler.dim))).1,
        (List.range run.shuffler.nlist).map fun p => (resultOf
          ((((List.range run.shuffler.count).map
            (block run.shuffler.recordSize (run.shuffler.bytesFrom 0))).filter
              fun b => recordPartition b = p).map (decodeRecord run.shuffler.dim))).2) := by
  simp only [readAllPartitions, validateFinalized, accepted, hdone, Bool.true_eq_false,
    not_false_eq_true, true_and, readAllFrom_eq_ok, (h.combined hdone).file_eq, nil_append]
  constructor
  · rintro ⟨_, ⟨hle, hparts, rfl⟩, rfl⟩
    exact ⟨hle, hparts, rfl⟩
  · rintro ⟨hle, hparts, rfl⟩
    exact ⟨_, ⟨hle, hparts, rfl⟩, rfl⟩

end Reads

end DiskShuffler

end PaimonVindex
