import Mathlib.Data.List.ReduceOption
import PaimonVindex.Ivf.IoUtil

/-! The inverted lists of a file, as all families store them: an offset table,
then the payloads of the non-empty lists, each with its ids in ascending order. -/

namespace PaimonVindex

open Checked List

structure ListEntry where
  offset : Int64
  count : Int32
  idBytesLen : Int32
  deriving DecidableEq, Repr

instance : Inhabited ListEntry := ⟨⟨0, 0, 0⟩⟩

namespace ListEntry

variable (entry : ListEntry)

def toBytes : List UInt8 :=
  i64Bytes entry.offset ++ i32Bytes entry.count ++ i32Bytes entry.idBytesLen

def ofBytes (bytes : List UInt8) : ListEntry where
  offset := i64OfBytes (bytes.take 8)
  count := i32OfBytes ((bytes.drop 8).take 4)
  idBytesLen := i32OfBytes ((bytes.drop 12).take 4)

/-- `count as usize`. -/
def rows : Nat := entry.count.toInt.toNat

/-- `id_bytes_len as usize`. -/
def idBytes : Nat := entry.idBytesLen.toInt.toNat

@[simp] theorem toBytes_length : entry.toBytes.length = 16 := by
  simp [toBytes]

@[simp] theorem ofBytes_toBytes : ofBytes entry.toBytes = entry := by
  have hoffset : entry.toBytes.take 8 = i64Bytes entry.offset := by simp [toBytes]
  have hcount : (entry.toBytes.drop 8).take 4 = i32Bytes entry.count := by
    rw [toBytes, append_assoc, drop_left' (i64Bytes_length _),
      take_left' (i32Bytes_length _)]
  have hlen : (entry.toBytes.drop 12).take 4 = i32Bytes entry.idBytesLen := by
    rw [toBytes, drop_left' (by simp), take_of_length_le (by simp)]
  simp only [ofBytes, hoffset, hcount, hlen, i64OfBytes_i64Bytes, i32OfBytes_i32Bytes]

end ListEntry

/-- The checks of an entry, those before and those after its rows are counted. -/
structure EntryChecks where
  before : (listId : Nat) → ListEntry → IoResult Unit
  after : (listId : Nat) → ListEntry → IoResult Unit
  overflow : IoError

def readOffsetTable (checks : EntryChecks) : (listId : Nat) → (total : Int) →
    List (List UInt8) → IoResult (List ListEntry × Int)
  | _, total, [] => .ok ([], total)
  | listId, total, bytes :: rest => do
    let entry := ListEntry.ofBytes bytes
    checks.before listId entry
    let sum := total + entry.count.toInt
    rejectIf (2 ^ 63 - 1 < sum) checks.overflow
    checks.after listId entry
    let (entries, total) ← readOffsetTable checks (listId + 1) sum rest
    return (entry :: entries, total)

def checkVectorCount (format : String) (headerTotal actualTotal : Int) : IoResult Unit :=
  rejectIf (actualTotal ≠ headerTotal) (invalidData
    s!"{format} header vector count {headerTotal} does not match list total {actualTotal}")

def checkListId (nlist listId : Nat) : IoResult Unit :=
  rejectIf (nlist ≤ listId) (invalidInput s!"list_id {listId} out of range (nlist={nlist})")

structure ListRead where
  listId : Nat
  count : Nat
  offset : Nat
  idBytesLen : Nat
  payloadLen : Nat

def collectLists {α : Type} (empty : Nat → α) (missing : IoError) :
    List (Nat × Option ListRead) → List α → IoResult (List α)
  | [], _ => .ok []
  | (listId, none) :: plans, lists => do
    return empty listId :: (← collectLists empty missing plans lists)
  | (_, some _) :: _, [] => .error missing
  | (_, some _) :: plans, list :: lists => do
    return list :: (← collectLists empty missing plans lists)

def readPlannedLists {α : Type} (reader : SeekRead) (plan : Nat → IoResult (Option ListRead))
    (decode : ListRead → List UInt8 → IoResult α) (empty : Nat → α) (missing : IoError)
    (listIds : List Nat) : IoResult (List α) := do
  let plans ← listIds.mapM plan
  let reads := plans.reduceOption
  let payloads ← preadBatchedSlices reader (reads.map fun read => (read.offset, read.payloadLen))
  let lists ← (reads.zip payloads).mapM fun item => decode item.1 item.2
  collectLists empty missing (listIds.zip plans) lists

def readPlannedList {α : Type} (reader : SeekRead) (plan : Nat → IoResult (Option ListRead))
    (decode : ListRead → List UInt8 → IoResult α) (empty : Nat → α) (listId : Nat) :
    IoResult α := do
  match ← plan listId with
  | none => return empty listId
  | some read => decode read (← reader.pread read.offset read.payloadLen)

section Batched

variable {α : Type} {reader : SeekRead} {plan : Nat → IoResult (Option ListRead)}
  {decode : ListRead → List UInt8 → IoResult α} {empty : Nat → α} {missing : IoError}

/-- A read list that was planned as `read`. -/
def Decoded (reader : SeekRead) (decode : ListRead → List UInt8 → IoResult α) (read : ListRead)
    (list : α) : Prop :=
  ∃ bytes, reader.pread read.offset read.payloadLen = .ok bytes ∧ decode read bytes = .ok list

theorem readPlannedList_eq_ok {listId : Nat} {list : α} :
    readPlannedList reader plan decode empty listId = .ok list ↔
      (plan listId = .ok none ∧ empty listId = list) ∨
        ∃ read, plan listId = .ok (some read) ∧ Decoded reader decode read list := by
  unfold readPlannedList Decoded
  cases hplan : plan listId with
  | error e => simp
  | ok planned => cases planned <;> simp [bind_eq_ok]

variable {listIds : List Nat}

theorem collectLists_eq_ok {plans : List (Option ListRead)} {lists out : List α}
    (hplans : List.Forall₂ (fun id p => plan id = .ok p) listIds plans)
    (hlists : List.Forall₂ (Decoded reader decode) plans.reduceOption lists) :
    collectLists empty missing (listIds.zip plans) lists = .ok out ↔
      List.Forall₂ (fun id x => readPlannedList reader plan decode empty id = .ok x)
        listIds out := by
  induction hplans generalizing lists out with
  | nil => simp [collectLists, eq_comm]
  | @cons listId planned listIds plans hplan hplans ih =>
    cases planned with
    | none =>
      rw [reduceOption_cons_of_none] at hlists
      simp only [zip_cons_cons, collectLists, accepted, forall₂_cons_left_iff, ih hlists,
        readPlannedList_eq_ok, hplan]
      constructor
      · rintro ⟨rest, hrest, rfl⟩
        exact ⟨_, rest, Or.inl ⟨trivial, rfl⟩, hrest, rfl⟩
      · rintro ⟨x, rest, hx, hrest, rfl⟩
        rcases hx with ⟨-, rfl⟩ | ⟨_, hread, -⟩
        · exact ⟨rest, hrest, rfl⟩
        · cases hread
    | some read =>
      rw [reduceOption_cons_of_some] at hlists
      obtain ⟨list, rest, hlist, hrest, rfl⟩ := forall₂_cons_left_iff.mp hlists
      simp only [zip_cons_cons, collectLists, accepted, forall₂_cons_left_iff, ih hrest,
        readPlannedList_eq_ok, hplan]
      constructor
      · rintro ⟨more, hmore, rfl⟩
        exact ⟨list, more, Or.inr ⟨read, rfl, hlist⟩, hmore, rfl⟩
      · rintro ⟨x, more, hx, hmore, rfl⟩
        rcases hx with ⟨hnone, -⟩ | ⟨_, hread, hdecoded⟩
        · cases hnone
        · cases hread
          obtain ⟨bytes, hbytes, hx⟩ := hdecoded
          obtain ⟨bytes', hbytes', hlist⟩ := hlist
          rw [hbytes] at hbytes'
          cases hbytes'
          rw [hx] at hlist
          cases hlist
          exact ⟨more, hmore, rfl⟩

theorem decoded_of_zip {reads : List ListRead} {payloads : List (List UInt8)} {lists : List α}
    (hread : List.Forall₂ (fun r bytes => reader.pread r.1 r.2 = .ok bytes)
      (reads.map fun read => (read.offset, read.payloadLen)) payloads)
    (hdecode : List.Forall₂ (fun (item : ListRead × List UInt8) x => decode item.1 item.2 = .ok x)
      (reads.zip payloads) lists) : List.Forall₂ (Decoded reader decode) reads lists := by
  induction reads generalizing payloads lists with
  | nil =>
    cases hread
    cases hdecode
    exact List.Forall₂.nil
  | cons read reads ih =>
    rw [map_cons] at hread
    obtain ⟨bytes, rest, hbytes, hrest, rfl⟩ := forall₂_cons_left_iff.mp hread
    rw [zip_cons_cons] at hdecode
    obtain ⟨list, more, hlist, hmore, rfl⟩ := forall₂_cons_left_iff.mp hdecode
    exact List.Forall₂.cons ⟨bytes, hbytes, hlist⟩ (ih hrest hmore)

theorem readPlannedLists_congr {decode' : ListRead → List UInt8 → IoResult α}
    (h : ∀ listId read bytes, plan listId = .ok (some read) →
      reader.pread read.offset read.payloadLen = .ok bytes →
      decode' read bytes = decode read bytes) :
    readPlannedLists reader plan decode' empty missing listIds =
      readPlannedLists reader plan decode empty missing listIds := by
  refine bind_congr_ok fun plans hplans => bind_congr_ok fun payloads hpayloads => ?_
  have hitems : ∀ item ∈ plans.reduceOption.zip payloads,
      decode' item.1 item.2 = decode item.1 item.2 := by
    intro item hitem
    obtain ⟨i, hi, rfl⟩ := mem_iff_getElem.mp hitem
    rw [getElem_zip]
    rw [length_zip] at hi
    have hread := getElem_mem (show i < plans.reduceOption.length by omega)
    rw [reduceOption_mem_iff] at hread
    obtain ⟨j, hj, hget⟩ := mem_iff_getElem.mp hread
    have hplanned := forall₂_iff_get.mp (mapM_eq_ok.mp hplans)
    have hplan := hplanned.2 j (by rw [hplanned.1]; exact hj) hj
    rw [get_eq_getElem, get_eq_getElem, hget] at hplan
    have hbytes := (forall₂_iff_get.mp (preadBatchedSlices_ok hpayloads)).2 i
      (by rw [length_map]; omega) (by omega)
    simp only [get_eq_getElem, getElem_map] at hbytes
    exact h _ _ _ hplan hbytes
  rw [mapM_congr hitems]

theorem readPlannedLists_ok {out : List α}
    (h : readPlannedLists reader plan decode empty missing listIds = .ok out) :
    List.Forall₂ (fun id x => readPlannedList reader plan decode empty id = .ok x) listIds out := by
  simp only [readPlannedLists, bind_eq_ok] at h
  obtain ⟨plans, hplans, payloads, hpayloads, lists, hlists, h⟩ := h
  exact (collectLists_eq_ok (mapM_eq_ok.mp hplans)
    (decoded_of_zip (preadBatchedSlices_ok hpayloads) (mapM_eq_ok.mp hlists))).mp h

end Batched

/-- Hands the rows of a list to `consume` chunk by chunk, with the size of each
chunk resolved from the rows that remain. -/
def streamRows {σ : Type} (chunkRows : (remaining : Nat) → IoResult Nat)
    (consume : (rowStart rows : Nat) → σ → IoResult σ) (count rowStart : Nat) (state : σ) :
    IoResult σ :=
  if rowStart < count then do
    let rows ← chunkRows (count - rowStart)
    let state ← consume rowStart rows state
    if rows = 0 then .error (panicked "a streamed chunk without rows")
    else streamRows chunkRows consume count (rowStart + rows) state
  else .ok state
termination_by count - rowStart

theorem streamRows_simulates {σ τ : Type} {R : σ → τ → Prop}
    {chunkRows : Nat → IoResult Nat} {consume : Nat → Nat → σ → IoResult σ}
    {consume' : Nat → Nat → τ → IoResult τ}
    (hstep : ∀ rowStart rows s t s', R s t → consume rowStart rows s = .ok s' →
      ∃ t', consume' rowStart rows t = .ok t' ∧ R s' t')
    {count rowStart : Nat} {s s' : σ} {t : τ} (hR : R s t)
    (h : streamRows chunkRows consume count rowStart s = .ok s') :
    ∃ t', streamRows chunkRows consume' count rowStart t = .ok t' ∧ R s' t' := by
  fun_induction streamRows chunkRows consume count rowStart s generalizing t with
  | case1 rowStart s hlt ih =>
    simp only [bind_eq_ok] at h
    obtain ⟨rows, hrows, next, hnext, h⟩ := h
    obtain ⟨t', ht', hR'⟩ := hstep _ _ _ _ _ hR hnext
    rw [streamRows, if_pos hlt, hrows, ok_bind, ht', ok_bind]
    by_cases hzero : rows = 0
    · rw [if_pos hzero] at h
      cases h
    · rw [if_neg hzero] at h ⊢
      exact ih rows next hzero hR' h
  | case2 rowStart s hlt =>
    cases h
    exact ⟨t, by rw [streamRows, if_neg hlt], hR⟩

/-- The scan of a search: a list that is too large for a batch is streamed, and
the others are read in batches of bounded size. -/
def scanListBatches {L H : Type} (oversized : L → IoResult Bool)
    (batchEnd : List L → IoResult Nat) (stream : L → H → IoResult H)
    (batch : List L → H → IoResult H) : List L → H → IoResult H
  | [], heap => .ok heap
  | first :: rest, heap => do
    if ← oversized first then
      let heap ← stream first heap
      scanListBatches oversized batchEnd stream batch rest heap
    else
      let count := max (← batchEnd (first :: rest)) 1
      let heap ← batch ((first :: rest).take count) heap
      scanListBatches oversized batchEnd stream batch (rest.drop (count - 1)) heap
termination_by lists => lists.length
decreasing_by
  · simp
  · rw [length_drop, length_cons]
    omega

theorem scanListBatches_steps {L H R : Type} {oversized : L → IoResult Bool}
    {batchEnd : List L → IoResult Nat} {stream : L → H → IoResult H}
    {batch : List L → H → IoResult H} (step : H → List R → H → Prop)
    (rows : L → IoResult (List R)) (hnil : ∀ heap, step heap [] heap)
    (happend : ∀ {a b c xs ys}, step a xs b → step b ys c → step a (xs ++ ys) c)
    (hstream : ∀ list heap heap', oversized list = .ok true → stream list heap = .ok heap' →
      ∃ found, rows list = .ok found ∧ step heap found heap')
    (hbatch : ∀ first rest taken heap heap', oversized first = .ok false →
      batchEnd (first :: rest) = .ok taken →
      batch ((first :: rest).take (max taken 1)) heap = .ok heap' →
      ∃ found, ((first :: rest).take (max taken 1)).mapM rows = .ok found ∧
        step heap found.flatten heap')
    {lists : List L} {heap heap' : H}
    (h : scanListBatches oversized batchEnd stream batch lists heap = .ok heap') :
    ∃ found, lists.mapM rows = .ok found ∧ step heap found.flatten heap' := by
  fun_induction scanListBatches oversized batchEnd stream batch lists heap with
  | case1 heap =>
    cases h
    exact ⟨[], rfl, hnil _⟩
  | case2 first rest heap ihStream ihBatch =>
    simp only [bind_eq_ok] at h
    obtain ⟨large, hlarge, h⟩ := h
    cases large with
    | true =>
      simp only [if_true, bind_eq_ok] at h
      obtain ⟨next, hnext, h⟩ := h
      obtain ⟨found, hfound, hstep⟩ := hstream _ _ _ hlarge hnext
      obtain ⟨more, hmore, hsteps⟩ := ihStream next h
      refine ⟨found :: more, ?_, happend hstep hsteps⟩
      rw [mapM_cons, hfound, ok_bind, hmore, ok_bind]
      rfl
    | false =>
      simp only [Bool.false_eq_true, if_false, bind_eq_ok] at h
      obtain ⟨taken, htaken, next, hnext, h⟩ := h
      obtain ⟨found, hfound, hstep⟩ := hbatch _ _ _ _ _ hlarge htaken hnext
      obtain ⟨more, hmore, hsteps⟩ := ihBatch _ _ h
      refine ⟨found ++ more, ?_, by rw [flatten_append]; exact happend hstep hsteps⟩
      have hrest : rest.drop (max taken 1 - 1) = (first :: rest).drop (max taken 1) := by
        rw [← drop_succ_cons, Nat.sub_add_cancel (by omega)]
      rw [← take_append_drop (max taken 1) (first :: rest), mapM_append, hfound, ok_bind,
        ← hrest, hmore, ok_bind]
      rfl

/-- The positions of the rows in ascending order of their ids, equal ids as
they were added. -/
def sortedOrder (ids : List Int64) : List Nat :=
  (List.range ids.length).mergeSort fun a b => ids.getD a 0 ≤ ids.getD b 0

structure SortedList where
  baseId : Int64
  order : List Nat
  idBytes : List UInt8

def sortedList (ids : List Int64) : SortedList :=
  if ids = [] then ⟨0, [], []⟩
  else
    let order := sortedOrder ids
    let sortedIds := order.map fun row => ids.getD row 0
    ⟨sortedIds.getD 0 0, order, (encodeDeltaVarintIds sortedIds).2⟩

def totalVectorCount (ids : List (List Int64)) : IoResult Int64 :=
  ids.foldlM (fun sum list => do
    let count ← usizeToI64 list.length "total vector count"
    rejectIf (2 ^ 63 - 1 < sum.toInt + count.toInt)
      (invalidInput "total vector count exceeds i64 length limit")
    return sum + count) 0

/-- The entries of the lists whose payloads are written from `current` on. -/
def planEntries (payloadLen : SortedList → IoResult Nat) (overflow : IoError) :
    (current : Nat) → List SortedList → IoResult (List ListEntry)
  | _, [] => .ok []
  | current, list :: lists => do
    let offset ← u64ToI64 current "list offset"
    let count ← usizeToI32 list.order.length "list count"
    if list.order = [] then
      return ⟨offset, count, 0⟩ :: (← planEntries payloadLen overflow current lists)
    else do
      let idBytesLen ← usizeToI32 list.idBytes.length "delta ID section"
      let len ← payloadLen list
      let next ← okOr (checkedAdd current len) overflow
      return ⟨offset, count, idBytesLen⟩ :: (← planEntries payloadLen overflow next lists)

/-- The ids of a list in its payload: the base, the length of the varints, the
varints. -/
def SortedList.idSection (list : SortedList) : List UInt8 :=
  i64Bytes list.baseId ++ i32Bytes (Int32.ofNat list.idBytes.length) ++ list.idBytes

end PaimonVindex
