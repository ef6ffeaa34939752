import PaimonVindex.Ivf.Lists

/-! What the writers of the inverted-file formats store, read back: the order of
the rows, the offset table and the payloads behind it. -/

namespace PaimonVindex

open Checked Words ListEntry List

section Order

variable (ids : List Int64)

/-- The positions of the rows by ascending id; rows with one id keep their order. -/
def StablySorted (order : List Nat) : Prop :=
  order.Perm (List.range ids.length) ∧ order.Pairwise fun a b =>
    ids.getD a 0 < ids.getD b 0 ∨ (ids.getD a 0 = ids.getD b 0 ∧ a < b)

theorem sortedOrder_perm : (sortedOrder ids).Perm (List.range ids.length) :=
  mergeSort_perm _ _

@[simp] theorem sortedOrder_length : (sortedOrder ids).length = ids.length := by
  rw [(sortedOrder_perm ids).length_eq, length_range]

@[simp] theorem sortedOrder_nil : sortedOrder [] = [] :=
  length_eq_zero_iff.mp (sortedOrder_length [])

theorem sortedOrder_stablySorted : StablySorted ids (sortedOrder ids) := by
  refine ⟨sortedOrder_perm ids, ?_⟩
  let le (a b : Nat) : Bool := ids.getD a 0 ≤ ids.getD b 0
  have htrans : ∀ a b c, le a b = true → le b c = true → le a c = true := by
    intro a b c hab hbc
    simp only [le, decide_eq_true_eq] at hab hbc ⊢
    exact Int64.le_trans hab hbc
  have htotal : ∀ a b, (le a b || le b a) = true := by
    intro a b
    simp only [le, Bool.or_eq_true, decide_eq_true_eq]
    exact Int64.le_total _ _
  have hsorted := pairwise_mergeSort (zipIdxLE_trans htrans) (zipIdxLE_total htotal)
    (List.range ids.length).zipIdx
  have hnodup : ((List.range ids.length).zipIdx.mergeSort (List.zipIdxLE le)).Pairwise
      fun x y => x.1 ≠ y.1 := by
    have hperm := (sortedOrder_perm ids).nodup_iff.mpr nodup_range
    rw [sortedOrder, ← mergeSort_zipIdx] at hperm
    exact pairwise_map.mp hperm
  rw [sortedOrder, ← mergeSort_zipIdx, pairwise_map]
  refine (hsorted.and hnodup).imp_of_mem fun {x y} hx hy hxy => ?_
  -- In the list of the positions every element is its own index.
  have hindex : ∀ z ∈ (List.range ids.length).zipIdx.mergeSort (List.zipIdxLE le), z.1 = z.2 := by
    intro z hz
    have hmem := (mergeSort_perm _ _).mem_iff.mp hz
    have hget := mem_zipIdx_iff_getElem?.mp hmem
    rw [List.getElem?_eq_some_iff] at hget
    obtain ⟨_, hget⟩ := hget
    rw [getElem_range] at hget
    exact hget.symm
  obtain ⟨hle, hne⟩ := hxy
  rw [List.zipIdxLE] at hle
  by_cases hforward : le x.1 y.1 = true
  · rw [if_pos hforward] at hle
    have hxy : ids.getD x.1 0 ≤ ids.getD y.1 0 := by simpa [le] using hforward
    by_cases hback : le y.1 x.1 = true
    · rw [if_pos hback, decide_eq_true_eq] at hle
      have hyx : ids.getD y.1 0 ≤ ids.getD x.1 0 := by simpa [le] using hback
      have hx' := hindex x hx
      have hy' := hindex y hy
      exact .inr ⟨Int64.le_antisymm hxy hyx, by omega⟩
    · have hyx : ¬ids.getD y.1 0 ≤ ids.getD x.1 0 := by simpa [le] using hback
      exact .inl (Int64.not_le.mp hyx)
  · rw [if_neg hforward] at hle
    cases hle

theorem sortedOrder_getD_lt {ids : List Int64} {row : Nat} (hrow : row < ids.length) :
    (sortedOrder ids).getD row 0 < ids.length := by
  have hlt : row < (sortedOrder ids).length := by rwa [sortedOrder_length]
  rw [getD_eq_getElem _ _ hlt]
  exact mem_range.mp ((sortedOrder_perm ids).mem_iff.mp (getElem_mem hlt))

theorem getD_sortedRow {ids : List Int64} {codes : List UInt8} {width row column : Nat}
    (hcodes : codes.length = ids.length * width) (hrow : row < ids.length)
    (hcolumn : column < width) :
    some (codes.getD ((sortedOrder ids).getD row 0 * width + column) 0) =
      codes[(sortedOrder ids).getD row 0 * width + column]? := by
  have hmem := sortedOrder_getD_lt hrow
  have hinside : (sortedOrder ids).getD row 0 * width + column < codes.length := by
    rw [hcodes]
    calc _ < (sortedOrder ids).getD row 0 * width + width := by omega
      _ = ((sortedOrder ids).getD row 0 + 1) * width := by ring
      _ ≤ ids.length * width := Nat.mul_le_mul_right _ hmem
  rw [List.getElem?_eq_getElem hinside, getD_eq_getElem _ _ hinside]

def sortedIds : List Int64 := (sortedOrder ids).map fun row => ids.getD row 0

@[simp] theorem sortedIds_length : (sortedIds ids).length = ids.length := by
  rw [sortedIds, length_map, sortedOrder_length]

theorem sortedIds_pairwise : (sortedIds ids).Pairwise (· ≤ ·) := by
  rw [sortedIds, pairwise_map]
  refine (sortedOrder_stablySorted ids).2.imp fun {a b} hab => ?_
  rcases hab with hlt | ⟨heq, -⟩
  · exact Int64.le_of_lt hlt
  · rw [heq]
    exact Int64.le_refl _

theorem sortedList_order : (sortedList ids).order = sortedOrder ids := by
  by_cases hnil : ids = []
  · subst hnil
    rw [sortedOrder_nil]
    rfl
  · rw [sortedList, if_neg hnil]

theorem sortedList_order_eq_nil {ids : List Int64} : (sortedList ids).order = [] ↔ ids = [] := by
  rw [sortedList_order, ← length_eq_zero_iff, sortedOrder_length, length_eq_zero_iff]

theorem sortedList_order_ne_nil {ids : List Int64} (h : ids ≠ []) : (sortedList ids).order ≠ [] :=
  mt sortedList_order_eq_nil.mp h

theorem sortedList_decode :
    decodeDeltaVarintIds (sortedList ids).baseId (sortedList ids).idBytes ids.length =
      .ok (sortedIds ids) := by
  have hdecode := decodeDeltaVarintIds_encode (sortedIds_pairwise ids)
  rw [sortedIds_length] at hdecode
  by_cases hnil : ids = []
  · subst hnil
    rw [sortedIds, sortedOrder_nil] at hdecode ⊢
    exact hdecode
  · have hbase : (encodeDeltaVarintIds (sortedIds ids)).1 = (sortedIds ids).getD 0 0 := by
      cases sortedIds ids <;> rfl
    rw [hbase] at hdecode
    rw [sortedList, if_neg hnil]
    exact hdecode

theorem sortedList_idBytes_length_le : (sortedList ids).idBytes.length ≤ 10 * ids.length := by
  by_cases hnil : ids = []
  · rw [sortedList, if_pos hnil]
    exact Nat.zero_le _
  · rw [sortedList, if_neg hnil]
    show (encodeDeltaVarintIds (sortedIds ids)).2.length ≤ _
    rw [← sortedIds_length ids]
    cases sortedIds ids with
    | nil => exact Nat.zero_le _
    | cons base rest => exact encodeIdDeltas_length_le base (base :: rest)

theorem sortedList_idBytes_ne_nil {ids : List Int64} (h : ids ≠ []) :
    (sortedList ids).idBytes ≠ [] := by
  rw [sortedList, if_neg h]
  show (encodeDeltaVarintIds (sortedIds ids)).2 ≠ []
  cases hsorted : sortedIds ids with
  | nil =>
    have hlen := sortedIds_length ids
    rw [hsorted] at hlen
    exact absurd (length_eq_zero_iff.mp hlen.symm) h
  | cons base rest => exact encodeIdDeltas_ne_nil _ _ _

theorem sortedList_tied : sortedList [5, -3, 5] = ⟨-3, [1, 0, 2], [0, 8, 0]⟩ := by
  have horder : sortedOrder [5, -3, 5] = [1, 0, 2] := by
    rw [sortedOrder, show List.range ([5, -3, 5] : List Int64).length = [0, 1, 2] from rfl]
    simp [List.mergeSort, List.MergeSort.Internal.splitInTwo]
  rw [sortedList, horder]
  rfl

end Order

section Words

variable {value : Nat} {field : String}

theorem usizeToI32_eq_ok {x : Int32} :
    usizeToI32 value field = .ok x ↔ value < 2 ^ 31 ∧ Int32.ofNat value = x :=
  tryFrom_eq_ok

theorem u64ToI64_eq_ok {x : Int64} :
    u64ToI64 value field = .ok x ↔ value < 2 ^ 63 ∧ Int64.ofNat value = x :=
  tryFrom_eq_ok

theorem usizeToI64_eq_ok {x : Int64} :
    usizeToI64 value field = .ok x ↔ value < 2 ^ 63 ∧ Int64.ofNat value = x :=
  tryFrom_eq_ok

theorem int32_ofNat_pos (hpos : 0 < value) (hlt : value < 2 ^ 31) :
    ¬Int32.ofNat value ≤ 0 ∧ (Int32.ofNat value).toInt.toNat = value := by
  have hint : (Int32.ofNat value).toInt = value := Int32.toInt_ofNat_of_lt hlt
  rw [Int32.le_iff_toInt_le, hint]
  show ¬(value : Int) ≤ 0 ∧ _
  omega

theorem validatePositiveI32_ofNat (hpos : 0 < value) (hlt : value < 2 ^ 31) (field : String) :
    validatePositiveI32 (Int32.ofNat value) field = .ok value := by
  obtain ⟨hnot, hnat⟩ := int32_ofNat_pos hpos hlt
  rw [validatePositiveI32, rejectIf_bind hnot, pure_eq_ok, hnat]

theorem f32SliceBytes_length (data : List F32) : (f32SliceBytes data).length = data.length * 4 :=
  flatMap_length_of_width fun x _ => F32.toBytes_length x

theorem bytesToF32Vec_slice (data : List F32) : bytesToF32Vec (f32SliceBytes data) = .ok data := by
  have haligned : ¬(f32SliceBytes data).length % 4 ≠ 0 := by
    rw [f32SliceBytes_length]
    omega
  have hchunks : chunksExact 4 (f32SliceBytes data) = data.map F32.toBytes :=
    chunksExact_flatMap (by decide) fun x _ => F32.toBytes_length x
  rw [bytesToF32Vec, rejectIf_bind haligned, pure_eq_ok, hchunks, map_map]
  congr 1
  exact (map_congr_left fun x _ => F32.ofBytes_toBytes x).trans (map_id _)

theorem totalVectorCount_eq_ok {ids : List (List Int64)} {total : Int64}
    (h : totalVectorCount ids = .ok total) :
    total.toInt = (ids.map List.length).sum ∧ (ids.map List.length).sum < 2 ^ 63 := by
  have hfold : ∀ (ids : List (List Int64)) (start total : Int64) (n : Nat), start.toInt = n →
      n < 2 ^ 63 → ids.foldlM (fun sum list => do
        let count ← usizeToI64 list.length "total vector count"
        rejectIf (2 ^ 63 - 1 < sum.toInt + count.toInt)
          (invalidInput "total vector count exceeds i64 length limit")
        return sum + count) start = .ok total →
      total.toInt = n + (ids.map List.length).sum ∧ n + (ids.map List.length).sum < 2 ^ 63 := by
    intro ids
    induction ids with
    | nil =>
      intro start total n hstart hn hok
      cases hok
      exact ⟨by simp [hstart], by simpa using hn⟩
    | cons list ids ih =>
      intro start total n hstart hn hok
      simp only [foldlM_cons, accepted, usizeToI64_eq_ok] at hok
      obtain ⟨sum, ⟨count, ⟨hlen, rfl⟩, hsum, rfl⟩, hok⟩ := hok
      have hcount : (Int64.ofNat list.length).toInt = list.length := Int64.toInt_ofNat_of_lt hlen
      rw [hstart, hcount] at hsum
      have hnext : (start + Int64.ofNat list.length).toInt = ((n + list.length : Nat) : Int) := by
        rw [Int64.toInt_add, hstart, hcount]
        have hsmall : ((n : Int) + list.length).bmod (2 ^ 64) = n + list.length := by
          rw [Int.bmod_eq_of_le (by omega) (by omega)]
        rw [hsmall]
        push_cast
        rfl
      obtain ⟨htotal, hbound⟩ := ih _ _ (n + list.length) hnext (by omega) hok
      rw [map_cons, sum_cons]
      exact ⟨by rw [htotal]; push_cast; ring, by omega⟩
  have hzero : (0 : Int64).toInt = ((0 : Nat) : Int) := by decide
  obtain ⟨htotal, hbound⟩ := hfold ids 0 total 0 hzero (by decide) h
  exact ⟨by simpa using htotal, by simpa using hbound⟩

end Words

section Table

/-- An entry of the table of `file` that says where `payload` is, not before
`start`, and what it holds. -/
structure StoredAt (start : Nat) (file : List UInt8) (list : SortedList) (payload : List UInt8)
    (entry : ListEntry) : Prop where
  start_le : (start : Int) ≤ entry.offset.toInt
  count : entry.count.toInt = list.order.length
  idBytesLen_nonneg : 0 ≤ entry.idBytesLen.toInt
  idBytesLen : list.order ≠ [] → entry.idBytesLen.toInt = list.idBytes.length
  fits : entry.offset.toInt.toNat + payload.length ≤ file.length
  bytes : (file.drop entry.offset.toInt.toNat).take payload.length = payload
  small : list.order ≠ [] → entry.offset.toInt.toNat + payload.length < wordSize

def PayloadOf (payloadLen : SortedList → IoResult Nat) (list : SortedList) (payload : List UInt8) :
    Prop :=
  (list.order = [] → payload = []) ∧
    ∀ len, list.order ≠ [] → payloadLen list = .ok len → payload.length = len

variable {payloadLen : SortedList → IoResult Nat} {overflow : IoError} {lists : List SortedList}

theorem payloads_of_zip {β : Type} {payload : SortedList → β → List UInt8} {rows : List β}
    (hlen : lists.length = rows.length)
    (hpayload : ∀ item ∈ lists.zip rows, PayloadOf payloadLen item.1 (payload item.1 item.2)) :
    List.Forall₂ (PayloadOf payloadLen) lists
      ((lists.zip rows).map fun item => payload item.1 item.2) := by
  induction lists generalizing rows with
  | nil => exact List.Forall₂.nil
  | cons list lists ih =>
    cases rows with
    | nil => cases hlen
    | cons row rows =>
      refine List.Forall₂.cons (hpayload (list, row) (by simp)) (ih (Nat.succ.inj hlen) ?_)
      intro item hitem
      exact hpayload item (by simp [hitem])

theorem planEntries_length {current : Nat} {entries : List ListEntry}
    (h : planEntries payloadLen overflow current lists = .ok entries) :
    entries.length = lists.length := by
  induction lists generalizing current entries with
  | nil =>
    cases h
    rfl
  | cons list lists ih =>
    simp only [planEntries, bind_eq_ok] at h
    obtain ⟨_, -, _, -, h⟩ := h
    by_cases hnil : list.order = []
    · rw [if_pos hnil] at h
      obtain ⟨rest, hrest, h⟩ := bind_eq_ok.mp h
      cases h
      rw [length_cons, length_cons, ih hrest]
    · rw [if_neg hnil] at h
      simp only [bind_eq_ok] at h
      obtain ⟨_, -, _, -, _, -, rest, hrest, h⟩ := h
      cases h
      rw [length_cons, length_cons, ih hrest]

theorem planEntries_stored {payloads : List (List UInt8)}
    (hpayloads : List.Forall₂ (PayloadOf payloadLen) lists payloads) {start : Nat}
    {before : List UInt8} (hstart : start ≤ before.length) {entries : List ListEntry}
    (h : planEntries payloadLen overflow before.length lists = .ok entries) :
    List.Forall₂ (fun item entry => StoredAt start (before ++ payloads.flatten) item.1 item.2 entry)
      (lists.zip payloads) entries := by
  induction hpayloads generalizing before entries with
  | nil =>
    cases h
    exact List.Forall₂.nil
  | @cons list payload lists payloads hpayload hrest ih =>
    simp only [planEntries, bind_eq_ok, u64ToI64_eq_ok, usizeToI32_eq_ok] at h
    obtain ⟨offset, ⟨hoffset, rfl⟩, count, ⟨hcount, rfl⟩, h⟩ := h
    have hint : (Int64.ofNat before.length).toInt = before.length :=
      Int64.toInt_ofNat_of_lt hoffset
    have hrows : (Int32.ofNat list.order.length).toInt = list.order.length :=
      Int32.toInt_ofNat_of_lt hcount
    have hfits : (Int64.ofNat before.length).toInt.toNat + payload.length ≤
        (before ++ (payload :: payloads).flatten).length := by
      rw [hint, Int.toNat_natCast, length_append, flatten_cons, length_append]
      omega
    have hbytes : ((before ++ (payload :: payloads).flatten).drop
        (Int64.ofNat before.length).toInt.toNat).take payload.length = payload := by
      rw [hint, Int.toNat_natCast, drop_left, flatten_cons, take_left]
    have hle : (start : Int) ≤ (Int64.ofNat before.length).toInt := by omega
    by_cases hnil : list.order = []
    · rw [if_pos hnil] at h
      simp only [accepted] at h
      obtain ⟨rest, hplan, rfl⟩ := h
      have hzero : 0 ≤ (0 : Int32).toInt := by decide
      refine List.Forall₂.cons ⟨hle, hrows, hzero, fun h => absurd hnil h, hfits, hbytes,
        fun h => absurd hnil h⟩ ?_
      have hempty := hpayload.1 hnil
      subst hempty
      exact ih hstart hplan
    · rw [if_neg hnil] at h
      simp only [accepted, usizeToI32_eq_ok] at h
      obtain ⟨idLen, ⟨hidLen, rfl⟩, len, hlen, next, ⟨hnext, hsmall⟩, rest, hplan, rfl⟩ := h
      have hids : (Int32.ofNat list.idBytes.length).toInt = list.idBytes.length :=
        Int32.toInt_ofNat_of_lt hidLen
      refine List.Forall₂.cons ⟨hle, hrows, ?_, fun _ => hids, hfits, hbytes, fun _ => ?_⟩ ?_
      · show 0 ≤ (Int32.ofNat list.idBytes.length).toInt
        omega
      · rw [hint, Int.toNat_natCast, hpayload.2 len hnil hlen]
        exact hsmall
      · have hsum : (before ++ payload).length = next := by
          rw [length_append, hpayload.2 len hnil hlen, hnext]
        have hfile : before ++ (payload :: payloads).flatten =
            (before ++ payload) ++ payloads.flatten := by
          rw [flatten_cons, append_assoc]
        rw [hfile]
        exact ih (by rw [length_append]; omega) (by rw [hsum]; exact hplan)

theorem planEntries_unfilled (payloadLen : SortedList → IoResult Nat) (overflow : IoError)
    {start : Nat} (hstart : start < 2 ^ 63) :
    planEntries payloadLen overflow start [⟨0, [], []⟩] = .ok [⟨Int64.ofNat start, 0, 0⟩] := by
  rw [planEntries, u64ToI64_eq_ok.mpr ⟨hstart, rfl⟩]
  rfl

theorem readOffsetTable_toBytes {checks : EntryChecks} {entries : List ListEntry} {total : Nat}
    (hchecks : ∀ entry ∈ entries, ∀ listId, checks.before listId entry = .ok () ∧
      checks.after listId entry = .ok ()) (hcounts : ∀ entry ∈ entries, 0 ≤ entry.count.toInt)
    (htotal : total + (entries.map rows).sum < 2 ^ 63) (listId : Nat) :
    readOffsetTable checks listId total (entries.map toBytes) =
      .ok (entries, (total + (entries.map rows).sum : Nat)) := by
  induction entries generalizing total listId with
  | nil => simp [readOffsetTable]
  | cons entry entries ih =>
    obtain ⟨hbefore, hafter⟩ := hchecks entry (by simp) listId
    have hrows : entry.count.toInt = entry.rows :=
      (Int.toNat_of_nonneg (hcounts entry (by simp))).symm
    rw [map_cons, sum_cons] at htotal
    have hnext := @ih (total + entry.rows) (fun e he => hchecks e (by simp [he]))
      (fun e he => hcounts e (by simp [he])) (by omega) (listId + 1)
    have hsum : (total : Int) + entry.count.toInt = ((total + entry.rows : Nat) : Int) := by
      rw [hrows]
      push_cast
      rfl
    have hsmall : ¬(2 ^ 63 - 1 : Int) < ((total + entry.rows : Nat) : Int) := by omega
    simp only [map_cons, readOffsetTable, ofBytes_toBytes, hbefore, ok_bind, hsum,
      rejectIf_of_not hsmall, hafter, hnext, pure_eq_ok, sum_cons, Nat.add_assoc]

variable {start : Nat} {file : List UInt8} {list : SortedList} {payload : List UInt8}
  {entry : ListEntry}

theorem StoredAt.rows_eq (h : StoredAt start file list payload entry) :
    entry.rows = list.order.length := by
  rw [rows, h.count, Int.toNat_natCast]

theorem StoredAt.rows_length {ids : List Int64}
    (h : StoredAt start file (sortedList ids) payload entry) : entry.rows = ids.length := by
  rw [h.rows_eq, sortedList_order, sortedOrder_length]

theorem int32_ofNat_valid {n : Nat} (h : n < 2 ^ 31) :
    ¬(Int32.ofNat n < 0 ∨ (Int32.ofNat n).toInt.toNat ≠ n) := by
  have hint : (Int32.ofNat n).toInt = n := Int32.toInt_ofNat_of_lt h
  rw [Int32.lt_iff_toInt_lt, hint]
  show ¬((n : Int) < 0 ∨ _)
  omega

theorem int64_not_neg {x : Int64} {n : Nat} (h : x.toInt = n) : ¬x < 0 := by
  rw [Int64.lt_iff_toInt_lt, h]
  show ¬(n : Int) < 0
  omega

section

variable (h : StoredAt start file list payload entry)

include h

theorem StoredAt.idBytes_eq (hne : list.order ≠ []) :
    entry.idBytes = list.idBytes.length := by
  rw [idBytes, h.idBytesLen hne, Int.toNat_natCast]

theorem StoredAt.checkedListOffset (listId : Nat) :
    checkedListOffset entry.offset listId = .ok entry.offset.toInt.toNat := by
  have hnonneg : ¬entry.offset < 0 := by
    rw [Int64.lt_iff_toInt_lt]
    exact not_lt.mpr (le_trans (Int.natCast_nonneg start) h.start_le)
  rw [PaimonVindex.checkedListOffset, rejectIf_bind hnonneg, pure_eq_ok]

theorem StoredAt.pread (maxRanges : Nat) :
    (SeekRead.ofBytes file maxRanges).pread entry.offset.toInt.toNat payload.length =
      .ok payload := by
  rw [SeekRead.ofBytes_pread h.fits, h.bytes]

theorem StoredAt.count_nonneg : ¬entry.count < 0 := by
  rw [Int32.lt_iff_toInt_lt, h.count]
  show ¬(list.order.length : Int) < 0
  omega

theorem StoredAt.idBytes_lt (hne : list.order ≠ []) :
    list.idBytes.length < 2 ^ 31 := by
  have hlen := h.idBytesLen hne
  have hlt := entry.idBytesLen.toInt_lt
  omega

end

theorem ListEntry.rows_pos (h : 0 < entry.count) : 0 < entry.rows := by
  rw [Int32.lt_iff_toInt_lt] at h
  have hint : (0 : Int32).toInt = 0 := by decide
  rw [rows]
  omega

theorem StoredAt.idBytesLen_ne_zero {ids : List Int64}
    (h : StoredAt start file (sortedList ids) payload entry) (hpos : 0 < entry.rows) :
    entry.idBytesLen ≠ 0 := by
  rw [h.rows_eq] at hpos
  have hne : (sortedList ids).order ≠ [] := ne_nil_of_length_pos hpos
  have hids : ids ≠ [] := fun hnil => hne (sortedList_order_eq_nil.mpr hnil)
  have hbytes := length_pos_iff.mpr (sortedList_idBytes_ne_nil hids)
  intro hzero
  have hlen := h.idBytesLen hne
  rw [hzero] at hlen
  have hint : (0 : Int32).toInt = 0 := by decide
  omega

theorem StoredAt.not_missing {ids : List Int64}
    (h : StoredAt start file (sortedList ids) payload entry) :
    ¬(0 < entry.count ∧ entry.idBytesLen = 0) :=
  fun hzero => h.idBytesLen_ne_zero (ListEntry.rows_pos hzero.1) hzero.2

theorem StoredAt.not_idBytesLen_neg (h : StoredAt start file list payload entry) :
    ¬entry.idBytesLen < 0 := by
  rw [Int32.lt_iff_toInt_lt]
  exact not_lt.mpr h.idBytesLen_nonneg

end Table

section Lists

structure WrittenLists (payloadLen : SortedList → IoResult Nat) (overflow : IoError)
    (front : List UInt8) (ids : List (List Int64)) (payloads : List (List UInt8))
    (entries : List ListEntry) (file : List UInt8) : Prop where
  plan : planEntries payloadLen overflow (front.length + ids.length * 16) (ids.map sortedList) =
    .ok entries
  payloads_of : List.Forall₂ (PayloadOf payloadLen) (ids.map sortedList) payloads
  file_eq : file = front ++ (entries.flatMap toBytes ++ payloads.flatten)

theorem tableBytes_length (entries : List ListEntry) :
    (entries.flatMap toBytes).length = entries.length * 16 :=
  flatMap_length_of_width fun entry _ => entry.toBytes_length

namespace WrittenLists

variable {payloadLen : SortedList → IoResult Nat} {overflow : IoError} {front : List UInt8}
  {ids : List (List Int64)} {payloads : List (List UInt8)} {entries : List ListEntry}
  {file : List UInt8}

section

variable (h : WrittenLists payloadLen overflow front ids payloads entries file)

include h

theorem entries_length :
    entries.length = ids.length := by
  rw [planEntries_length h.plan, length_map]

theorem stored :
    List.Forall₂ (fun item entry => StoredAt front.length file item.1 item.2 entry)
      ((ids.map sortedList).zip payloads) entries := by
  have hbefore : (front ++ entries.flatMap toBytes).length =
      front.length + ids.length * 16 := by
    rw [length_append, tableBytes_length, h.entries_length]
  have hfile : file = (front ++ entries.flatMap toBytes) ++ payloads.flatten := by
    rw [h.file_eq, append_assoc]
  rw [hfile]
  exact planEntries_stored h.payloads_of (by rw [length_append]; omega)
    (by rw [hbefore]; exact h.plan)

theorem entry {i : Nat} (hi : i < ids.length) : ∃ entry payload, entries[i]? = some entry ∧
    payloads[i]? = some payload ∧
      StoredAt front.length file (sortedList (ids.getD i [])) payload entry := by
  have hlen := h.payloads_of.length_eq
  rw [length_map] at hlen
  have hentries : i < entries.length := by rw [h.entries_length]; exact hi
  have hpayload : i < payloads.length := by omega
  have hitem : ((ids.map sortedList).zip payloads)[i]? =
      some (sortedList (ids.getD i []), payloads[i]) := by
    simp [hi, hpayload]
  obtain ⟨_, hall⟩ := forall₂_iff_get.mp h.stored
  obtain ⟨hlt, hget⟩ := List.getElem?_eq_some_iff.mp hitem
  have hstored := hall i hlt hentries
  rw [get_eq_getElem, hget, get_eq_getElem] at hstored
  exact ⟨entries[i], payloads[i], List.getElem?_eq_getElem hentries,
    List.getElem?_eq_getElem hpayload, hstored⟩

end

theorem entry_getD {β : Type} {payload : SortedList → List β → List UInt8} {rows : List (List β)}
    (h : WrittenLists payloadLen overflow front ids
      (((ids.map sortedList).zip rows).map fun item => payload item.1 item.2) entries file)
    (hrows : rows.length = ids.length) {i : Nat} (hi : i < ids.length) :
    StoredAt front.length file (sortedList (ids.getD i []))
      (payload (sortedList (ids.getD i [])) (rows.getD i [])) (entries.getD i default) := by
  have hlt : i < rows.length := by omega
  obtain ⟨entry, bytes, hentry, hbytes, hstored⟩ := h.entry hi
  have hget : (((ids.map sortedList).zip rows).map fun item => payload item.1 item.2)[i]? =
      some (payload (sortedList (ids.getD i [])) (rows.getD i [])) := by
    simp [hi, hlt]
  rw [hbytes, Option.some.injEq] at hget
  have hgetD : entries.getD i default = entry := by
    rw [getD_eq_getElem?_getD, hentry, Option.getD_some]
  rw [hgetD, ← hget]
  exact hstored

section

variable (h : WrittenLists payloadLen overflow front ids payloads entries file)

include h

theorem stored_of_mem {entry : ListEntry} (hentry : entry ∈ entries) :
    ∃ list payload, StoredAt front.length file (sortedList list) payload entry := by
  obtain ⟨i, hi, rfl⟩ := mem_iff_getElem.mp hentry
  obtain ⟨entry, payload, hget, -, hstored⟩ := h.entry (by rwa [h.entries_length] at hi)
  rw [List.getElem?_eq_getElem hi, Option.some.injEq] at hget
  exact ⟨_, payload, hget ▸ hstored⟩

theorem rows_sum :
    (entries.map rows).sum = (ids.map List.length).sum := by
  congr 1
  apply ext_getElem?
  intro i
  rw [List.getElem?_map, List.getElem?_map]
  by_cases hi : i < ids.length
  · obtain ⟨entry, payload, hentry, -, hstored⟩ := h.entry hi
    rw [hentry, List.getElem?_eq_getElem hi, Option.map_some, Option.map_some, hstored.rows_eq,
      sortedList_order, sortedOrder_length, getD_eq_getElem _ _ hi]
  · have hnone : entries[i]? = none := List.getElem?_eq_none (by rw [h.entries_length]; omega)
    have hnone' : ids[i]? = none := List.getElem?_eq_none (by omega)
    rw [hnone, hnone', Option.map_none, Option.map_none]

theorem readOffsetTable {checks : EntryChecks}
    (hchecks : ∀ list payload entry listId,
      StoredAt front.length file (sortedList list) payload entry →
      checks.before listId entry = .ok () ∧ checks.after listId entry = .ok ())
    (htotal : (ids.map List.length).sum < 2 ^ 63) :
    readOffsetTable checks 0 0 (chunksExact 16 (entries.flatMap toBytes)) =
      .ok (entries, ((ids.map List.length).sum : Nat)) := by
  have hchunks : chunksExact 16 (entries.flatMap toBytes) =
      entries.map toBytes :=
    chunksExact_flatMap (by decide) fun entry _ => entry.toBytes_length
  have hpass : ∀ entry ∈ entries, ∀ listId, checks.before listId entry = .ok () ∧
      checks.after listId entry = .ok () := by
    intro entry hentry listId
    obtain ⟨list, payload, hstored⟩ := h.stored_of_mem hentry
    exact hchecks list payload entry listId hstored
  have hcounts : ∀ entry ∈ entries, 0 ≤ entry.count.toInt := by
    intro entry hentry
    obtain ⟨list, payload, hstored⟩ := h.stored_of_mem hentry
    rw [hstored.count]
    exact Int.natCast_nonneg _
  have hread := @readOffsetTable_toBytes checks entries 0 hpass hcounts
    (by rw [Nat.zero_add, h.rows_sum]; exact htotal) 0
  rw [hchunks]
  rw [Nat.zero_add, h.rows_sum] at hread
  exact hread

end

section Front

variable {head tables : List UInt8}
  (h : WrittenLists payloadLen overflow (head ++ tables) ids payloads entries file)
  (maxRanges : Nat)

include h

theorem pread_head : (SeekRead.ofBytes file maxRanges).pread 0 head.length = .ok head := by
  have hread := SeekRead.ofBytes_pread_append [] head
    (tables ++ (entries.flatMap toBytes ++ payloads.flatten)) maxRanges
  rwa [nil_append, ← append_assoc, ← h.file_eq] at hread

theorem pread_tables {n : Nat} (hn : tables.length + ids.length * 16 = n) :
    (SeekRead.ofBytes file maxRanges).pread head.length n =
      .ok (tables ++ entries.flatMap toBytes) := by
  have hread := SeekRead.ofBytes_pread_append head (tables ++ entries.flatMap toBytes)
    payloads.flatten maxRanges
  rwa [append_assoc, ← append_assoc head, ← h.file_eq, length_append, tableBytes_length,
    h.entries_length, hn] at hread

end Front

end WrittenLists

end Lists

theorem idSection_fields (list : SortedList) (after : List UInt8) :
    i64OfBytes ((list.idSection ++ after).take 8) = list.baseId ∧
      i32OfBytes (((list.idSection ++ after).drop 8).take 4) = Int32.ofNat list.idBytes.length ∧
      ((list.idSection ++ after).drop 12).take list.idBytes.length = list.idBytes := by
  have hbytes : list.idSection ++ after = [i64Bytes list.baseId,
      i32Bytes (Int32.ofNat list.idBytes.length), list.idBytes, after].flatten := by
    simp [SortedList.idSection]
  obtain ⟨hbase, hlen, hids, -⟩ := fieldsAt_of_drop (show List.drop 0 _ = _ from hbytes)
  simp only [i64Bytes_length, i32Bytes_length, Nat.reduceAdd, drop_zero] at hbase hlen hids
  exact ⟨by rw [hbase, i64OfBytes_i64Bytes], by rw [hlen, i32OfBytes_i32Bytes], hids⟩

@[simp] theorem idSection_length (list : SortedList) :
    list.idSection.length = 12 + list.idBytes.length := by
  simp only [SortedList.idSection, length_append, i64Bytes_length, i32Bytes_length]

section Planned

variable {α : Type} {reader : SeekRead} {plan : Nat → IoResult (Option ListRead)}
  {decode : ListRead → List UInt8 → IoResult α} {empty : Nat → α} {missing : IoError} {listId : Nat}

theorem readPlannedLists_empty (hplan : plan listId = .ok none) :
    readPlannedLists reader plan decode empty missing [listId] = .ok [empty listId] := by
  have hplans : [listId].mapM plan = .ok [none] := by
    rw [mapM_cons, hplan, ok_bind]
    rfl
  rw [readPlannedLists, hplans, ok_bind, reduceOption_cons_of_none, reduceOption_nil]
  dsimp only
  rw [map_nil, preadBatchedSlices, preadBatchedSlicesWithLimit]
  rfl

theorem readPlannedLists_single {read : ListRead} {bytes : List UInt8} {list : α}
    (hplan : plan listId = .ok (some read)) (hlen : read.payloadLen < wordSize)
    (hbytes : reader.pread read.offset read.payloadLen = .ok bytes)
    (hdecode : decode read bytes = .ok list) :
    readPlannedLists reader plan decode empty missing [listId] = .ok [list] := by
  have hread : preadBatchedSlices reader [(read.offset, read.payloadLen)] = .ok [bytes] :=
    preadBatchedSlices_of_forall₂ (by simpa using hlen) (List.Forall₂.cons hbytes List.Forall₂.nil)
  have hplans : [listId].mapM plan = .ok [some read] := by
    rw [mapM_cons, hplan, ok_bind]
    rfl
  have hlists : ([read].zip [bytes]).mapM (fun item => decode item.1 item.2) = .ok [list] := by
    rw [zip_cons_cons, mapM_cons, hdecode, ok_bind]
    rfl
  rw [readPlannedLists, hplans, ok_bind]
  dsimp only
  rw [reduceOption_cons_of_some, reduceOption_nil, map_cons, map_nil, hread,
    ok_bind, hlists, ok_bind]
  rfl

/-- A stored list is read alone as `list` when its plan is what the table says and its payload
decodes to `list`. -/
theorem StoredAt.readPlannedLists_eq {start : Nat} {file : List UInt8} {ids : List Int64}
    {payload : List UInt8} {entry : ListEntry}
    (h : StoredAt start file (sortedList ids) payload entry) (maxRanges : Nat) {list : α}
    (hempty : ids = [] → plan listId = .ok none ∧ empty listId = list)
    (hplan : ids ≠ [] → plan listId = .ok (some ⟨listId, ids.length, entry.offset.toInt.toNat,
      (sortedList ids).idBytes.length, payload.length⟩))
    (hdecode : ids ≠ [] → (sortedList ids).idBytes.length < 2 ^ 31 → payload.length < wordSize →
      decode ⟨listId, ids.length, entry.offset.toInt.toNat, (sortedList ids).idBytes.length,
        payload.length⟩ payload = .ok list) :
    readPlannedLists (SeekRead.ofBytes file maxRanges) plan decode empty missing [listId] =
      .ok [list] := by
  by_cases hnil : ids = []
  · obtain ⟨hplan, rfl⟩ := hempty hnil
    exact readPlannedLists_empty hplan
  · have horder := sortedList_order_ne_nil hnil
    have hsmall : payload.length < wordSize := by
      have := h.small horder
      omega
    exact readPlannedLists_single (hplan hnil) hsmall (h.pread maxRanges)
      (hdecode hnil (h.idBytes_lt horder) hsmall)

end Planned

section Cells

variable {α β : Type}

theorem foldl_set_getElem? {cells : List α} {pos : α → Nat} {value : α → β} {start : List β} {x : α}
    (hx : x ∈ cells) (hlt : pos x < start.length)
    (hsame : ∀ y ∈ cells, pos y = pos x → value y = value x) :
    (cells.foldl (fun out y => out.set (pos y) (value y)) start)[pos x]? = some (value x) := by
  have hkeep : ∀ (cells : List α) (out : List β), (∀ y ∈ cells, pos y = pos x → value y = value x) →
      out[pos x]? = some (value x) →
      (cells.foldl (fun out y => out.set (pos y) (value y)) out)[pos x]? = some (value x) := by
    intro cells
    induction cells with
    | nil => exact fun out _ hout => hout
    | cons y cells ih =>
      intro out hsame hout
      rw [foldl_cons]
      refine ih _ (fun z hz => hsame z (by simp [hz])) ?_
      by_cases hpos : pos y = pos x
      · have hin : pos x < out.length := (List.getElem?_eq_some_iff.mp hout).1
        rw [hpos, List.getElem?_set_self hin, hsame y (by simp) hpos]
      · rw [List.getElem?_set_ne hpos, hout]
  induction cells generalizing start with
  | nil => cases hx
  | cons y cells ih =>
    rw [foldl_cons]
    by_cases hxy : x = y
    · subst hxy
      exact hkeep cells _ (fun z hz => hsame z (by simp [hz])) (List.getElem?_set_self hlt)
    · have hmem : x ∈ cells := (mem_cons.mp hx).resolve_left hxy
      exact ih hmem (by rwa [length_set]) fun z hz => hsame z (by simp [hz])

theorem foldl_set_length (cells : List α) (pos : α → Nat) (value : α → β) (start : List β) :
    (cells.foldl (fun out y => out.set (pos y) (value y)) start).length = start.length := by
  induction cells generalizing start with
  | nil => rfl
  | cons y cells ih => rw [foldl_cons, ih, length_set]

end Cells

end PaimonVindex
