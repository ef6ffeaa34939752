import PaimonVindex.Ivf.FlatRoundTrip
import PaimonVindex.Ivf.PqRoundTrip
import PaimonVindex.Ivf.SqRoundTrip

/-! Lists that are too large for a batch: what the streamed read delivers, and
when it can be done within the allocation bound. -/

namespace PaimonVindex

open Checked Words List

/-- The bytes that a chunk may take besides the decoded ids. -/
def StreamFits (count idBytesLen rowBytes rowAlignment : Nat) : Prop :=
  12 + idBytesLen + count * 8 ≤ maxIvfBatchReadBytes ∧
    count * 8 + ivfStreamAllocationSlack + min rowAlignment count * rowBytes ≤ maxIvfBatchReadBytes

section ChunkRows

variable {remaining rowBytes retained rowAlignment rows : Nat}

theorem boundedIvfStreamChunkRows_ok (hremaining : 0 < remaining) (halign : 0 < rowAlignment)
    (h : boundedIvfStreamChunkRows remaining rowBytes retained rowAlignment = .ok rows) :
    0 < rows ∧ rows ≤ remaining ∧
      retained + ivfStreamAllocationSlack + rows * rowBytes ≤ maxIvfBatchReadBytes ∧
      (rows < remaining → rowAlignment ∣ rows) ∧
      retained + ivfStreamAllocationSlack + min rowAlignment remaining * rowBytes ≤
        maxIvfBatchReadBytes := by
  simp only [boundedIvfStreamChunkRows, if_neg (Nat.pos_iff_ne_zero.mp hremaining), accepted,
    Option.bind_eq_some_iff, checkedSub_eq_some] at h
  obtain ⟨hshape, available, ⟨_, ⟨hretained, rfl⟩, hslack, havailable⟩, hzero, hrows⟩ := h
  have hquotient := Nat.div_mul_le_self available rowBytes
  have hbound : ∀ n, n ≤ available / rowBytes →
      retained + ivfStreamAllocationSlack + n * rowBytes ≤ maxIvfBatchReadBytes := by
    intro n hn
    have hmul := Nat.mul_le_mul_right rowBytes hn
    omega
  by_cases hwhole : min (available / rowBytes) remaining < remaining ∧ 1 < rowAlignment
  · rw [if_pos hwhole] at hrows hzero
    have hdvd := Nat.dvd_sub_mod (min (available / rowBytes) remaining) (n := rowAlignment)
    rw [hrows] at hzero hdvd
    have hle : rowAlignment ≤ rows := Nat.le_of_dvd (by omega) hdvd
    exact ⟨by omega, by omega, hbound _ (by omega), fun _ => hdvd, hbound _ (by omega)⟩
  · rw [if_neg hwhole] at hrows hzero
    refine ⟨by omega, by omega, hbound _ (by omega), fun hlt => ?_, hbound _ (by omega)⟩
    have hone : rowAlignment = 1 := by omega
    rw [hone]
    exact Nat.one_dvd rows

theorem boundedIvfStreamChunkRows_of_fits (hrow : 0 < rowBytes) (halign : 0 < rowAlignment)
    (hfits : retained + ivfStreamAllocationSlack + min rowAlignment remaining * rowBytes ≤
      maxIvfBatchReadBytes) :
    ∃ rows, boundedIvfStreamChunkRows remaining rowBytes retained rowAlignment = .ok rows := by
  by_cases hremaining : remaining = 0
  · exact ⟨0, by rw [boundedIvfStreamChunkRows, if_pos hremaining]⟩
  · have hquotient : min rowAlignment remaining ≤
        (maxIvfBatchReadBytes - retained - ivfStreamAllocationSlack) / rowBytes :=
      (Nat.le_div_iff_mul_le hrow).mpr (by omega)
    simp only [boundedIvfStreamChunkRows, if_neg hremaining, accepted, Option.bind_eq_some_iff,
      checkedSub_eq_some]
    refine ⟨_, by omega, _, ⟨_, ⟨by omega, rfl⟩, by omega, rfl⟩, ?_, rfl⟩
    generalize (maxIvfBatchReadBytes - retained - ivfStreamAllocationSlack) / rowBytes =
      n at hquotient
    split
    · have hmod := Nat.mod_lt (min n remaining) halign
      omega
    · omega

end ChunkRows

section Collect

variable {C : Type}

def collectChunks (ids : List Int64) (rows : List C) (chunks : List (List Int64 × List C)) :
    IoResult (List (List Int64 × List C)) :=
  .ok (chunks ++ [(ids, rows)])

/-- Chunks of a list from `rowStart` on, with the data that `piece` gives for them. -/
inductive Chunked (ids : List Int64) (piece : Nat → Nat → List C) (rowBytes rowAlignment : Nat) :
    Nat → List (List Int64 × List C) → Prop
  | done {rowStart} (h : ids.length ≤ rowStart) :
      Chunked ids piece rowBytes rowAlignment rowStart []
  | next {rowStart rows chunks} (hpos : 0 < rows) (hle : rowStart + rows ≤ ids.length)
      (hbound : ids.length * 8 + ivfStreamAllocationSlack + rows * rowBytes ≤ maxIvfBatchReadBytes)
      (hwhole : rowStart + rows < ids.length → rowAlignment ∣ rows)
      (hrest : Chunked ids piece rowBytes rowAlignment (rowStart + rows) chunks) :
      Chunked ids piece rowBytes rowAlignment rowStart
        (((ids.drop rowStart).take rows, piece rowStart rows) :: chunks)

variable {ids : List Int64} {piece : Nat → Nat → List C} {rowBytes rowAlignment : Nat}
  {read : Nat → Nat → IoResult (List C)}

theorem streamRows_chunked (hrow : 0 < rowBytes) (halign : 0 < rowAlignment)
    (hread : ∀ rowStart rows, 0 < rows → rowStart + rows ≤ ids.length →
      read rowStart rows = .ok (piece rowStart rows))
    (hfits : ids.length * 8 + ivfStreamAllocationSlack + min rowAlignment ids.length * rowBytes ≤
      maxIvfBatchReadBytes) (rowStart : Nat) (state : List (List Int64 × List C)) :
    ∃ chunks, streamRows (boundedIvfStreamChunkRows · rowBytes (ids.length * 8) rowAlignment)
        (fun rowStart rows state => do
          let codes ← read rowStart rows
          collectChunks ((ids.drop rowStart).take rows) codes state) ids.length rowStart state =
        .ok (state ++ chunks) ∧ Chunked ids piece rowBytes rowAlignment rowStart chunks := by
  fun_induction streamRows (boundedIvfStreamChunkRows · rowBytes (ids.length * 8) rowAlignment)
      (fun rowStart rows state => do
        let codes ← read rowStart rows
        collectChunks ((ids.drop rowStart).take rows) codes state) ids.length rowStart state with
  | case1 rowStart state hlt ih =>
    have hsmaller : min rowAlignment (ids.length - rowStart) * rowBytes ≤
        min rowAlignment ids.length * rowBytes := Nat.mul_le_mul_right _ (by omega)
    have hblock : ids.length * 8 + ivfStreamAllocationSlack +
        min rowAlignment (ids.length - rowStart) * rowBytes ≤ maxIvfBatchReadBytes := by omega
    obtain ⟨rows, hrows⟩ := boundedIvfStreamChunkRows_of_fits hrow halign hblock
    obtain ⟨hpos, hle, hbound, hwhole, -⟩ := boundedIvfStreamChunkRows_ok (by omega) halign hrows
    have hpiece := hread rowStart rows hpos (by omega)
    obtain ⟨chunks, hchunks, hchunked⟩ :=
      ih rows (state ++ [((ids.drop rowStart).take rows, piece rowStart rows)]) (by omega)
    refine ⟨_ :: chunks, ?_, .next hpos (by omega) hbound (fun hlast => hwhole (by omega)) hchunked⟩
    rw [hrows, ok_bind, hpiece, ok_bind, collectChunks, ok_bind, if_neg (by omega), hchunks,
      append_assoc, singleton_append]
  | case2 rowStart state hlt =>
    exact ⟨[], by rw [append_nil], .done (by omega)⟩

theorem streamRows_fits (halign : 0 < rowAlignment) (hpos : 0 < ids.length)
    {consume : Nat → Nat → List (List Int64 × List C) → IoResult (List (List Int64 × List C))}
    {state out : List (List Int64 × List C)}
    (h : streamRows (boundedIvfStreamChunkRows · rowBytes (ids.length * 8) rowAlignment) consume
      ids.length 0 state = .ok out) :
    ids.length * 8 + ivfStreamAllocationSlack + min rowAlignment ids.length * rowBytes ≤
      maxIvfBatchReadBytes := by
  rw [streamRows, if_pos hpos] at h
  obtain ⟨rows, hrows, -⟩ := bind_eq_ok.mp h
  exact (boundedIvfStreamChunkRows_ok hpos halign hrows).2.2.2.2

/-- The last chunk ends with the list. -/
theorem streamRows_last (halign : 0 < rowAlignment) {count rowStart : Nat}
    {state out : List (List Int64 × List C)} (hlt : rowStart < count)
    (h : streamRows (boundedIvfStreamChunkRows · rowBytes (ids.length * 8) rowAlignment)
      (fun rowStart rows state => do
        let codes ← read rowStart rows
        collectChunks ((ids.drop rowStart).take rows) codes state) count rowStart state = .ok out) :
    ∃ start rows codes, 0 < rows ∧ start + rows = count ∧ read start rows = .ok codes := by
  fun_induction streamRows (boundedIvfStreamChunkRows · rowBytes (ids.length * 8) rowAlignment)
      (fun rowStart rows state => do
        let codes ← read rowStart rows
        collectChunks ((ids.drop rowStart).take rows) codes state) count rowStart state with
  | case1 rowStart state _ ih =>
    obtain ⟨rows, hrows, h⟩ := bind_eq_ok.mp h
    obtain ⟨state', hstep, h⟩ := bind_eq_ok.mp h
    obtain ⟨codes, hread, -⟩ := bind_eq_ok.mp hstep
    obtain ⟨hpos, hle, -⟩ := boundedIvfStreamChunkRows_ok (by omega) halign hrows
    rw [if_neg (by omega)] at h
    rcases hle.lt_or_eq with hmore | hlast
    · exact ih rows state' (by omega) (by omega) h
    · exact ⟨rowStart, rows, codes, hpos, by omega, hread⟩
  | case2 rowStart state hge => exact absurd hlt hge

/-- What the chunks of a whole list have to do with the list, where `rowsOf n`
takes the data of `n` rows of the width apart. -/
structure Streamed (ids : List Int64) (data : List C) (rowsOf : Nat → List C → List (List C))
    (width rowBytes rowAlignment : Nat) (chunks : List (List Int64 × List C)) : Prop where
  size : data.length = ids.length * width
  sizes : ∀ chunk ∈ chunks, chunk.2.length = chunk.1.length * width
  ids_eq : chunks.flatMap Prod.fst = ids
  rows_eq : chunks.flatMap (fun chunk => rowsOf chunk.1.length chunk.2) = rowsOf ids.length data
  whole : ∀ chunk ∈ chunks.dropLast, rowAlignment ∣ chunk.1.length
  bounded : ∀ chunk ∈ chunks,
    ids.length * 8 + chunk.1.length * rowBytes ≤ maxIvfBatchReadBytes

variable {chunks : List (List Int64 × List C)} {rowStart : Nat}
  (h : Chunked ids piece rowBytes rowAlignment rowStart chunks)

include h

theorem Chunked.ids_eq :
    chunks.flatMap Prod.fst = ids.drop rowStart := by
  induction h with
  | done h => rw [flatMap_nil, drop_eq_nil_of_le h]
  | next hpos hle hbound hwhole hrest ih =>
    rw [flatMap_cons, ih, ← drop_drop, take_append_drop]

theorem Chunked.data_eq {data : List C} {width : Nat} (hlen : data.length = ids.length * width)
    (hpiece : ∀ rowStart rows, rowStart + rows ≤ ids.length →
      piece rowStart rows = (data.drop (rowStart * width)).take (rows * width)) :
    chunks.flatMap Prod.snd = data.drop (rowStart * width) := by
  induction h with
  | done h =>
    have hmul := Nat.mul_le_mul_right width h
    rw [flatMap_nil, drop_eq_nil_of_le (by omega)]
  | next hpos hle hbound hwhole hrest ih =>
    rw [flatMap_cons, ih, hpiece _ _ hle, Nat.add_mul, ← drop_drop, take_append_drop]

theorem Chunked.whole : ∀ chunk ∈ chunks.dropLast, rowAlignment ∣ chunk.1.length := by
  induction h with
  | done h => simp
  | @next rowStart rows chunks hpos hle hbound hwhole hrest ih =>
    cases hrest with
    | done h => simp
    | next hpos' hle' hbound' hwhole' hrest' =>
      intro chunk hchunk
      rw [dropLast_cons_of_ne_nil (cons_ne_nil _ _)] at hchunk
      rcases mem_cons.mp hchunk with rfl | hmem
      · rw [length_take, length_drop, Nat.min_eq_left (by omega)]
        exact hwhole (by omega)
      · exact ih chunk hmem

theorem Chunked.sizes {width : Nat} (hpiece : ∀ rowStart rows, rowStart + rows ≤ ids.length →
      (piece rowStart rows).length = rows * width) :
    ∀ chunk ∈ chunks, chunk.2.length = chunk.1.length * width := by
  induction h with
  | done h => simp
  | @next rowStart rows chunks hpos hle hbound hwhole hrest ih =>
    refine forall_mem_cons.mpr ⟨?_, ih⟩
    rw [hpiece rowStart rows hle, length_take, length_drop, Nat.min_eq_left (by omega)]

theorem Chunked.bounded :
    ∀ chunk ∈ chunks, ids.length * 8 + chunk.1.length * rowBytes ≤ maxIvfBatchReadBytes := by
  induction h with
  | done h => simp
  | @next rowStart rows chunks hpos hle hbound hwhole hrest ih =>
    refine forall_mem_cons.mpr ⟨?_, ih⟩
    rw [length_take, length_drop, Nat.min_eq_left (by omega)]
    omega

theorem Chunked.rows_eq {rowsOf : Nat → List C → List (List C)} {all : List (List C)}
    (hall : all.length = ids.length)
    (hpiece : ∀ rowStart rows, 0 < rows → rowStart + rows ≤ ids.length → rowAlignment ∣ rowStart →
      (rowStart + rows < ids.length → rowAlignment ∣ rows) →
      rowsOf rows (piece rowStart rows) = (all.drop rowStart).take rows)
    (hstart : rowAlignment ∣ rowStart) :
    chunks.flatMap (fun chunk => rowsOf chunk.1.length chunk.2) = all.drop rowStart := by
  induction h with
  | done h => rw [flatMap_nil, drop_eq_nil_of_le (by omega)]
  | @next rowStart rows chunks hpos hle hbound hwhole hrest ih =>
    have hlen : ((ids.drop rowStart).take rows).length = rows := by
      rw [length_take, length_drop, Nat.min_eq_left (by omega)]
    rw [flatMap_cons, hlen, hpiece rowStart rows hpos hle hstart hwhole]
    by_cases hlast : rowStart + rows < ids.length
    · rw [ih (Nat.dvd_add hstart (hwhole hlast)), ← drop_drop, take_append_drop]
    · cases hrest with
      | done _ =>
        rw [flatMap_nil, append_nil, take_of_length_le]
        rw [length_drop]
        omega
      | next hpos' hle' _ _ _ => omega

end Collect

section Ids

variable {reader : SeekRead} {ids : List Int64} {offset : Nat} {formatName : String}

theorem readDeltaVarintIdsAt_stored (hlen : (sortedList ids).idBytes.length < 2 ^ 31)
    (hcount : ids.length < 2 ^ 31)
    (hread : reader.pread offset (12 + (sortedList ids).idBytes.length) =
      .ok (sortedList ids).idSection) {found : List Int64} :
    readDeltaVarintIdsAt reader offset ids.length (sortedList ids).idBytes.length formatName =
        .ok found ↔
      12 + (sortedList ids).idBytes.length + ids.length * 8 ≤ maxIvfBatchReadBytes ∧
        found = sortedIds ids := by
  have hword : wordSize = 2 ^ 64 := rfl
  obtain ⟨hbase, hstored, hbytes⟩ := idSection_fields (sortedList ids) []
  rw [append_nil] at hbase hstored hbytes
  have hlenOk := int32_ofNat_valid hlen
  have hdrop : (sortedList ids).idSection.drop 12 = (sortedList ids).idBytes := by
    rw [SortedList.idSection]
    exact drop_left' (by simp)
  rw [readDeltaVarintIdsAt, checkedAdd_bind (by omega),
    checkedMul_bind (by omega)]
  dsimp only
  rw [checkedAdd_bind (by omega)]
  by_cases hpeak : maxIvfBatchReadBytes < 12 + (sortedList ids).idBytes.length + ids.length * 8
  · rw [rejectIf_of hpeak, error_bind]
    constructor
    · intro h
      cases h
    · rintro ⟨hle, -⟩
      omega
  · rw [rejectIf_bind hpeak, hread, ok_bind, hstored, rejectIf_bind hlenOk,
      hbase, hdrop, sortedList_decode, Except.ok.injEq]
    constructor
    · rintro rfl
      exact ⟨by omega, rfl⟩
    · rintro ⟨-, rfl⟩
      rfl

end Ids

section Part

variable {start position len : Nat} {file payload body : List UInt8} {list : SortedList}
  {entry : ListEntry}

theorem StoredAt.pread_part (h : StoredAt start file list payload entry)
    (maxRanges : Nat) (hle : position + len ≤ payload.length) :
    (SeekRead.ofBytes file maxRanges).pread (entry.offset.toInt.toNat + position) len =
      .ok ((payload.drop position).take len) := by
  have hfits := h.fits
  have hpart : (payload.drop position).take len =
      (file.drop (entry.offset.toInt.toNat + position)).take len := by
    rw [← h.bytes, drop_take, take_take, drop_drop, Nat.min_eq_left]
    omega
  rw [SeekRead.ofBytes_pread (by omega), hpart]

theorem StoredAt.pread_body (h : StoredAt start file list payload entry)
    (hpayload : payload = list.idSection ++ body) (maxRanges : Nat)
    (hle : position + len ≤ body.length) :
    (SeekRead.ofBytes file maxRanges).pread
        (entry.offset.toInt.toNat + (12 + list.idBytes.length) + position) len =
      .ok ((body.drop position).take len) := by
  subst hpayload
  rw [Nat.add_assoc, h.pread_part maxRanges (by rw [length_append, idSection_length]; omega),
    ← drop_drop, drop_left' (idSection_length list)]

end Part

/-- When a streamed read succeeds, and what it then has delivered. -/
def StreamsAs {C : Type} (result : IoResult (List (List Int64 × List C))) (ids : List Int64)
    (data : List C) (rowsOf : Nat → List C → List (List C))
    (idBytesLen width rowBytes rowAlignment : Nat) : Prop :=
  ((∃ chunks, result = .ok chunks) ↔ StreamFits ids.length idBytesLen rowBytes rowAlignment) ∧
    ∀ chunks, result = .ok chunks → Streamed ids data rowsOf width rowBytes rowAlignment chunks

section Stored

variable {C : Type} {front offset maxRanges width rowBytes rowAlignment : Nat} {file : List UInt8}
  {ids : List Int64} {payload after : List UInt8} {entry : ListEntry} {data : List C}
  {rowsOf : Nat → List C → List (List C)} {formatName : String}
  {readRows : List Int64 → IoResult (List (List Int64 × List C))}

theorem StoredAt.ids_length_lt (h : StoredAt front file (sortedList ids) payload entry) :
    ids.length < 2 ^ 31 := by
  have hcount := h.count
  rw [sortedList_order, sortedOrder_length] at hcount
  have hlt := entry.count.toInt_lt
  omega

theorem StoredAt.listed (h : StoredAt front file (sortedList ids) payload entry) (hne : ids ≠ []) :
    entry.rows = ids.length ∧ entry.idBytes = (sortedList ids).idBytes.length ∧
      ids.length < 2 ^ 31 ∧ entry.offset.toInt.toNat + payload.length < wordSize :=
  ⟨h.rows_length, h.idBytes_eq (sortedList_order_ne_nil hne), h.ids_length_lt,
    h.small (sortedList_order_ne_nil hne)⟩

/-- A stored list is streamed: its ids at `offset`, then its rows chunk by chunk. -/
theorem StoredAt.streamsAs (h : StoredAt front file (sortedList ids) payload entry) (hne : ids ≠ [])
    (before : List UInt8) (hpayload : payload = before ++ ((sortedList ids).idSection ++ after))
    (hoffset : offset = entry.offset.toInt.toNat + before.length)
    (read : Nat → Nat → IoResult (List C)) (piece : Nat → Nat → List C) (hrow : 0 < rowBytes)
    (halign : 0 < rowAlignment)
    (hrows : readRows (sortedIds ids) =
      streamRows (boundedIvfStreamChunkRows · rowBytes (ids.length * 8) rowAlignment)
      (fun rowStart rows state => do
        let codes ← read rowStart rows
        collectChunks (((sortedIds ids).drop rowStart).take rows) codes state) ids.length 0 [])
    (hread : ∀ rowStart rows, 0 < rows → rowStart + rows ≤ ids.length →
      read rowStart rows = .ok (piece rowStart rows))
    (hsize : data.length = ids.length * width)
    (hsizes : ∀ rowStart rows, rowStart + rows ≤ ids.length →
      (piece rowStart rows).length = rows * width)
    (hall : (rowsOf ids.length data).length = ids.length)
    (hpiece : ∀ rowStart rows, 0 < rows → rowStart + rows ≤ ids.length → rowAlignment ∣ rowStart →
      (rowStart + rows < ids.length → rowAlignment ∣ rows) →
      rowsOf rows (piece rowStart rows) = ((rowsOf ids.length data).drop rowStart).take rows) :
    StreamsAs (readDeltaVarintIdsAt (SeekRead.ofBytes file maxRanges) offset ids.length
        (sortedList ids).idBytes.length formatName >>= readRows) (sortedIds ids) data rowsOf
      (sortedList ids).idBytes.length width rowBytes rowAlignment := by
  have horder := sortedList_order_ne_nil hne
  have hhead :=
    h.pread_part maxRanges (show before.length + (12 + (sortedList ids).idBytes.length) ≤
    payload.length by rw [hpayload, length_append, length_append, idSection_length]; omega)
  rw [hpayload, drop_left, take_left' (idSection_length _), ← hoffset] at hhead
  have hids := fun found => @readDeltaVarintIdsAt_stored _ ids _ formatName (h.idBytes_lt horder)
    h.ids_length_lt hhead found
  have hpos : 0 < ids.length := length_pos_iff.mpr hne
  generalize readDeltaVarintIdsAt _ _ _ _ _ = readIds at hids ⊢
  generalize (sortedList ids).idBytes.length = idBytesLen at hids ⊢
  rw [← sortedIds_length ids] at hrows hread hsize hsizes hall hpiece hids hpos
  generalize sortedIds ids = ids at hrows hread hsize hsizes hall hpiece hids hpos ⊢
  have hok : ∀ chunks, readIds >>= readRows = .ok chunks →
      StreamFits ids.length idBytesLen rowBytes rowAlignment := by
    intro chunks hchunks
    obtain ⟨found, hfound, hchunks⟩ := bind_eq_ok.mp hchunks
    obtain ⟨hle, rfl⟩ := (hids found).mp hfound
    rw [hrows] at hchunks
    exact ⟨hle, streamRows_fits halign hpos hchunks⟩
  have hchunked : StreamFits ids.length idBytesLen rowBytes rowAlignment →
      ∃ chunks, readIds >>= readRows = .ok chunks ∧
        Chunked ids piece rowBytes rowAlignment 0 chunks := by
    rintro ⟨hle, hfits⟩
    obtain ⟨chunks, hchunks, h⟩ := streamRows_chunked hrow halign hread hfits 0 []
    refine ⟨chunks, ?_, h⟩
    rw [(hids ids).mpr ⟨hle, rfl⟩, ok_bind, hrows, hchunks, nil_append]
  refine ⟨⟨fun ⟨chunks, h⟩ => hok chunks h, fun h => ?_⟩, fun chunks h => ?_⟩
  · obtain ⟨chunks, hchunks, -⟩ := hchunked h
    exact ⟨chunks, hchunks⟩
  · obtain ⟨chunks', hchunks, hsplit⟩ := hchunked (hok chunks h)
    rw [h, Except.ok.injEq] at hchunks
    subst hchunks
    exact {
      size := hsize
      sizes := hsplit.sizes hsizes
      ids_eq := by rw [hsplit.ids_eq, drop_zero]
      rows_eq := by rw [hsplit.rows_eq hall hpiece (Nat.dvd_zero _), drop_zero]
      whole := hsplit.whole
      bounded := hsplit.bounded }

end Stored

section Layouts

def transposedRows (codeSize n : Nat) (codes : List UInt8) : List (List UInt8) :=
  (List.range n).map fun row => (List.range codeSize).map fun column =>
    codes.getD (column * n + row) 0

def vectorRows {K : Type} (d n : Nat) (vectors : List K) : List (List K) :=
  (List.range n).map fun row => (vectors.drop (row * d)).take d

def blockedRows (d n : Nat) (codes : List UInt8) : List (List UInt8) :=
  (List.range n).map fun row => (List.range d).map fun dimension =>
    codes.getD (row / 32 * (32 * d) + (dimension * min 32 (n - row / 32 * 32) + row % 32)) 0

theorem map_range_eq_part {β : Type} {f g : Nat → β} {n start rows : Nat} (hle : start + rows ≤ n)
    (h : ∀ row < rows, f row = g (start + row)) :
    (List.range rows).map f = (((List.range n).map g).drop start).take rows := by
  apply ext_getElem
  · rw [length_map, length_range, length_take, length_drop, length_map,
      length_range]
    omega
  · intro row hrow _
    rw [length_map, length_range] at hrow
    rw [getElem_map, getElem_range, getElem_take, getElem_drop, getElem_map,
      getElem_range, h row hrow]

theorem part_length {C : Type} {data : List C} {width count rowStart rows : Nat}
    (hlen : data.length = count * width) (hle : rowStart + rows ≤ count) :
    ((data.drop (rowStart * width)).take (rows * width)).length = rows * width := by
  have hmul := Nat.mul_le_mul_right width hle
  rw [Nat.add_mul] at hmul
  rw [length_take, length_drop, hlen]
  omega

theorem column_length {codes : List UInt8} {codeSize count rowStart rows column : Nat}
    (hlen : codes.length = count * codeSize) (hle : rowStart + rows ≤ count)
    (hcolumn : column < codeSize) :
    ((codes.drop (column * count + rowStart)).take rows).length = rows := by
  have hmul : (column + 1) * count ≤ codeSize * count := Nat.mul_le_mul_right count hcolumn
  rw [Nat.succ_mul, Nat.mul_comm codeSize] at hmul
  rw [length_take, length_drop, hlen]
  omega

theorem transposedRows_piece {codes : List UInt8} {codeSize count rowStart rows : Nat}
    (hlen : codes.length = count * codeSize) (hle : rowStart + rows ≤ count) :
    transposedRows codeSize rows ((List.range codeSize).flatMap fun column =>
        (codes.drop (column * count + rowStart)).take rows) =
      ((transposedRows codeSize count codes).drop rowStart).take rows := by
  refine map_range_eq_part hle fun row hrow => map_congr_left fun column hcolumn => ?_
  have hlt : column < codeSize := mem_range.mp hcolumn
  have hget := Blocks.getElem?_flatMap_range hlt
    (fun c hc => column_length hlen hle (show c < codeSize by omega))
    (by rw [column_length hlen hle hlt]; exact hrow)
  rw [getD_eq_getElem?_getD, hget, List.getElem?_take_of_lt hrow, List.getElem?_drop,
    getD_eq_getElem?_getD, Nat.add_assoc]

theorem vectorRows_piece {K : Type} {vectors : List K} {d count rowStart rows : Nat}
    (hle : rowStart + rows ≤ count) :
    vectorRows d rows ((vectors.drop (rowStart * d)).take (rows * d)) =
      ((vectorRows d count vectors).drop rowStart).take rows := by
  refine map_range_eq_part hle fun row hrow => ?_
  have hmul : (row + 1) * d ≤ rows * d := Nat.mul_le_mul_right d hrow
  rw [Nat.succ_mul] at hmul
  rw [drop_take, take_take, drop_drop, Nat.min_eq_left (by omega), ← Nat.add_mul]

theorem blockedRows_piece {codes : List UInt8} {d count rowStart rows : Nat}
    (hle : rowStart + rows ≤ count) (hstart : 32 ∣ rowStart)
    (hwhole : rowStart + rows < count → 32 ∣ rows) :
    blockedRows d rows ((codes.drop (rowStart * d)).take (rows * d)) =
      ((blockedRows d count codes).drop rowStart).take rows := by
  refine map_range_eq_part hle fun row hrow => map_congr_left fun dimension hdimension => ?_
  have hlt : dimension < d := mem_range.mp hdimension
  obtain ⟨blocks, rfl⟩ := hstart
  have hdiv : (32 * blocks + row) / 32 = blocks + row / 32 := by omega
  have hmod : (32 * blocks + row) % 32 = row % 32 := by omega
  have hwidth : min 32 (count - (blocks + row / 32) * 32) = min 32 (rows - row / 32 * 32) := by
    by_cases hlast : 32 * blocks + rows < count
    · obtain ⟨n, rfl⟩ := hwhole hlast
      omega
    · omega
  have hinside : row / 32 * (32 * d) + (dimension * min 32 (rows - row / 32 * 32) + row % 32) <
      rows * d := by
    have hcolumn : dimension * min 32 (rows - row / 32 * 32) + row % 32 <
        d * min 32 (rows - row / 32 * 32) := by
      have hmul : (dimension + 1) * min 32 (rows - row / 32 * 32) ≤
          d * min 32 (rows - row / 32 * 32) := Nat.mul_le_mul_right _ hlt
      rw [Nat.succ_mul] at hmul
      omega
    calc _ < row / 32 * (32 * d) + d * min 32 (rows - row / 32 * 32) := by omega
      _ = (row / 32 * 32 + min 32 (rows - row / 32 * 32)) * d := by ring
      _ ≤ rows * d := Nat.mul_le_mul_right _ (by omega)
  have hposition : 32 * blocks * d + (row / 32 * (32 * d) +
      (dimension * min 32 (rows - row / 32 * 32) + row % 32)) =
      (blocks + row / 32) * (32 * d) +
        (dimension * min 32 (rows - row / 32 * 32) + row % 32) := by ring
  rw [hdiv, hmod, hwidth, getD_eq_getElem?_getD, List.getElem?_take_of_lt hinside,
    List.getElem?_drop, getD_eq_getElem?_getD, hposition]

end Layouts

end PaimonVindex
