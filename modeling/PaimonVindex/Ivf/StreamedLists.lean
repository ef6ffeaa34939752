import PaimonVindex.Ivf.FlatRoutes

/-! The streamed reads of the IVF-PQ, IVF-FLAT and IVF-SQ files. -/

namespace PaimonVindex

open Checked Words SeekRead List

namespace IVFPQIndex

variable {index : IVFPQIndex} {total : Int64} {entries : List ListEntry} {file : List UInt8}

theorem codeSize_pos (index : IVFPQIndex) : 0 < index.pq.codeSize := by
  have hm := index.m_pos
  rw [ProductQuantizer.codeSize]
  split <;> omega

theorem readChunkCodes_eq {self : IVFPQIndexReader F32} {codes : List UInt8}
    {codeOffset count rowStart rows : Nat} (htransposed : self.transposedCodes = true)
    (hle : rowStart + rows ≤ count) (hsmall : codeOffset + count * self.codeSize < wordSize)
    (hread : ∀ position, position + rows ≤ count * self.codeSize →
      self.reader.pread (codeOffset + position) rows = .ok ((codes.drop position).take rows)) :
    self.readChunkCodes codeOffset count rowStart rows =
      .ok ((List.range self.codeSize).flatMap fun column =>
        (codes.drop (column * count + rowStart)).take rows) := by
  have hcell : ∀ column ∈ List.range self.codeSize,
      column * count + rowStart + rows ≤ count * self.codeSize := by
    intro column hcolumn
    have hmul := Nat.mul_le_mul_right count (mem_range.mp hcolumn)
    rw [Nat.succ_mul, Nat.mul_comm self.codeSize] at hmul
    omega
  have hmul : rows * self.codeSize ≤ count * self.codeSize := Nat.mul_le_mul_right _ (by omega)
  rw [IVFPQIndexReader.readChunkCodes, checkedMul_bind (by omega), if_pos htransposed]
  refine bind_eq_ok.mpr ⟨(List.range self.codeSize).map fun column =>
    codeOffset + (column * count + rowStart), mapM_eq_ok_map fun column hcolumn => ?_,
    bind_eq_ok.mpr ⟨(List.range self.codeSize).map fun column =>
        (codes.drop (column * count + rowStart)).take rows,
        preadBatchedSlices_of_forall₂ ?_ ?_, ?_⟩⟩
  · have hinside := hcell column hcolumn
    rw [checkedMul_of_lt (by omega), Option.bind_some, checkedAdd_bind (by omega),
      checkedAdd_of_lt (by omega), okOr_some]
  · rw [map_map, map_map]
    show ((List.range self.codeSize).map fun _ => rows).sum < wordSize
    rw [map_const', length_range, sum_replicate_nat, Nat.mul_comm]
    omega
  · rw [map_map, forall₂_map_right_iff, forall₂_map_left_iff, forall₂_same]
    exact fun column hcolumn => hread _ (hcell column hcolumn)
  · rw [pure_eq_ok, ← flatMap_def]

theorem stream_written (h : index.WrittenAs total entries file) (maxRanges : Nat) {i : Nat}
    (hi : i < index.nlist) (hne : index.ids.getD i [] ≠ []) :
    StreamsAs ((index.loaded total entries (ofBytes file maxRanges)).tryForEachStreamedListChunk
        i collectChunks []) (sortedIds (index.ids.getD i []))
      (transposeSortedPqCodes (index.codes.getD i []) (sortedOrder (index.ids.getD i []))
        index.pq.codeSize)
      (transposedRows index.pq.codeSize) (entries.getD i default).idBytes index.pq.codeSize
      index.pq.codeSize 1 := by
  let count := (index.ids.getD i []).length
  let ids := sortedList (index.ids.getD i [])
  let codes := transposeSortedPqCodes (index.codes.getD i []) (sortedOrder (index.ids.getD i []))
    index.pq.codeSize
  let loaded := index.loaded total entries (ofBytes file maxRanges)
  let start := (entries.getD i default).offset.toInt.toNat
  have hstored := h.entry hi
  have hpayload : index.payload ids (index.codes.getD i []) = ids.idSection ++ codes := by
    rw [payload, if_neg (sortedList_order_ne_nil hne), sortedList_order]
  have hcodes : codes.length = count * index.pq.codeSize := by
    rw [transposeSortedPqCodes_length, sortedOrder_length]
  obtain ⟨hrows, hbytes, hcount, hsmall⟩ : _ = count ∧ _ = ids.idBytes.length ∧ count < _ ∧ _ :=
    hstored.listed hne
  rw [hpayload, length_append, idSection_length, hcodes] at hsmall
  have hword : wordSize = 2 ^ 64 := rfl
  have hentry : (index.loaded total entries (ofBytes file maxRanges)).entry i =
      entries.getD i default := rfl
  rw [IVFPQIndexReader.tryForEachStreamedListChunk, IVFPQIndexReader.ensureLoaded_of_loaded rfl,
    ok_bind]
  simp only [hentry, hrows, hbytes, hstored.checkedListOffset, ok_bind]
  refine hstored.streamsAs hne [] hpayload rfl
    (loaded.readChunkCodes (start + (12 + ids.idBytes.length)) count)
    (fun rowStart rows => (List.range index.pq.codeSize).flatMap fun column =>
      (codes.drop (column * count + rowStart)).take rows)
    index.codeSize_pos Nat.one_pos ?_ ?_ hcodes ?_ ?_ ?_
  · rw [sortedIds_length, checkedAdd_bind (by omega), checkedMul_bind (by omega)]
    rfl
  · intro rowStart rows _ hle
    exact readChunkCodes_eq rfl hle (by show _ + _ * index.pq.codeSize < _; omega)
      fun position hinside => hstored.pread_body hpayload maxRanges (hcodes ▸ hinside)
  · intro rowStart rows hle
    rw [flatMap_length_of_width fun column hcolumn =>
      column_length hcodes hle (mem_range.mp hcolumn), length_range, Nat.mul_comm]
  · rw [transposedRows, length_map, length_range]
  · intro rowStart rows _ hle _ _
    exact transposedRows_piece hcodes hle

end IVFPQIndex

namespace IVFFlatIndex

variable {index : IVFFlatIndex} {total : Int64} {entries : List ListEntry} {file : List UInt8}

theorem f32SliceBytes_part (data : List F32) (start len : Nat) :
    ((f32SliceBytes data).drop (start * 4)).take (len * 4) =
      f32SliceBytes ((data.drop start).take len) := by
  rw [f32SliceBytes, drop_flatMap_of_width fun x _ => F32.toBytes_length x,
    take_flatMap_of_width fun x _ => F32.toBytes_length x]
  rfl

theorem stream_written (h : index.WrittenAs total entries file) (maxRanges : Nat) {i : Nat}
    (hi : i < index.nlist) (hne : index.ids.getD i [] ≠ []) :
    StreamsAs ((index.loaded total entries (ofBytes file maxRanges)).forEachStreamedListChunk
        i collectChunks []) (sortedIds (index.ids.getD i []))
      (sortedVectors (index.vectors.getD i []) (sortedOrder (index.ids.getD i [])) index.d)
      (vectorRows index.d) (entries.getD i default).idBytes index.d (index.d * 4) 1 := by
  let count := (index.ids.getD i []).length
  let ids := sortedList (index.ids.getD i [])
  let vectors := sortedVectors (index.vectors.getD i []) (sortedOrder (index.ids.getD i [])) index.d
  let start := (entries.getD i default).offset.toInt.toNat
  have hstored := h.entry hi
  have hpayload : index.payload ids (index.vectors.getD i []) =
      ids.idSection ++ f32SliceBytes vectors := by
    rw [payload, if_neg (sortedList_order_ne_nil hne), sortedList_order]
  have hlength : vectors.length = count * index.d := sortedVectors_length (h.vectors i hi)
  have hvectors : (f32SliceBytes vectors).length = count * (index.d * 4) := by
    rw [f32SliceBytes_length, hlength, Nat.mul_assoc]
  obtain ⟨hrows, hbytes, hcount, hsmall⟩ : _ = count ∧ _ = ids.idBytes.length ∧ count < _ ∧ _ :=
    hstored.listed hne
  rw [hpayload, length_append, idSection_length, hvectors] at hsmall
  have hword : wordSize = 2 ^ 64 := rfl
  have hd := h.d_lt
  have hdpos := h.d_pos
  have hentry : (index.loaded total entries (ofBytes file maxRanges)).entry i =
      entries.getD i default := rfl
  have hdim : (index.loaded total entries (ofBytes file maxRanges)).d = index.d := rfl
  rw [IVFFlatIndexReader.forEachStreamedListChunk, IVFFlatIndexReader.ensureLoaded_of_loaded rfl,
    ok_bind]
  simp only [hentry, hdim, hrows, hbytes, hstored.checkedListOffset, ok_bind]
  refine hstored.streamsAs hne [] hpayload rfl
    ((index.loaded total entries (ofBytes file maxRanges)).readChunk (index.d * 4)
      (start + (12 + ids.idBytes.length)))
    (fun rowStart rows => (vectors.drop (rowStart * index.d)).take (rows * index.d))
    (by omega) Nat.one_pos ?_ ?_ hlength (fun _ _ => part_length hlength) ?_ ?_
  · rw [sortedIds_length, checkedMul_bind (by omega), checkedAdd_bind (by omega),
      checkedMul_bind (by omega)]
  · intro rowStart rows hpos hle
    have hmul : (rowStart + rows) * (index.d * 4) ≤ count * (index.d * 4) :=
      Nat.mul_le_mul_right _ hle
    rw [Nat.add_mul] at hmul
    have hpart : (ofBytes file maxRanges).pread
        (start + (12 + ids.idBytes.length) + rowStart * (index.d * 4)) (rows * (index.d * 4)) = _ :=
      hstored.pread_body hpayload maxRanges (by rw [hvectors]; omega)
    rw [← Nat.mul_assoc rowStart, ← Nat.mul_assoc rows, f32SliceBytes_part, Nat.mul_assoc,
      Nat.mul_assoc] at hpart
    refine (IVFFlatIndexReader.readChunk_of_pread (by rw [hdim]; omega) (by rw [hdim]; omega)
      hpart).trans ?_
    rw [vectorsOfBytes_slice]
  · rw [vectorRows, length_map, length_range]
  · intro rowStart rows _ hle _ _
    exact vectorRows_piece hle

end IVFFlatIndex

namespace IVFSQIndex

variable {index : IVFSQIndex} {total : Int64} {entries : List ListEntry} {file : List UInt8}

theorem stream_written (h : index.WrittenAs total entries file) (maxRanges : Nat) {i : Nat}
    (hi : i < index.nlist) (hne : index.ids.getD i [] ≠ []) :
    StreamsAs ((index.opened total entries (ofBytes file maxRanges)).forEachStreamedListChunk
        i collectChunks []) (sortedIds (index.ids.getD i []))
      (blockSortedSqCodes (index.codes.getD i []) (sortedOrder (index.ids.getD i [])) index.d
        Sq.scanBlockSize)
      (blockedRows index.d) (entries.getD i default).idBytes index.d index.d
      Sq.scanBlockSize := by
  let count := (index.ids.getD i []).length
  let ids := sortedList (index.ids.getD i [])
  let codes := blockSortedSqCodes (index.codes.getD i []) (sortedOrder (index.ids.getD i []))
    index.d Sq.scanBlockSize
  let start := (entries.getD i default).offset.toInt.toNat
  have hstored := h.entry hi
  have hpayload : index.payload ids (index.codes.getD i []) = codes ++ ids.idSection := by
    rw [payload, if_neg (sortedList_order_ne_nil hne), sortedList_order]
  have hcodes : codes.length = count * index.d := by
    rw [blockSortedSqCodes_length, sortedOrder_length]
  obtain ⟨hrows, hbytes, hcount, hsmall⟩ : _ = count ∧ _ = ids.idBytes.length ∧ count < _ ∧ _ :=
    hstored.listed hne
  rw [hpayload, length_append, idSection_length, hcodes] at hsmall
  have hword : wordSize = 2 ^ 64 := rfl
  have hentry : (index.opened total entries (ofBytes file maxRanges)).entry i =
      entries.getD i default := rfl
  have hd : (index.opened total entries (ofBytes file maxRanges)).d = index.d := rfl
  rw [IVFSQIndexReader.forEachStreamedListChunk]
  simp only [hentry, hd, hrows, hbytes, hstored.checkedListOffset, ok_bind]
  rw [checkedListBytes, checkedMul_bind (by omega), checkedAdd_bind (by omega)]
  refine hstored.streamsAs hne codes (hpayload.trans (by rw [append_nil])) (by rw [hcodes])
    ((index.opened total entries (ofBytes file maxRanges)).readChunkCodes start)
    (fun rowStart rows => (codes.drop (rowStart * index.d)).take (rows * index.d))
    h.d_pos (by decide) ?_ ?_ hcodes (fun _ _ => part_length hcodes) ?_ ?_
  · rw [sortedIds_length, checkedMul_bind (by omega)]
  · intro rowStart rows hpos hle
    have hmul : (rowStart + rows) * index.d ≤ count * index.d := Nat.mul_le_mul_right _ hle
    rw [Nat.add_mul] at hmul
    have hpart : (ofBytes file maxRanges).pread (start + rowStart * index.d)
        (rows * index.d) = _ := hstored.pread_part maxRanges
      (by rw [hpayload, length_append, idSection_length, hcodes]; omega)
    have hinside : ((codes ++ ids.idSection).drop (rowStart * index.d)).take (rows * index.d) =
        (codes.drop (rowStart * index.d)).take (rows * index.d) := by
      rw [drop_append_of_le_length (by omega), take_append_of_le_length]
      rw [length_drop, hcodes]
      omega
    rw [IVFSQIndexReader.readChunkCodes, hd, checkedMul_bind (by omega), checkedMul_bind (by omega),
      checkedAdd_bind (by omega)]
    exact hpart.trans (by rw [hpayload, hinside])
  · rw [blockedRows, length_map, length_range]
  · intro rowStart rows _ hle hstart hwhole
    exact blockedRows_piece hle hstart hwhole

end IVFSQIndex

section Oversized

theorem StoredAt.ne_nil_of_oversized {start len : Nat} {file : List UInt8} {ids : List Int64}
    {payload : List UInt8} {entry : ListEntry}
    (h : StoredAt start file (sortedList ids) payload entry) {check : IoResult Unit}
    {rest : IoResult Nat}
    (hlen : (check >>= fun _ => if entry.rows = 0 then .ok 0 else rest) = .ok len)
    (hover : ivfPayloadIsOversized len = true) : ids ≠ [] := by
  rintro rfl
  have hrows : entry.rows = 0 := h.rows_length
  obtain ⟨_, -, hzero⟩ := bind_eq_ok.mp hlen
  rw [if_pos hrows] at hzero
  cases hzero
  exact absurd hover (by decide)

/-- A list that a writer accepted and that is too large for a batch is streamed
exactly when its ids and one block fit the bound, and the chunks are then the
whole list: the same ids and rows as from the full decode. -/
theorem oversized_lists_stream_iff :
    (∀ (index : IVFPQIndex) (file : List UInt8) (maxRanges : Nat)
        (reader loaded : IVFPQIndexReader F32) (i len : Nat), index.writeIndex = .ok file →
      IVFPQIndexReader.openReader (ofBytes file maxRanges) = .ok reader →
      reader.ensureLoaded = .ok loaded → i < index.nlist →
      loaded.listPayloadLen i = .ok len → ivfPayloadIsOversized len = true →
      ∃ full, loaded.readInvertedListPayloads [i] = .ok [full] ∧
        StreamsAs (loaded.tryForEachStreamedListChunk i collectChunks []) full.ids full.codes
          (transposedRows index.pq.codeSize) (loaded.entry i).idBytes index.pq.codeSize
          index.pq.codeSize 1) ∧
    (∀ (index : IVFFlatIndex) (file : List UInt8) (maxRanges : Nat)
        (reader loaded : IVFFlatIndexReader F32) (i len : Nat), index.writeIvfflatIndex = .ok file →
      IVFFlatIndexReader.openReader (ofBytes file maxRanges) = .ok reader →
      reader.ensureLoaded = .ok loaded → i < index.nlist →
      loaded.listPayloadLen i = .ok len → ivfPayloadIsOversized len = true →
      ∃ full, loaded.readInvertedLists [i] = .ok [full] ∧
        StreamsAs (loaded.forEachStreamedListChunk i collectChunks []) full.ids full.vectors
          (vectorRows index.d) (loaded.entry i).idBytes index.d (index.d * 4) 1) ∧
    (∀ (index : IVFSQIndex) (file : List UInt8) (maxRanges : Nat) (reader : IVFSQIndexReader F32)
        (i len : Nat), index.writeIvfsqIndex = .ok file →
      IVFSQIndexReader.openReader (ofBytes file maxRanges) = .ok reader →
      i < index.nlist → reader.listPayloadLen i = .ok len → ivfPayloadIsOversized len = true →
      ∃ full, reader.readInvertedLists [i] = .ok [full] ∧
        StreamsAs (reader.forEachStreamedListChunk i collectChunks []) full.ids full.codes
          (blockedRows index.d) (reader.entry i).idBytes index.d index.d Sq.scanBlockSize) := by
  refine ⟨?_, ?_, ?_⟩
  · intro index file maxRanges reader loaded i len hwrite hopen hload hi hlen hover
    obtain ⟨total, entries, hwritten⟩ := IVFPQIndex.writtenAs_of_writeIndex hwrite
    rw [IVFPQIndex.openReader_written hwritten, Except.ok.injEq] at hopen
    subst hopen
    have hsizes := IVFPQIndex.sizes_of_ensureLoaded hload
    rw [IVFPQIndex.ensureLoaded_written hwritten maxRanges hsizes.1 hsizes.2,
      Except.ok.injEq] at hload
    subst hload
    exact ⟨_, IVFPQIndex.readInvertedListPayloads_written hwritten maxRanges hi,
      IVFPQIndex.stream_written hwritten maxRanges hi
        ((hwritten.entry hi).ne_nil_of_oversized hlen hover)⟩
  · intro index file maxRanges reader loaded i len hwrite hopen hload hi hlen hover
    obtain ⟨total, entries, hwritten⟩ := IVFFlatIndex.writtenAs_of_writeIvfflatIndex hwrite
    rw [IVFFlatIndex.openReader_written hwritten, Except.ok.injEq] at hopen
    subst hopen
    rw [IVFFlatIndex.ensureLoaded_written hwritten maxRanges, Except.ok.injEq] at hload
    subst hload
    exact ⟨_, IVFFlatIndex.readInvertedLists_written hwritten maxRanges hi,
      IVFFlatIndex.stream_written hwritten maxRanges hi
        ((hwritten.entry hi).ne_nil_of_oversized hlen hover)⟩
  · intro index file maxRanges reader i len hwrite hopen hi hlen hover
    obtain ⟨total, entries, hwritten⟩ := IVFSQIndex.writtenAs_of_writeIvfsqIndex hwrite
    have hbounds := IVFSQIndex.bounds_of_openReader hwritten hopen
    rw [IVFSQIndex.openReader_written hwritten maxRanges hbounds, Except.ok.injEq] at hopen
    subst hopen
    exact ⟨_, IVFSQIndex.readInvertedLists_written hwritten maxRanges hi,
      IVFSQIndex.stream_written hwritten maxRanges hi
        ((hwritten.entry hi).ne_nil_of_oversized hlen hover)⟩

namespace IVFFlatIndex

/-- One list of `n` zero rows, all with the id zero. -/
def repeated (n d : Nat) : IVFFlatIndex where
  d := d
  nlist := 1
  metric := .l2
  quantizerCentroids := List.replicate d F32.zero
  ids := [List.replicate n 0]
  vectors := [List.replicate (n * d) F32.zero]

variable {n d : Nat}

theorem validateIndexShape_repeated (hd : 0 < d) (hle : d ≤ 2 ^ 30) (hsmall : n * d < 2 ^ 60) :
    (repeated n d).validateIndexShape = .ok () := by
  have hword : wordSize = 2 ^ 64 := rfl
  have hsection : checkedSectionSize "section size overflow in IVF-FLAT header" 1 d = .ok d :=
    checkedSectionSize_eq_ok.mpr ⟨Nat.one_mul d, by rw [Nat.one_mul]; exact hle⟩
  rw [validateIndexShape, rejectIf_bind (by show ¬d = 0; omega),
    rejectIf_bind (by show ¬1 = 0; omega), rejectIf_bind (by simp [repeated])]
  refine bind_eq_ok.mpr ⟨d, hsection, ?_⟩
  dsimp only
  rw [rejectIf_bind (by simp [repeated])]
  refine bind_eq_ok.mpr ⟨[()], mapM_eq_ok.mpr (List.Forall₂.cons ?_ List.Forall₂.nil), rfl⟩
  show (okOr (checkedMul (List.replicate n (0 : Int64)).length d) _ >>= _) = _
  rw [length_replicate, checkedMul_bind (by omega)]
  refine rejectIf_of_not (not_not.mpr ?_)
  show (List.replicate (n * d) F32.zero).length = n * d
  exact length_replicate

theorem totalVectorCount_repeated (hn : n < 2 ^ 31) :
    ∃ total, totalVectorCount (repeated n d).ids = .ok total := by
  have hcount : usizeToI64 (List.replicate n (0 : Int64)).length "total vector count" =
      .ok (Int64.ofNat n) := by
    rw [length_replicate]
    exact usizeToI64_eq_ok.mpr ⟨by omega, rfl⟩
  have hint : (Int64.ofNat n).toInt = n := Int64.toInt_ofNat_of_lt (by omega)
  have hzero : (0 : Int64).toInt = 0 := by decide
  refine ⟨0 + Int64.ofNat n, ?_⟩
  show ([List.replicate n (0 : Int64)].foldlM _ 0) = _
  rw [foldlM_cons, hcount, ok_bind, rejectIf_bind (by rw [hint, hzero]; omega),
    pure_eq_ok, ok_bind]
  rfl

theorem writeIvfflatIndex_repeated (hn : 0 < n) (hlt : n < 2 ^ 27) (hd : 0 < d) (hle : d ≤ 2 ^ 30) :
    ∃ file, (repeated n d).writeIvfflatIndex = .ok file := by
  have hword : wordSize = 2 ^ 64 := rfl
  have hmul : n * d < 2 ^ 27 * 2 ^ 30 + 1 :=
    Nat.lt_succ_of_le (Nat.mul_le_mul (by omega) hle)
  let list := sortedList (List.replicate n (0 : Int64))
  have hlength : list.order.length = n := by
    rw [sortedList_order, sortedOrder_length, length_replicate]
  have horder : list.order ≠ [] := ne_nil_of_length_pos (by omega)
  have hids : list.idBytes.length ≤ 10 * n := by
    have hbound := sortedList_idBytes_length_le (List.replicate n (0 : Int64))
    rwa [length_replicate] at hbound
  obtain ⟨total, htotal⟩ := totalVectorCount_repeated (d := d) (show n < 2 ^ 31 by omega)
  have hbytes : n * (d * 4) = n * d * 4 := (Nat.mul_assoc n d 4).symm
  have hplan : ∀ start < 2 ^ 33, ∃ entries, planEntries (payloadLen (d * 4))
      (invalidInput "IVF-FLAT offset overflow") start [list] = .ok entries := by
    intro start hstart
    rw [planEntries, u64ToI64_eq_ok.mpr ⟨by omega, rfl⟩, ok_bind, hlength,
      usizeToI32_eq_ok.mpr ⟨by omega, rfl⟩, ok_bind, if_neg horder,
      usizeToI32_eq_ok.mpr ⟨by omega, rfl⟩, ok_bind, payloadLen, checkedListBytes, hlength,
      checkedMul_bind (by omega), checkedAdd_of_lt (by omega),
      Option.bind_some, checkedAdd_bind (by omega),
      checkedAdd_bind (by omega), planEntries, ok_bind, pure_eq_ok]
    exact ⟨_, rfl⟩
  have hd32 : usizeToI32 (repeated n d).d "dimension" = .ok (Int32.ofNat d) :=
    usizeToI32_eq_ok.mpr ⟨by show d < 2 ^ 31; omega, rfl⟩
  have hnlist : usizeToI32 (repeated n d).nlist "nlist" = .ok 1 := rfl
  have hlists : (repeated n d).ids.map sortedList = [list] := rfl
  have htable : checkedMul (repeated n d).nlist 16 = some 16 := rfl
  have hrow : checkedMul (repeated n d).d 4 = some (d * 4) :=
    checkedMul_of_lt (by show d * 4 < wordSize; omega)
  have hcentroids : (f32SliceBytes (repeated n d).quantizerCentroids).length = d * 4 := by
    rw [f32SliceBytes_length]
    show (List.replicate d F32.zero).length * 4 = d * 4
    rw [length_replicate]
  have hlen : ∀ head : List UInt8, head.length = 64 →
      (head ++ f32SliceBytes (repeated n d).quantizerCentroids).length = 64 + d * 4 := by
    intro head hhead
    rw [length_append, hhead, hcentroids]
  obtain ⟨entries, hentries⟩ := hplan (64 + d * 4 + 16) (by omega)
  rw [writeIvfflatIndex, validateIndexShape_repeated hd hle (by omega), ok_bind, hrow, okOr_some,
    ok_bind, hd32, ok_bind, hnlist, ok_bind, htotal, ok_bind, hlists, htable, okOr_some, ok_bind]
  dsimp only
  rw [hlen _ (by simp), checkedAdd_bind (by omega), hentries, ok_bind,
    pure_eq_ok]
  exact ⟨_, rfl⟩

theorem listPayloadLen_written {index : IVFFlatIndex} {total : Int64} {entries : List ListEntry}
    {file : List UInt8} (h : index.WrittenAs total entries file) (reader : SeekRead) {i : Nat}
    (hi : i < index.nlist) (hne : index.ids.getD i [] ≠ []) :
    (index.loaded total entries reader).listPayloadLen i =
      .ok (12 + (sortedList (index.ids.getD i [])).idBytes.length +
        (index.ids.getD i []).length * (index.d * 4)) := by
  have hstored := h.entry hi
  have horder := sortedList_order_ne_nil hne
  have hrows := hstored.rows_length
  have hpos : 0 < (index.ids.getD i []).length := length_pos_iff.mpr hne
  have hsmall := hstored.small horder
  rw [payload_length hne (h.vectors i hi)] at hsmall
  have hword : wordSize = 2 ^ 64 := rfl
  have hd : (index.loaded total entries reader).d = index.d := rfl
  have hentry : (index.loaded total entries reader).entry i = entries.getD i default := rfl
  have hid : ¬(index.loaded total entries reader).nlist ≤ i := not_le.mpr hi
  have hdlt := h.d_lt
  rw [IVFFlatIndexReader.listPayloadLen, checkListId]
  dsimp only
  rw [rejectIf_bind hid, hentry, hd, hrows, if_neg (by omega), hstored.idBytes_eq horder,
    checkedAdd_of_lt (by omega), Option.bind_some, checkedMul_of_lt (by omega), Option.bind_some,
    checkedMul_of_lt (by omega), Option.bind_some, checkedAdd_of_lt (by omega), okOr_some]

theorem repeated_loaded (hn : 0 < n) (hlt : n < 2 ^ 27) (hd : 0 < d) (hle : d ≤ 2 ^ 30) :
    ∃ file reader loaded, (repeated n d).writeIvfflatIndex = .ok file ∧
      IVFFlatIndexReader.openReader (ofBytes file 0) = .ok reader ∧
      reader.ensureLoaded = .ok loaded ∧ ∃ idBytes ≤ 10 * n,
        (loaded.entry 0).idBytes = idBytes ∧
          loaded.listPayloadLen 0 = .ok (12 + idBytes + n * (d * 4)) ∧
        StreamsAs (loaded.forEachStreamedListChunk 0 collectChunks [])
          (sortedIds (List.replicate n 0))
          (sortedVectors (List.replicate (n * d) F32.zero) (sortedOrder (List.replicate n 0)) d)
          (vectorRows d) idBytes d (d * 4) 1 := by
  obtain ⟨file, hfile⟩ := writeIvfflatIndex_repeated hn hlt hd hle
  obtain ⟨total, entries, hwritten⟩ := writtenAs_of_writeIvfflatIndex hfile
  have hne : (repeated n d).ids.getD 0 [] ≠ [] := by
    show List.replicate n (0 : Int64) ≠ []
    exact ne_nil_of_length_pos (by rw [length_replicate]; exact hn)
  have hlen := listPayloadLen_written hwritten (ofBytes file 0) Nat.one_pos hne
  have hrows : ((repeated n d).ids.getD 0 []).length = n := length_replicate
  have hbytes := sortedList_idBytes_length_le ((repeated n d).ids.getD 0 [])
  rw [← (hwritten.entry Nat.one_pos).idBytes_eq (sortedList_order_ne_nil hne)] at hlen hbytes
  rw [hrows] at hlen hbytes
  exact ⟨file, _, _, hfile, openReader_written hwritten 0, ensureLoaded_written hwritten 0, _,
    hbytes, rfl, hlen, stream_written hwritten 0 Nat.one_pos hne⟩

end IVFFlatIndex

/-- Five rows of 16 MiB are streamed. -/
theorem oversized_list_streams_five : ∃ file, ∃ reader loaded : IVFFlatIndexReader F32,
    ∃ full chunks, (IVFFlatIndex.repeated 5 (2 ^ 22)).writeIvfflatIndex = .ok file ∧
      IVFFlatIndexReader.openReader (ofBytes file 0) = .ok reader ∧
      reader.ensureLoaded = .ok loaded ∧ loaded.readInvertedLists [0] = .ok [full] ∧
      loaded.forEachStreamedListChunk 0 collectChunks [] = .ok chunks ∧
      Streamed full.ids full.vectors (vectorRows (2 ^ 22)) (2 ^ 22) (2 ^ 22 * 4) 1 chunks := by
  obtain ⟨file, reader, loaded, hwrite, hopen, hload, idBytes, hids, hentry, hlen, hstream⟩ :=
    @IVFFlatIndex.repeated_loaded 5 (2 ^ 22) (by decide) (by decide) (by decide) (by decide)
  have hmax : maxIvfBatchReadBytes = 67108864 := rfl
  have hslack : ivfStreamAllocationSlack = 64 := rfl
  have hover : ivfPayloadIsOversized (12 + idBytes + 5 * (2 ^ 22 * 4)) = true :=
    decide_eq_true (by omega)
  obtain ⟨full, hread, hfull⟩ :=
    oversized_lists_stream_iff.2.1 _ file 0 reader loaded 0 _ hwrite hopen
    hload Nat.one_pos hlen hover
  have hfits : StreamFits (sortedIds (List.replicate 5 0)).length idBytes (2 ^ 22 * 4) 1 := by
    rw [sortedIds_length, length_replicate]
    refine ⟨by omega, ?_⟩
    rw [hmax, hslack]
    decide
  obtain ⟨chunks, hchunks⟩ := hstream.1.mpr hfits
  exact ⟨file, reader, loaded, full, chunks, hwrite, hopen, hload, hread, hchunks,
    hfull.2 chunks hchunks⟩

/-- A list of 2^23 rows is written, and its ids alone exceed the bound. -/
theorem oversized_list_not_streamed : ∃ file, ∃ reader loaded : IVFFlatIndexReader F32, ∃ len,
    (IVFFlatIndex.repeated (2 ^ 23) 2).writeIvfflatIndex = .ok file ∧
      IVFFlatIndexReader.openReader (ofBytes file 0) = .ok reader ∧
      reader.ensureLoaded = .ok loaded ∧ loaded.listPayloadLen 0 = .ok len ∧
      ivfPayloadIsOversized len = true ∧
      ∀ chunks, loaded.forEachStreamedListChunk 0 collectChunks [] ≠ .ok chunks := by
  obtain ⟨file, reader, loaded, hwrite, hopen, hload, idBytes, hids, hentry, hlen, hstream⟩ :=
    @IVFFlatIndex.repeated_loaded (2 ^ 23) 2 (by decide) (by decide) (by decide) (by decide)
  have hmax : maxIvfBatchReadBytes = 67108864 := rfl
  refine ⟨file, reader, loaded, _, hwrite, hopen, hload, hlen, decide_eq_true (by omega), ?_⟩
  intro chunks hchunks
  have hfits := (hstream.1.mp ⟨chunks, hchunks⟩).1
  rw [sortedIds_length, length_replicate] at hfits
  omega

end Oversized

end PaimonVindex
