import PaimonVindex.Ivf.Streamed

/-! The two reads of an IVF-FLAT list from an arbitrary file: as a whole, and in chunks. -/

namespace PaimonVindex

open Checked Words List

def idHead (file : List UInt8) (entry : ListEntry) : List UInt8 :=
  (file.drop entry.offset.toInt.toNat).take (12 + entry.idBytes)

/-- The ids of a list in a file, and the position behind their last difference. -/
structure IdsAt (file : List UInt8) (entry : ListEntry) (ids : List Int64) (last : Nat) : Prop where
  offset : ¬entry.offset < 0
  inside : entry.offset.toInt.toNat + (12 + entry.idBytes) ≤ file.length
  length : ¬(i32OfBytes (((idHead file entry).drop 8).take 4) < 0 ∨
    (i32OfBytes (((idHead file entry).drop 8).take 4)).toInt.toNat ≠ entry.idBytes)
  deltas : decodeIdDeltas ((idHead file entry).drop 12) entry.rows
    (i64OfBytes ((idHead file entry).take 8)).toUInt64 (i64OfBytes ((idHead file entry).take 8)) 0 =
      .ok (ids, last)

section IdSection

variable {file : List UInt8} {entry : ListEntry} {ids : List Int64} {last : Nat}

theorem IdsAt.unique (h : IdsAt file entry ids last) {ids' : List Int64} {last' : Nat}
    (h' : IdsAt file entry ids' last') : ids = ids' ∧ last = last' := by
  have hsame := h.deltas.symm.trans h'.deltas
  simpa using hsame

theorem idHead_of_payload (file : List UInt8) (entry : ListEntry) (n : Nat) :
    let bytes := (file.drop entry.offset.toInt.toNat).take (12 + entry.idBytes + n)
    bytes.take 8 = (idHead file entry).take 8 ∧
      (bytes.drop 8).take 4 = ((idHead file entry).drop 8).take 4 ∧
      (bytes.drop 12).take entry.idBytes = (idHead file entry).drop 12 ∧
      bytes.drop (12 + entry.idBytes) =
        (file.drop (entry.offset.toInt.toNat + (12 + entry.idBytes))).take n := by
  simp only [idHead, take_take, drop_take, drop_drop, Nat.add_sub_cancel_left]
  refine ⟨?_, ?_, ?_, trivial⟩ <;> congr 1 <;> omega

theorem readDeltaVarintIdsAt_eq_ok {maxRanges : Nat} {formatName : String}
    (hoffset : ¬entry.offset < 0)
    (hbound : 12 + entry.idBytes + entry.rows * 8 ≤ maxIvfBatchReadBytes) :
    readDeltaVarintIdsAt (SeekRead.ofBytes file maxRanges) entry.offset.toInt.toNat entry.rows
      entry.idBytes formatName = .ok ids ↔ IdsAt file entry ids entry.idBytes := by
  have hmax : maxIvfBatchReadBytes = 2 ^ 26 := rfl
  have hword : wordSize = 2 ^ 64 := rfl
  have hlen : entry.offset.toInt.toNat + (12 + entry.idBytes) ≤ file.length →
      ((idHead file entry).drop 12).length = entry.idBytes := by
    intro hinside
    rw [length_drop, idHead, length_take, length_drop]
    omega
  rw [readDeltaVarintIdsAt, checkedAdd_bind (by omega),
    checkedMul_bind (by omega)]
  dsimp only
  rw [checkedAdd_bind (by omega), rejectIf_bind (by omega)]
  simp only [accepted, SeekRead.ofBytes_pread_eq_ok (show 0 < 12 + entry.idBytes by omega),
    decodeDeltaVarintIds_eq_ok]
  constructor
  · rintro ⟨_, ⟨hinside, rfl⟩, hlength, hdeltas⟩
    exact ⟨hoffset, hinside, hlength, hdeltas.trans (by rw [← idHead, hlen hinside])⟩
  · intro h
    exact ⟨_, ⟨h.inside, rfl⟩, h.length, h.deltas.trans (by rw [← idHead, hlen h.inside])⟩

end IdSection

namespace IVFFlatIndexReader

variable {K : Type} [Scalar K] {self : IVFFlatIndexReader K} {file : List UInt8} {maxRanges : Nat}

/-- A reader that has loaded its tables from a file. -/
structure Reads (index : IVFFlatIndexReader K) (file : List UInt8) (maxRanges : Nat) : Prop where
  reader : index.reader = SeekRead.ofBytes file maxRanges
  loaded : index.loaded = true
  d_pos : 0 < index.d
  d_lt : index.d < 2 ^ 31
  file_lt : file.length < 2 ^ 63

def rowBytes (self : IVFFlatIndexReader K) (file : List UInt8) (vectorOffset rowStart rows : Nat) :
    List UInt8 :=
  (file.drop (vectorOffset + rowStart * (self.d * 4))).take (rows * (self.d * 4))

variable {vectorOffset rowStart : Nat}

theorem readChunk_of_pread {rows : Nat} {bytes : List UInt8}
    (hlen : 3 + rows * (self.d * 4) < wordSize)
    (hoffset : vectorOffset + rowStart * (self.d * 4) < wordSize)
    (hread : self.reader.pread (vectorOffset + rowStart * (self.d * 4)) (rows * (self.d * 4)) =
      .ok bytes) :
    self.readChunk (self.d * 4) vectorOffset rowStart rows = .ok (vectorsOfBytes bytes) := by
  have halign : rows * (self.d * 4) % 4 = 0 := by
    rw [← Nat.mul_assoc]
    exact Nat.mul_mod_left _ _
  rw [readChunk, checkedMul_bind (by omega),
    Flat.checkPayloadShape_of_lt (Nat.zero_add _) halign hlen, ok_bind,
    checkedMul_bind (by omega), checkedAdd_bind (by omega),
    hread, ok_bind, pure_eq_ok]

variable {vectors : List K}

theorem readChunk_eq_ok (h : self.Reads file maxRanges) {rows : Nat} (hrows : 0 < rows) :
    self.readChunk (self.d * 4) vectorOffset rowStart rows = .ok vectors ↔
      vectorOffset + (rowStart + rows) * (self.d * 4) ≤ file.length ∧
        vectorsOfBytes (self.rowBytes file vectorOffset rowStart rows) = vectors := by
  have hlen : 0 < rows * (self.d * 4) := Nat.mul_pos hrows (by have := h.d_pos; omega)
  have hsum := Nat.add_mul rowStart rows (self.d * 4)
  constructor
  · intro hchunk
    simp only [readChunk, h.reader, accepted] at hchunk
    obtain ⟨_, ⟨rfl, -⟩, ⟨⟩, -, _, ⟨rfl, -⟩, _, ⟨rfl, -⟩, _, hread, rfl⟩ := hchunk
    obtain ⟨hinside, rfl⟩ := (SeekRead.ofBytes_pread_eq_ok hlen).mp hread
    exact ⟨by omega, rfl⟩
  · rintro ⟨hinside, rfl⟩
    have hword : wordSize = 2 ^ 64 := rfl
    have hfile := h.file_lt
    refine readChunk_of_pread (by omega) (by omega) ?_
    rw [h.reader]
    exact SeekRead.ofBytes_pread (by omega)

theorem Reads.ensureLoaded (h : self.Reads file maxRanges) : self.ensureLoaded = .ok self := by
  rw [IVFFlatIndexReader.ensureLoaded]
  exact if_pos h.loaded

/-- The whole of a list, rows included, lies in the file. -/
def RowsInside (self : IVFFlatIndexReader K) (file : List UInt8) (entry : ListEntry) : Prop :=
  entry.offset.toInt.toNat + (12 + entry.idBytes) + entry.rows * (self.d * 4) ≤ file.length

def vectorsAt (self : IVFFlatIndexReader K) (file : List UInt8) (entry : ListEntry) : List K :=
  vectorsOfBytes (self.rowBytes file (entry.offset.toInt.toNat + (12 + entry.idBytes)) 0 entry.rows)

variable {entry : ListEntry}

omit [Scalar K] in
theorem planListRead_ok {listId : Nat} (hentry : self.entry listId = entry) (hrows : 0 < entry.rows)
    {plan : Option ListRead} (h : self.planListRead listId = .ok plan) :
    ¬entry.offset < 0 ∧ plan = some ⟨listId, entry.rows, entry.offset.toInt.toNat, entry.idBytes,
      12 + entry.idBytes + entry.rows * (self.d * 4)⟩ := by
  simp only [planListRead, hentry, if_neg (Nat.ne_of_gt hrows), accepted, checkedListOffset_eq_ok,
    checkedListBytes, Option.bind_eq_some_iff] at h
  obtain ⟨_, -, _, ⟨hoffset, rfl⟩, _, ⟨rfl, -⟩, _, ⟨_, ⟨rfl, -⟩, rfl, -⟩, _, -, rfl⟩ := h
  exact ⟨hoffset, rfl⟩

theorem decodeListPayload_eq_ok {read : ListRead} {bytes : List UInt8} {list : FlatListData K} :
    decodeListPayload read bytes = .ok list ↔
      ¬(i32OfBytes ((bytes.drop 8).take 4) < 0 ∨
        (i32OfBytes ((bytes.drop 8).take 4)).toInt.toNat ≠ read.idBytesLen) ∧
      ∃ ids last, decodeIdDeltas ((bytes.drop 12).take read.idBytesLen) read.count
          (i64OfBytes (bytes.take 8)).toUInt64 (i64OfBytes (bytes.take 8)) 0 = .ok (ids, last) ∧
        ⟨read.listId, ids, vectorsOfBytes (bytes.drop (12 + read.idBytesLen))⟩ = list := by
  simp only [decodeListPayload, accepted, Flat.decodeDeltaVarintIds_eq_ok, exists_and_right]

/-- The whole read needs the rows in the file, and does not look at what follows the ids. -/
theorem readInvertedLists_eq_ok (h : self.Reads file maxRanges) {listId : Nat}
    (hlist : listId < self.nlist) (hentry : self.entry listId = entry) {ids : List Int64} :
    self.readInvertedLists [listId] = .ok [⟨listId, ids, vectors⟩] ↔
      (entry.rows = 0 ∧ ids = [] ∨
        0 < entry.rows ∧ self.RowsInside file entry ∧ ∃ last, IdsAt file entry ids last) ∧
      self.vectorsAt file entry = vectors := by
  rw [readInvertedLists, h.ensureLoaded, ok_bind, vectorsAt, rowBytes, Nat.zero_mul, Nat.add_zero]
  rcases Nat.eq_zero_or_pos entry.rows with hzero | hpos
  · have hplan : self.planListRead listId = .ok none := by
      rw [planListRead, checkListId]
      dsimp only
      rw [rejectIf_bind (by omega), hentry, if_pos hzero, pure_eq_ok]
    have hnone : vectorsOfBytes (K := K) [] = [] := rfl
    rw [readPlannedLists_empty hplan]
    simp [hzero, hnone, eq_comm]
  · obtain ⟨hbase, hlength, hdeltas, hvectors⟩ :=
      idHead_of_payload file entry (entry.rows * (self.d * 4))
    have hpread : ∀ bytes, self.reader.pread entry.offset.toInt.toNat
        (12 + entry.idBytes + entry.rows * (self.d * 4)) = .ok bytes ↔ _ := fun bytes =>
      h.reader ▸ SeekRead.ofBytes_pread_eq_ok (by omega)
    constructor
    · intro hread
      cases readPlannedLists_ok hread with
      | cons hone _ =>
        rw [readPlannedList] at hone
        obtain ⟨plan, hplan, hone⟩ := bind_eq_ok.mp hone
        obtain ⟨hoffset, rfl⟩ := planListRead_ok hentry hpos hplan
        obtain ⟨bytes, hbytes, hdecode⟩ := bind_eq_ok.mp hone
        obtain ⟨hinside, rfl⟩ := (hpread _).mp hbytes
        obtain ⟨hvalid, ids', last, hids, hlist⟩ := decodeListPayload_eq_ok.mp hdecode
        rw [hlength] at hvalid
        rw [hbase, hdeltas] at hids
        rw [hvectors, FlatListData.mk.injEq] at hlist
        obtain ⟨-, rfl, rfl⟩ := hlist
        have hrows : self.RowsInside file entry := by
          rw [RowsInside]
          omega
        exact ⟨.inr ⟨hpos, hrows, last, hoffset, by omega, hvalid, hids⟩, rfl⟩
    · rintro ⟨⟨hzero, -⟩ | ⟨-, hinside, last, hids⟩, rfl⟩
      · omega
      · have hfile := h.file_lt
        have hword : wordSize = 2 ^ 64 := rfl
        rw [RowsInside] at hinside
        have hplan := planListRead_of_lt hlist hentry hpos hids.offset (by omega)
        refine readPlannedLists_single hplan (by show 12 + _ + _ < wordSize; omega)
          ((hpread _).mpr ⟨by omega, rfl⟩) (decodeListPayload_eq_ok.mpr ?_)
        dsimp only
        rw [hbase, hlength, hdeltas, hvectors]
        exact ⟨hids.length, ids, last, hids.deltas, rfl⟩

/-- A row fits next to the decoded ids of its list. -/
def RowFits (self : IVFFlatIndexReader K) (entry : ListEntry) : Prop :=
  entry.rows * 8 + ivfStreamAllocationSlack + self.d * 4 ≤ maxIvfBatchReadBytes

omit [Scalar K] in
theorem rowBytes_length {count : Nat}
    (hinside : count = 0 ∨ vectorOffset + count * (self.d * 4) ≤ file.length) :
    (self.rowBytes file vectorOffset 0 count).length = count * (self.d * 4) := by
  rw [rowBytes, length_take, length_drop, Nat.zero_mul]
  rcases hinside with rfl | hinside
  · simp
  · omega

theorem rowBytes_part {count rows : Nat}
    (hinside : count = 0 ∨ vectorOffset + count * (self.d * 4) ≤ file.length)
    (hle : rowStart + rows ≤ count) :
    vectorsOfBytes (K := K) (self.rowBytes file vectorOffset rowStart rows) =
      ((vectorsOfBytes (self.rowBytes file vectorOffset 0 count)).drop (rowStart * self.d)).take
        (rows * self.d) := by
  have hmul : (rowStart + rows) * (self.d * 4) ≤ count * (self.d * 4) := Nat.mul_le_mul_right _ hle
  rw [Nat.add_mul] at hmul
  have hbytes : ((self.rowBytes file vectorOffset 0 count).drop (rowStart * self.d * 4)).take
      (rows * self.d * 4) = self.rowBytes file vectorOffset rowStart rows := by
    rw [rowBytes, rowBytes, Nat.zero_mul, Nat.add_zero, drop_take, take_take, drop_drop,
      Nat.mul_assoc, Nat.mul_assoc, Nat.min_eq_left (by omega)]
  have hbound : (rowStart * self.d + rows * self.d) * 4 ≤
      (self.rowBytes file vectorOffset 0 count).length := by
    rw [rowBytes_length hinside, Nat.add_mul, Nat.mul_assoc, Nat.mul_assoc]
    exact hmul
  rw [vectorsOfBytes, vectorsOfBytes, ← map_drop, ← map_take,
    chunksExact_part (by decide) _ hbound, hbytes]

def streamChunks (self : IVFFlatIndexReader K) (entry : ListEntry) (ids : List Int64) :
    IoResult (List (List Int64 × List K)) :=
  streamRows (boundedIvfStreamChunkRows · (self.d * 4) (ids.length * 8) 1)
    (fun rowStart rows state => do
      let vectors ← self.readChunk (self.d * 4) (entry.offset.toInt.toNat + (12 + entry.idBytes))
        rowStart rows
      collectChunks ((ids.drop rowStart).take rows) vectors state) ids.length 0 []

section Chunks

variable {entry : ListEntry} {ids : List Int64} {chunks : List (List Int64 × List K)}

theorem fits_of_streamChunks (h : self.Reads file maxRanges) (hlen : ids.length = entry.rows)
    (hchunks : self.streamChunks entry ids = .ok chunks) (hpos : 0 < entry.rows) :
    self.RowFits entry ∧ self.RowsInside file entry := by
  have hfits := streamRows_fits Nat.one_pos (by omega) hchunks
  obtain ⟨start, rows, codes, hrows, hlast, hread⟩ := streamRows_last Nat.one_pos (by omega) hchunks
  have hinside := ((readChunk_eq_ok h hrows).mp hread).1
  rw [hlast, hlen] at hinside
  rw [hlen, Nat.min_eq_left (by omega), Nat.one_mul] at hfits
  exact ⟨hfits, hinside⟩

theorem streamChunks_of_fits (h : self.Reads file maxRanges) (hlen : ids.length = entry.rows)
    (hall : 0 < entry.rows → self.RowFits entry ∧ self.RowsInside file entry) :
    ∃ chunks, self.streamChunks entry ids = .ok chunks ∧ chunks.flatMap Prod.fst = ids ∧
      chunks.flatMap Prod.snd = self.vectorsAt file entry := by
  have hinside : entry.rows = 0 ∨ entry.offset.toInt.toNat + (12 + entry.idBytes) +
      entry.rows * (self.d * 4) ≤ file.length :=
    (Nat.eq_zero_or_pos entry.rows).imp_right fun hpos => (hall hpos).2
  have hfits : ids.length * 8 + ivfStreamAllocationSlack + min 1 ids.length * (self.d * 4) ≤
      maxIvfBatchReadBytes := by
    rcases Nat.eq_zero_or_pos entry.rows with hzero | hpos
    · rw [hlen, hzero, Nat.min_zero, Nat.zero_mul (self.d * 4)]
      decide
    · rw [hlen, Nat.min_eq_left (by omega), Nat.one_mul]
      exact (hall hpos).1
  have hread : ∀ rowStart rows, 0 < rows → rowStart + rows ≤ ids.length →
      self.readChunk (self.d * 4) (entry.offset.toInt.toNat + (12 + entry.idBytes)) rowStart rows =
        .ok (vectorsOfBytes (self.rowBytes file (entry.offset.toInt.toNat + (12 + entry.idBytes))
          rowStart rows)) := by
    intro rowStart rows hpos hle
    have hmul := Nat.mul_le_mul_right (self.d * 4) hle
    rw [hlen] at hmul
    exact (readChunk_eq_ok h hpos).mpr ⟨by omega, rfl⟩
  obtain ⟨chunks, hchunks, hchunked⟩ :=
    streamRows_chunked (by have := h.d_pos; omega) Nat.one_pos hread hfits 0 []
  have hdata : (self.vectorsAt file entry).length = ids.length * self.d := by
    rw [vectorsAt, vectorsOfBytes, length_map, chunksExact_length, rowBytes_length hinside, hlen,
      ← Nat.mul_assoc, Nat.mul_div_cancel _ (by decide)]
  refine ⟨chunks, hchunks, ?_, ?_⟩
  · rw [hchunked.ids_eq, drop_zero]
  · rw [hchunked.data_eq hdata fun rowStart rows hle => rowBytes_part hinside (hlen ▸ hle),
      Nat.zero_mul, drop_zero]

end Chunks

/-- A streamed list: its ids end with their section, a row fits, and the rows are in the file. -/
theorem forEachStreamedListChunk_eq_ok (h : self.Reads file maxRanges) {listId : Nat}
    (hentry : self.entry listId = entry)
    (hbound : 12 + entry.idBytes + entry.rows * 8 ≤ maxIvfBatchReadBytes) {ids : List Int64} :
    (∃ chunks, self.forEachStreamedListChunk listId collectChunks [] = .ok chunks ∧
        chunks.flatMap Prod.fst = ids ∧ chunks.flatMap Prod.snd = vectors) ↔
      IdsAt file entry ids entry.idBytes ∧
        (0 < entry.rows → self.RowFits entry ∧ self.RowsInside file entry) ∧
        self.vectorsAt file entry = vectors := by
  have hmax : maxIvfBatchReadBytes = 2 ^ 26 := rfl
  have hword : wordSize = 2 ^ 64 := rfl
  have hd := h.d_lt
  have hfile := h.file_lt
  have hstream : ∀ chunks, self.forEachStreamedListChunk listId collectChunks [] = .ok chunks ↔
      ∃ ids, IdsAt file entry ids entry.idBytes ∧ self.streamChunks entry ids = .ok chunks := by
    intro chunks
    rw [forEachStreamedListChunk, h.ensureLoaded, ok_bind]
    dsimp only
    rw [hentry, checkedMul_of_lt (by omega), h.reader]
    simp only [accepted, checkedListOffset_eq_ok, Option.some.injEq]
    constructor
    · rintro ⟨_, ⟨hoffset, rfl⟩, ids, hids, _, rfl, _, ⟨rfl, -⟩, _, ⟨rfl, -⟩, hrows⟩
      have hat := (readDeltaVarintIdsAt_eq_ok hoffset hbound).mp hids
      have hlen := decodeIdDeltas_length hat.deltas
      refine ⟨ids, hat, ?_⟩
      simpa only [streamChunks, hlen] using hrows
    · rintro ⟨ids, hat, hrows⟩
      have hlen := decodeIdDeltas_length hat.deltas
      have hinside := hat.inside
      refine ⟨_, ⟨hat.offset, rfl⟩, ids, (readDeltaVarintIdsAt_eq_ok hat.offset hbound).mpr hat, _,
        rfl, _, ⟨rfl, by omega⟩, _, ⟨rfl, by omega⟩, ?_⟩
      simpa only [streamChunks, hlen] using hrows
  constructor
  · rintro ⟨chunks, hchunks, hfst, hsnd⟩
    obtain ⟨ids', hat, hrun⟩ := (hstream chunks).mp hchunks
    have hlen := decodeIdDeltas_length hat.deltas
    have hall := fits_of_streamChunks h hlen hrun
    obtain ⟨chunks', hrun', hfst', hsnd'⟩ := streamChunks_of_fits h hlen hall
    rw [hrun, Except.ok.injEq] at hrun'
    subst hrun'
    rw [← hfst, ← hsnd, hfst']
    exact ⟨hat, hall, hsnd'.symm⟩
  · rintro ⟨hat, hall, rfl⟩
    obtain ⟨chunks, hrun, hdata⟩ :=
      streamChunks_of_fits h (decodeIdDeltas_length hat.deltas) hall
    exact ⟨chunks, (hstream chunks).mpr ⟨ids, hat, hrun⟩, hdata⟩

/-- Both reads of a list accept it, with the same ids and vectors, or both reject it. -/
def RoutesAgree (self : IVFFlatIndexReader K) (listId : Nat) : Prop :=
  ∀ ids vectors, self.readInvertedLists [listId] = .ok [⟨listId, ids, vectors⟩] ↔
    ∃ chunks, self.forEachStreamedListChunk listId collectChunks [] = .ok chunks ∧
      chunks.flatMap Prod.fst = ids ∧ chunks.flatMap Prod.snd = vectors

/-- Bytes that both reads take alike: without rows a header with an empty id section, and
with rows that lie in the file ids that end with their section, and room for a row. -/
structure TakenAlike (index : IVFFlatIndexReader K) (file : List UInt8) (entry : ListEntry) :
    Prop where
  empty : entry.rows = 0 → IdsAt file entry [] entry.idBytes
  filled : 0 < entry.rows → index.RowsInside file entry → ∀ ids last, IdsAt file entry ids last →
    last = entry.idBytes ∧ index.RowFits entry

/-- Whether the reads agree is decided by the bytes of the list and its entry. -/
theorem flat_routes_agree_iff (index : IVFFlatIndexReader K) (file : List UInt8)
    (maxRanges listId : Nat) (h : index.Reads file maxRanges) (hlist : listId < index.nlist)
    (hbound : 12 + (index.entry listId).idBytes + (index.entry listId).rows * 8 ≤
      maxIvfBatchReadBytes) :
    index.RoutesAgree listId ↔ index.TakenAlike file (index.entry listId) := by
  generalize hentry : index.entry listId = entry at hbound ⊢
  have hwhole : ∀ {ids vectors}, index.readInvertedLists [listId] = .ok [⟨listId, ids, vectors⟩] ↔
      _ := readInvertedLists_eq_ok h hlist hentry
  have hstreamed : ∀ {ids vectors}, _ ↔ IdsAt file entry ids entry.idBytes ∧
      (0 < entry.rows → index.RowFits entry ∧ index.RowsInside file entry) ∧
        index.vectorsAt file entry = vectors := forEachStreamedListChunk_eq_ok h hentry hbound
  constructor
  · intro hagree
    constructor
    · intro hzero
      exact (hstreamed.mp ((hagree [] _).mp (hwhole.mpr ⟨.inl ⟨hzero, rfl⟩, rfl⟩))).1
    · intro hpos hinside ids last hat
      obtain ⟨hend, hfits, -⟩ :=
        hstreamed.mp ((hagree ids _).mp (hwhole.mpr ⟨.inr ⟨hpos, hinside, last, hat⟩, rfl⟩))
      exact ⟨(hat.unique hend).2, (hfits hpos).1⟩
  · intro hbytes ids vectors
    rw [hwhole, hstreamed]
    rcases Nat.eq_zero_or_pos entry.rows with hzero | hpos
    · have hempty := hbytes.empty hzero
      simp only [hzero, Nat.lt_irrefl, true_and, false_and, or_false, false_imp_iff]
      refine and_congr_left fun _ => ⟨?_, fun hat => (hat.unique hempty).1⟩
      rintro rfl
      exact hempty
    · simp only [hpos, hpos.ne', true_and, false_and, false_or, forall_const]
      constructor
      · rintro ⟨⟨hinside, last, hat⟩, hvectors⟩
        obtain ⟨rfl, hfits⟩ := hbytes.filled hpos hinside ids last hat
        exact ⟨hat, ⟨hfits, hinside⟩, hvectors⟩
      · rintro ⟨hat, ⟨-, hinside⟩, hvectors⟩
        exact ⟨⟨hinside, _, hat⟩, hvectors⟩

/-- One row with the id five, and bytes behind its one difference. -/
def paddedFile (padding : List UInt8) : List UInt8 :=
  i64Bytes 5 ++ i32Bytes (Int32.ofNat (1 + padding.length)) ++ 0 :: padding ++ F32.one.toBytes

def paddedReader (padding : List UInt8) : IVFFlatIndexReader F32 where
  reader := SeekRead.ofBytes (paddedFile padding) 0
  d := 1
  nlist := 1
  metric := .l2
  totalVectors := 1
  quantizerCentroids := [F32.zero]
  entries := [⟨0, 1, Int32.ofNat (1 + padding.length)⟩]
  loaded := true

theorem flat_routes_agree_unpadded : (paddedReader []).RoutesAgree 0 := by
  have h : (paddedReader []).Reads (paddedFile []) 0 := ⟨rfl, rfl, by decide, by decide, by decide⟩
  have hfive : IdsAt (paddedFile []) ((paddedReader []).entry 0) [5] 1 :=
    ⟨by decide, by decide, by decide, rfl⟩
  refine (flat_routes_agree_iff _ _ 0 0 h (by decide) (by decide)).mpr
    ⟨fun hzero => absurd hzero (by decide), fun _ _ ids last hat => ⟨(hat.unique hfive).2, ?_⟩⟩
  rw [RowFits]
  decide

/-- A byte too many is accepted with the list and rejected with its chunks. -/
theorem flat_routes_differ_padded :
    (paddedReader [0]).readInvertedLists [0] = .ok [⟨0, [5], [F32.one]⟩] ∧
      (paddedReader [0]).forEachStreamedListChunk 0 collectChunks [] =
        .error (invalidData "trailing bytes in delta-varint ID section") := by
  have h : (paddedReader [0]).Reads (paddedFile [0]) 0 :=
    ⟨rfl, rfl, by decide, by decide, by decide⟩
  have hrows : (paddedReader [0]).RowsInside (paddedFile [0]) ((paddedReader [0]).entry 0) := by
    rw [RowsInside]
    decide
  have hfive : IdsAt (paddedFile [0]) ((paddedReader [0]).entry 0) [5] 1 :=
    ⟨by decide, by decide, by decide, rfl⟩
  exact ⟨(readInvertedLists_eq_ok h (by decide) rfl).mpr
    ⟨.inr ⟨by decide, hrows, 1, hfive⟩, rfl⟩, rfl⟩

end IVFFlatIndexReader

end PaimonVindex
