import PaimonVindex.DiskAnn.Accept

/-! The planned layout read back: which locators survive as absolute offsets,
and when the reader accepts what the writers emit. -/

namespace PaimonVindex

open Checked Words Paging AdjacencyIndex DiskAnnHeader List

def absoluteOffset (locator : AdjacencyLocator) : Nat :=
  locator.pageIndex.toNat * diskannPageSize + locator.byteOffset.toNat

theorem absoluteOffset_lt (locator : AdjacencyLocator) : absoluteOffset locator < wordSize := by
  have hp := locator.pageIndex.toNat_lt
  have ho := locator.byteOffset.toNat_lt
  unfold absoluteOffset diskannPageSize wordSize
  omega

theorem AdjacencyLocator.Plans.absoluteOffset_eq {locator : AdjacencyLocator} {v : Nat}
    {neighbors : List UInt32} {position : Nat × Nat} (h : locator.Plans v neighbors position) :
    absoluteOffset locator = position.1 * diskannPageSize + (position.2 + v) := by
  rw [absoluteOffset, h.page, h.offset]

theorem adjacencyLocatorAbsoluteOffset_eq (locator : AdjacencyLocator) :
    adjacencyLocatorAbsoluteOffset locator = .ok (absoluteOffset locator) := by
  have hlt := absoluteOffset_lt locator
  have hmul : checkedMul locator.pageIndex.toNat diskannPageSize =
      some (locator.pageIndex.toNat * diskannPageSize) :=
    checkedMul_of_lt (lt_of_le_of_lt (Nat.le_add_right _ _) hlt)
  have hadd : checkedAdd (locator.pageIndex.toNat * diskannPageSize) locator.byteOffset.toNat =
      some (absoluteOffset locator) := checkedAdd_of_lt hlt
  simp [adjacencyLocatorAbsoluteOffset, hmul, hadd]

def writtenIndex (locators : List AdjacencyLocator) (blockOffsets : List Nat)
    (relativeOffsets : List UInt16) : AdjacencyIndex where
  blockOffsets := blockOffsets.map UInt64.ofNat
  relativeOffsets := relativeOffsets
  degreeAndFlags := locators.map AdjacencyLocator.degreeAndFlags

structure WritesIndex (locators : List AdjacencyLocator) (blockOffsets : List Nat)
    (relativeOffsets : List UInt16) (bytes : List UInt8) : Prop where
  blocks : blockOffsets.length = (locators.length + 15) / adjacencyLocatorBlockNodes
  relatives : relativeOffsets.length = locators.length
  block : ∀ i (hi : i < blockOffsets.length), ∃ locator,
    locators[i * adjacencyLocatorBlockNodes]? = some locator ∧
      blockOffsets[i] = absoluteOffset locator
  relative : ∀ i (hi : i < relativeOffsets.length), ∃ base locator,
    locators[i / adjacencyLocatorBlockNodes * adjacencyLocatorBlockNodes]? = some base ∧
      locators[i]? = some locator ∧
      absoluteOffset base + relativeOffsets[i].toNat = absoluteOffset locator
  bytes : bytes = blockOffsets.flatMap (fun offset => u64Bytes (UInt64.ofNat offset)) ++
    relativeOffsets.flatMap u16Bytes ++
    locators.flatMap fun locator => u16Bytes locator.degreeAndFlags

theorem locatorOffset_eq_ok {locators : List AdjacencyLocator} {node offset : Nat} :
    locatorOffset locators node = .ok offset ↔
      ∃ locator, locators[node]? = some locator ∧ offset = absoluteOffset locator := by
  simp only [locatorOffset, accepted, adjacencyLocatorAbsoluteOffset_eq, Except.ok.injEq,
    eq_comm (b := offset)]

theorem writeAdjacencyIndex_spec {layout : AdjacencyLayout} {bytes : List UInt8}
    (h : writeAdjacencyIndex layout = .ok bytes) :
    ∃ blockOffsets relativeOffsets,
      WritesIndex layout.locators blockOffsets relativeOffsets bytes := by
  simp only [writeAdjacencyIndex, accepted, mapM_eq_ok] at h
  obtain ⟨blockOffsets, hblocks, relativeOffsets, hrelatives, rfl⟩ := h
  refine ⟨blockOffsets, relativeOffsets, ?_, ?_, ?_, ?_, rfl⟩
  · simpa using hblocks.length_eq.symm
  · simpa using hrelatives.length_eq.symm
  · intro i hi
    have hget := (forall₂_iff_get.mp hblocks).2 i (hblocks.length_eq ▸ hi) hi
    simpa [locatorOffset_eq_ok] using hget
  · intro i hi
    have hget := (forall₂_iff_get.mp hrelatives).2 i (hrelatives.length_eq ▸ hi) hi
    simp only [get_eq_getElem, getElem_range, relativeOffset, accepted, locatorOffset_eq_ok,
      Option.bind_eq_bind, Option.bind_eq_some_iff, checkedSub_eq_some, toU16_eq_some] at hget
    obtain ⟨_, ⟨base, hbase, rfl⟩, _, ⟨locator, hlocator, rfl⟩, _, ⟨hle, rfl⟩, hdiff⟩ := hget
    exact ⟨base, locator, hbase, hlocator, by omega⟩

variable {i : Nat}

section

variable {locators : List AdjacencyLocator} {blockOffsets : List Nat}
  {relativeOffsets : List UInt16} {bytes : List UInt8}

section

variable (h : WritesIndex locators blockOffsets relativeOffsets bytes)

include h

theorem writtenIndex_locator {locator : AdjacencyLocator} (hi : locators[i]? = some locator) :
    (writtenIndex locators blockOffsets relativeOffsets).locator i =
      (toU32 (absoluteOffset locator / diskannPageSize)).map fun pageIndex =>
        ⟨pageIndex, UInt16.ofNat (absoluteOffset locator % diskannPageSize),
          locator.degreeAndFlags⟩ := by
  have hilt := (List.getElem?_eq_some_iff.mp hi).1
  have hrel : i < relativeOffsets.length := by
    rw [h.relatives]
    exact hilt
  have hblk : i / adjacencyLocatorBlockNodes < blockOffsets.length := by
    rw [h.blocks]
    unfold adjacencyLocatorBlockNodes
    omega
  obtain ⟨base, locator', hbase, hlocator', hsum⟩ := h.relative i hrel
  obtain rfl : locator = locator' := Option.some.inj (hi.symm.trans hlocator')
  obtain ⟨base', hbase', hblock⟩ := h.block _ hblk
  obtain rfl : base = base' := Option.some.inj (hbase.symm.trans hbase')
  have hlt := absoluteOffset_lt base
  have hword : (UInt64.ofNat blockOffsets[i / adjacencyLocatorBlockNodes]).toNat =
      absoluteOffset base := by
    rw [hblock, UInt64.toNat_ofNat']
    exact Nat.mod_eq_of_lt hlt
  have hadd : checkedAdd (absoluteOffset base) relativeOffsets[i].toNat =
      some (absoluteOffset locator) := by
    rw [checkedAdd_of_lt (by rw [hsum]; exact absoluteOffset_lt locator), hsum]
  have hu16 : toU16 (absoluteOffset locator % diskannPageSize) =
      some (UInt16.ofNat (absoluteOffset locator % diskannPageSize)) := by
    have hmod := Nat.mod_lt (absoluteOffset locator) (by decide : 0 < diskannPageSize)
    rw [toU16, if_pos (lt_trans hmod (by decide))]
  simp only [AdjacencyIndex.locator, writtenIndex, List.getElem?_eq_getElem hrel,
    List.getElem?_map, hi, List.getElem?_eq_getElem hblk, Option.map_some, Option.bind_eq_bind,
    Option.bind_some, hword, hadd, hu16]
  cases toU32 (absoluteOffset locator / diskannPageSize) <;> rfl

theorem writtenIndex_outside (hi : locators.length ≤ i) :
    (writtenIndex locators blockOffsets relativeOffsets).locator i = none := by
  have hrel : relativeOffsets[i]? = none := by
    rw [List.getElem?_eq_none_iff, h.relatives]
    exact hi
  simp [locator, writtenIndex, hrel]

theorem writtenIndex_block_start {relativeOffset : UInt16}
    (hblock : i % adjacencyLocatorBlockNodes = 0)
    (hi : (writtenIndex locators blockOffsets relativeOffsets).relativeOffsets[i]? =
      some relativeOffset) : relativeOffset = 0 := by
  obtain ⟨hlt, rfl⟩ := List.getElem?_eq_some_iff.mp hi
  obtain ⟨base, locator, hbase, hlocator, hsum⟩ := h.relative i hlt
  rw [Nat.div_mul_cancel (Nat.dvd_of_mod_eq_zero hblock)] at hbase
  obtain rfl : base = locator := Option.some.inj (hbase.symm.trans hlocator)
  apply UInt16.toNat_inj.mp
  change relativeOffsets[i].toNat = 0
  omega

end

theorem map_chunks {α β : Type} {k : Nat} (hk : 0 < k) {encode : α → List UInt8}
    {decode : List UInt8 → β} {l : List α} (hwidth : ∀ x ∈ l, (encode x).length = k) :
    (chunksExact k (l.flatMap encode)).map decode = l.map fun x => decode (encode x) := by
  rw [chunksExact_flatMap hk hwidth, map_map]
  rfl

theorem decodeAdjacencyIndex_written {header : DiskAnnHeader}
    (h : WritesIndex locators blockOffsets relativeOffsets bytes)
    (hcount : header.vectorCount = locators.length)
    (hlen : adjacencyIndexSerializedLen locators.length =
      .ok header.sections.adjacencyIndex.length) :
    decodeAdjacencyIndex bytes header =
      (do validateAdjacencyIndex header (writtenIndex locators blockOffsets relativeOffsets)
          return writtenIndex locators blockOffsets relativeOffsets) := by
  have hw64 : (blockOffsets.flatMap fun offset => u64Bytes (UInt64.ofNat offset)).length =
      blockOffsets.length * 8 := flatMap_length_of_width fun x _ => u64Bytes_length _
  have hw16 : (relativeOffsets.flatMap u16Bytes).length = relativeOffsets.length * 2 :=
    flatMap_length_of_width fun x _ => u16Bytes_length _
  have hwf : (locators.flatMap fun locator => u16Bytes locator.degreeAndFlags).length =
      locators.length * 2 := flatMap_length_of_width fun x _ => u16Bytes_length _
  have hlen' := hlen
  simp only [adjacencyIndexSerializedLen, accepted, ← h.blocks] at hlen'
  obtain ⟨_, ⟨rfl, hblockFits⟩, _, ⟨rfl, hlocFits⟩, hsum, hsumFits⟩ := hlen'
  rw [h.relatives] at hw16
  have hbytes : bytes.length = header.sections.adjacencyIndex.length := by
    rw [h.bytes, length_append, length_append, hw64, hw16, hwf]
    omega
  have hblocks : (bytes.take (blockOffsets.length * 8)) =
      blockOffsets.flatMap fun offset => u64Bytes (UInt64.ofNat offset) := by
    rw [h.bytes, append_assoc, ← hw64, take_left]
  have hrelatives : (bytes.take (blockOffsets.length * 8 + locators.length * 2)).drop
      (blockOffsets.length * 8) = relativeOffsets.flatMap u16Bytes := by
    rw [drop_take, Nat.add_sub_cancel_left, h.bytes, append_assoc, ← hw64,
      drop_left, ← hw16, take_left]
  have hflags : bytes.drop (blockOffsets.length * 8 + locators.length * 2) =
      locators.flatMap fun locator => u16Bytes locator.degreeAndFlags := by
    rw [h.bytes, ← hw64, ← hw16, ← length_append, drop_left]
  simp only [decodeAdjacencyIndex, hcount, hlen, ok_bind, ← h.blocks,
    checkedMul_of_lt hblockFits, checkedMul_of_lt (by omega : locators.length * 2 < wordSize),
    okOr_some, hbytes,
    checkedAdd_of_lt (by omega : blockOffsets.length * 8 + locators.length * 2 < wordSize)]
  rw [rejectIf_bind (by simp), rejectIf_bind (by simp), hblocks, hrelatives,
    hflags, map_chunks (by decide) (fun x _ => u64Bytes_length _),
    map_chunks (by decide) (fun x _ => u16Bytes_length _),
    map_chunks (by decide) (fun x _ => u16Bytes_length _)]
  simp only [u64OfBytes_u64Bytes, u16OfBytes_u16Bytes, map_id']
  rfl

end

/-- The reader accepts the index and every page, and finds each list through
its locator. -/
def ReadsBack (header : DiskAnnHeader) (indexBytes : List UInt8) (pages : List (List UInt8))
    (adjacency : List (List UInt32)) : Prop :=
  ∃ index, decodeAdjacencyIndex indexBytes header = .ok index ∧
    (∀ p (hp : p < pages.length),
      validateAdjacencyPagePayload header index p pages[p] = .ok ()) ∧
    ∀ i (hi : i < adjacency.length), ∃ locator page consumed,
      index.locator i = some locator ∧ pages[locator.pageIndex.toNat]? = some page ∧
        decodeAdjacencyList (page.drop locator.byteOffset.toNat) locator.degree locator.encoding =
          .ok (adjacency[i], consumed)

def recordStarts (vectorBytes : Nat) (adjacency : List (List UInt32)) : List Nat :=
  (place diskannPageSize 0 0 (recordBytes vectorBytes adjacency)).map Prod.snd

/-- No list that the reader must find sits at the very end of a page: in the
compact layout the last one, in the interleaved layout any. -/
def BoundaryFree (d : Nat) (build : DiskAnnBuildParams) (adjacency : List (List UInt32)) : Prop :=
  let vectorBytes := interleavedVectorBytes d build
  match build.storageLayout with
  | .compact => (recordStarts vectorBytes adjacency).getLastD 0 ≠ diskannPageSize
  | .interleaved =>
    ∀ start ∈ recordStarts vectorBytes adjacency, start + vectorBytes ≠ diskannPageSize

theorem validateRawVectorBytes_encode {f16FromF32 : F32 → UInt16} {vector : List F32}
    {encoding : DiskAnnRawVectorEncoding} {bytes : List UInt8}
    (hfinite : ∀ x ∈ vector, x.isFinite = true)
    (h : encodeRawVector f16FromF32 vector encoding = .ok bytes) :
    validateRawVectorBytes bytes encoding = .ok () := by
  have hlen := encodeRawVector_length h
  apply rejectIf_of_not
  rw [not_or]
  refine ⟨by rw [hlen, Nat.mul_mod_left]; simp, ?_⟩
  cases encoding with
  | f32 =>
    cases h
    simp only [chunksExact_flatMap (by decide : 0 < 4) fun x _ => F32.toBytes_length x]
    simpa using hfinite
  | f16 =>
    simp only [encodeRawVector, accepted] at h
    obtain ⟨hall, rfl⟩ := h
    simp only [chunksExact_flatMap (by decide : 0 < 2) fun x _ => u16Bytes_length (f16FromF32 x)]
    simpa using hall

/-- A successful write of the adjacency sections of a build. -/
structure Emitted {d : Nat} (f16FromF32 : F32 → UInt16) (build : DiskAnnBuildParams)
    (prepared : PreparedDiskAnn d) (layout : AdjacencyLayout) (indexBytes : List UInt8)
    (pages : List (List UInt8)) (header : DiskAnnHeader) : Prop where
  plan : planAdjacencyLayout prepared.adjacency (interleavedVectorBytes d build) = .ok layout
  index : writeAdjacencyIndex layout = .ok indexBytes
  pages : writeAdjacencyPages f16FromF32 build prepared layout = .ok pages
  header : ∃ entryNode pqM pqBits rowIdsLen, forLayout d prepared.adjacency.length
    entryNode pqM pqBits build rowIdsLen layout.pageCount = .ok header

section Emitted

variable {d : Nat} {f16FromF32 : F32 → UInt16} {build : DiskAnnBuildParams}
  {prepared : PreparedDiskAnn d} {layout : AdjacencyLayout} {indexBytes : List UInt8}
  {pages : List (List UInt8)} {header : DiskAnnHeader}

def plannedPosition (build : DiskAnnBuildParams) (prepared : PreparedDiskAnn d) (i : Nat) :
    Nat × Nat :=
  (place diskannPageSize 0 0
    (recordBytes (interleavedVectorBytes d build) prepared.adjacency)).getD i (0, 0)

section

variable (h : Emitted f16FromF32 build prepared layout indexBytes pages header)

include h

theorem Emitted.describes :
    header.Describes d prepared.adjacency.length build layout.pageCount := by
  obtain ⟨entryNode, pqM, pqBits, rowIdsLen, hheader⟩ := h.header
  exact forLayout_describes hheader

theorem Emitted.recordPrefix :
    header.recordPrefix = interleavedVectorBytes d build := by
  unfold DiskAnnHeader.recordPrefix DiskAnnHeader.isInterleaved interleavedVectorBytes
  rw [h.describes.storageLayout, h.describes.vectorRecordSize]
  cases build.storageLayout <;> simp

theorem Emitted.planned :
    List.Forall₂ (fun locator (entry : List UInt32 × Nat × Nat) =>
        locator.Plans (interleavedVectorBytes d build) entry.1 entry.2) layout.locators
      (prepared.adjacency.zip (place diskannPageSize 0 0
        (recordBytes (interleavedVectorBytes d build) prepared.adjacency))) ∧
      layout.pageCount =
        (plannedPosition build prepared (prepared.adjacency.length - 1)).1 + 1 := by
  have hplan := h.plan
  simp only [planAdjacencyLayout, accepted, Prod.exists] at hplan
  obtain ⟨locators, last, hlocators, rfl⟩ := hplan
  obtain ⟨hforall, hlast⟩ := planLocatorsFrom_spec hlocators
  refine ⟨hforall, ?_⟩
  dsimp only
  rw [hlast]
  have hget := place_getLastD (C := diskannPageSize)
    (recordBytes (interleavedVectorBytes d build) prepared.adjacency)
  simpa [plannedPosition, recordBytes] using hget

theorem Emitted.locators_length :
    layout.locators.length = prepared.adjacency.length := by
  simpa [recordBytes] using h.planned.1.length_eq

theorem Emitted.locator (hi : i < prepared.adjacency.length) :
    ∃ locator, layout.locators[i]? = some locator ∧
      locator.Plans (interleavedVectorBytes d build) prepared.adjacency[i]
        (plannedPosition build prepared i) := by
  have hlen := h.locators_length
  have hget := (forall₂_iff_get.mp h.planned.1).2 i (by omega) (by simpa [recordBytes] using hi)
  refine ⟨layout.locators[i], List.getElem?_eq_getElem (by omega), ?_⟩
  simpa [plannedPosition, getD_eq_getElem?_getD, recordBytes, hi] using hget

theorem Emitted.recordBytes_getD (hi : i < prepared.adjacency.length) :
    (recordBytes (interleavedVectorBytes d build) prepared.adjacency).getD i 0 =
      nodeSize header prepared.adjacency i := by
  simp [nodeSize, recordBytes, h.recordPrefix, getD_eq_getElem?_getD, hi]

theorem Emitted.packing :
    Packing diskannPageSize prepared.adjacency.length (nodeSize header prepared.adjacency)
      (fun i => (plannedPosition build prepared i).1)
      (fun i => (plannedPosition build prepared i).2) := by
  have hsizes : ∀ s ∈ recordBytes (interleavedVectorBytes d build) prepared.adjacency,
      s ≤ diskannPageSize := by
    intro s hs
    obtain ⟨i, hi, rfl⟩ := getElem_of_mem hs
    have hi' : i < prepared.adjacency.length := by simpa [recordBytes] using hi
    obtain ⟨locator, -, hplans⟩ := h.locator hi'
    simpa [recordBytes] using hplans.fits
  have hpack := place_packing hsizes
  rw [show (recordBytes (interleavedVectorBytes d build) prepared.adjacency).length =
    prepared.adjacency.length by simp [recordBytes]] at hpack
  exact hpack.congr fun i hi => h.recordBytes_getD hi

end

def nodeVectorBytes (f16FromF32 : F32 → UInt16) (build : DiskAnnBuildParams)
    (prepared : PreparedDiskAnn d) (i : Nat) : List UInt8 :=
  vectorPrefix f16FromF32 build (prepared.vectors.getD i [])

section

variable (h : Emitted f16FromF32 build prepared layout indexBytes pages header)

include h

theorem Emitted.assembled :
    let records := (prepared.adjacency.zip prepared.vectors).map (nodeRecord f16FromF32 build)
    pages = assemble diskannPageSize 0 [] records ∧
      records.map List.length =
        recordBytes (interleavedVectorBytes d build) prepared.adjacency := by
  have hpages := h.pages
  simp only [writeAdjacencyPages, accepted] at hpages
  obtain ⟨-, hwrite⟩ := hpages
  have hfst : (prepared.adjacency.zip prepared.vectors).map Prod.fst = prepared.adjacency :=
    map_fst_zip prepared.vectors_length.ge
  have hdim : ∀ node ∈ prepared.adjacency.zip prepared.vectors, node.2.length = d :=
    fun node hnode => prepared.vector_dimension _ (of_mem_zip hnode).2
  have hplanned := h.planned.1
  rw [← hfst] at hplanned
  rw [zeroPage_eq] at hwrite
  have hspec := writePagesFrom_spec hdim (Nat.zero_le _) hplanned hwrite
  rwa [hfst] at hspec

theorem Emitted.vectorBytes_valid (hi : i < prepared.adjacency.length) :
    ValidPrefix header (nodeVectorBytes f16FromF32 build prepared i) := by
  obtain ⟨locator, -, hplans⟩ := h.locator hi
  have hi' : i < prepared.vectors.length := prepared.vectors_length ▸ hi
  have hlist := (encodeAdjacencyList_listBytes hplans.plan).2
  have hsizes := congrArg (fun l => l.getD i 0) h.assembled.2
  have hlength : (nodeVectorBytes f16FromF32 build prepared i).length = header.recordPrefix := by
    rw [h.recordPrefix]
    simpa [nodeVectorBytes, recordBytes, nodeRecord, getD_eq_getElem?_getD, hi, hi', hlist]
      using hsizes
  refine ⟨hlength, fun hinterleaved => ?_⟩
  have hlayout : build.storageLayout = .interleaved := by
    rw [← h.describes.storageLayout]
    simpa [isInterleaved] using hinterleaved
  have hmem : prepared.vectors[i] ∈ prepared.vectors := getElem_mem hi'
  rw [h.describes.rawVectorEncoding]
  cases hencode : encodeRawVector f16FromF32 prepared.vectors[i] build.rawVectorEncoding with
  | error e =>
    have hdim := h.describes.dimension_pos
    have hzero : d * build.rawVectorEncoding.elementSize = 0 := by
      rw [h.recordPrefix] at hlength
      simpa [nodeVectorBytes, vectorPrefix, interleavedVectorBytes, hlayout, hencode,
        getD_eq_getElem?_getD, hi', Except.toOption, eq_comm] using hlength
    cases hcase : build.rawVectorEncoding <;>
      simp only [hcase, DiskAnnRawVectorEncoding.elementSize] at hzero <;> omega
  | ok bytes =>
    have hbytes : nodeVectorBytes f16FromF32 build prepared i = bytes := by
      simp [nodeVectorBytes, vectorPrefix, hlayout, hencode, getD_eq_getElem?_getD, hi',
        Except.toOption]
    rw [hbytes]
    exact validateRawVectorBytes_encode (prepared.vector_finite _ hmem) hencode

theorem Emitted.stored :
    Stored diskannPageSize prepared.adjacency.length (nodeSize header prepared.adjacency)
      (fun i => (plannedPosition build prepared i).1)
      (fun i => (plannedPosition build prepared i).2) 0
      (fun i => nodeVectorBytes f16FromF32 build prepared i ++
        listBytes (prepared.adjacency.getD i [])) (fun p => pages.getD p []) := by
  obtain ⟨hpages, hsizes⟩ := h.assembled
  have hfits : ∀ r ∈ (prepared.adjacency.zip prepared.vectors).map (nodeRecord f16FromF32 build),
      r.length ≤ diskannPageSize := by
    intro r hr
    have hmem := mem_map_of_mem (f := List.length) hr
    rw [hsizes] at hmem
    obtain ⟨i, hi, heq⟩ := getElem_of_mem hmem
    have hi' : i < prepared.adjacency.length := by simpa [recordBytes] using hi
    have hfit := h.packing.fits i hi'
    rw [← h.recordBytes_getD hi', getD_eq_getElem?_getD, List.getElem?_eq_getElem hi,
      Option.getD_some, heq] at hfit
    omega
  have hstored := assemble_stored (0 : UInt8) hfits
  rw [hsizes, ← hpages] at hstored
  rw [show ((prepared.adjacency.zip prepared.vectors).map (nodeRecord f16FromF32 build)).length =
    prepared.adjacency.length by simp [prepared.vectors_length]] at hstored
  apply hstored.congr (fun i hi => h.recordBytes_getD hi)
  intro i hi
  have hi' : i < prepared.vectors.length := prepared.vectors_length ▸ hi
  simp [nodeRecord, nodeVectorBytes, getD_eq_getElem?_getD, hi, hi']

theorem Emitted.pages_length :
    pages.length = layout.pageCount := by
  obtain ⟨hpages, hsizes⟩ := h.assembled
  have hcount := assemble_count diskannPageSize (0 : UInt8) 0 []
    ((prepared.adjacency.zip prepared.vectors).map (nodeRecord f16FromF32 build))
  rw [hsizes, ← hpages, length_nil, place_getLastD] at hcount
  rw [h.planned.2]
  simpa [plannedPosition, recordBytes] using hcount

end

def readPage (build : DiskAnnBuildParams) (prepared : PreparedDiskAnn d) (i : Nat) : Nat :=
  ((plannedPosition build prepared i).1 * diskannPageSize + (plannedPosition build prepared i).2) /
    diskannPageSize

def readOffset (build : DiskAnnBuildParams) (prepared : PreparedDiskAnn d) (i : Nat) : Nat :=
  ((plannedPosition build prepared i).1 * diskannPageSize + (plannedPosition build prepared i).2) %
    diskannPageSize

/-- Where the reader divides the offset of a list, it finds the page that the list is in. -/
structure ReadableStarts (build : DiskAnnBuildParams) (prepared : PreparedDiskAnn d) : Prop where
  inner : ∀ i < prepared.adjacency.length, interleavedVectorBytes d build = 0 ∨
    (plannedPosition build prepared i).2 + interleavedVectorBytes d build < diskannPageSize
  last : (plannedPosition build prepared (prepared.adjacency.length - 1)).2 < diskannPageSize

theorem Emitted.readPage_last
    (h : Emitted f16FromF32 build prepared layout indexBytes pages header)
    (hfree : ReadableStarts build prepared) :
    readPage build prepared (prepared.adjacency.length - 1) + 1 = layout.pageCount := by
  rw [readPage, (div_mod_of_lt hfree.last).1, h.planned.2]

theorem Emitted.locates (h : Emitted f16FromF32 build prepared layout indexBytes pages header)
    {blockOffsets : List Nat} {relativeOffsets : List UInt16}
    (hwrites : WritesIndex layout.locators blockOffsets relativeOffsets indexBytes)
    (hfree : ReadableStarts build prepared) :
    (writtenIndex layout.locators blockOffsets relativeOffsets).Locates prepared.adjacency
      header.recordPrefix (readPage build prepared) (readOffset build prepared) := by
  refine ⟨?_, ?_, ?_⟩
  · intro i neighbors hneighbors
    obtain ⟨hi, rfl⟩ := List.getElem?_eq_some_iff.mp hneighbors
    obtain ⟨locator, hlocator, hplans⟩ := h.locator hi
    have hread : absoluteOffset locator / diskannPageSize = readPage build prepared i ∧
        absoluteOffset locator % diskannPageSize =
          readOffset build prepared i + interleavedVectorBytes d build := by
      rw [hplans.absoluteOffset_eq]
      rcases hfree.inner i hi with hzero | hlt
      · simp [hzero, readPage, readOffset]
      · rw [(div_mod_of_lt hlt).1, (div_mod_of_lt hlt).2, readPage, readOffset,
          (div_mod_of_lt (Nat.lt_of_add_right_lt hlt)).1,
          (div_mod_of_lt (Nat.lt_of_add_right_lt hlt)).2]
        exact ⟨rfl, rfl⟩
    have hpageLt : readPage build prepared i < 2 ^ 32 := by
      have hmono := (h.packing.normalize (by decide)).page_mono (Nat.le_sub_one_of_lt hi)
        (Nat.sub_one_lt_of_lt hi)
      have hend := h.readPage_last hfree
      have hpages := h.describes.pages_lt
      change readPage build prepared i ≤ readPage build prepared _ at hmono
      omega
    have hindex := writtenIndex_locator hwrites hlocator
    rw [hread.1, hread.2, toU32, if_pos hpageLt, Option.map_some] at hindex
    refine ⟨_, hindex, ?_⟩
    have hoffsetLt : readOffset build prepared i + interleavedVectorBytes d build < 2 ^ 16 := by
      rw [← hread.2]
      exact lt_trans (Nat.mod_lt _ (by decide)) (by decide)
    rw [h.recordPrefix]
    exact {
      plan := hplans.plan
      fits := hplans.fits
      page := by simpa using Nat.mod_eq_of_lt hpageLt
      offset := by simpa using Nat.mod_eq_of_lt hoffsetLt
      degree := hplans.degree }
  · intro i hi
    exact writtenIndex_outside hwrites (h.locators_length ▸ hi)
  · simp only [len, writtenIndex, hwrites.relatives, h.locators_length]

theorem boundaryFree_iff (build : DiskAnnBuildParams) (prepared : PreparedDiskAnn d)
    (hne : 0 < prepared.adjacency.length)
    (hfits : ∀ i < prepared.adjacency.length, (plannedPosition build prepared i).2 +
      interleavedVectorBytes d build ≤ diskannPageSize)
    (hvector : build.storageLayout = .interleaved → 0 < interleavedVectorBytes d build) :
    BoundaryFree d build prepared.adjacency ↔ ReadableStarts build prepared := by
  have hlast := hfits (prepared.adjacency.length - 1) (by omega)
  have hstart : ∀ i < prepared.adjacency.length,
      (recordStarts (interleavedVectorBytes d build) prepared.adjacency)[i]? =
        some (plannedPosition build prepared i).2 := by
    intro i hi
    simp [recordStarts, plannedPosition, recordBytes, getD_eq_getElem?_getD, hi]
  have hlength : (recordStarts (interleavedVectorBytes d build) prepared.adjacency).length =
      prepared.adjacency.length := by simp [recordStarts, recordBytes]
  unfold BoundaryFree
  cases hlayout : build.storageLayout with
  | compact =>
    have hzero : interleavedVectorBytes d build = 0 := by simp [interleavedVectorBytes, hlayout]
    have hend : (recordStarts (interleavedVectorBytes d build) prepared.adjacency).getLastD 0 =
        (plannedPosition build prepared (prepared.adjacency.length - 1)).2 := by
      rw [getLastD_eq_getLast?, List.getLast?_eq_getElem?, hlength, hstart _ (by omega)]
      rfl
    simp only [hend]
    constructor
    · intro hne
      exact ⟨fun _ _ => Or.inl hzero, by omega⟩
    · rintro ⟨-, hlt⟩
      omega
  | interleaved =>
    have hpos := hvector hlayout
    simp only
    constructor
    · intro hall
      have hlt : ∀ i < prepared.adjacency.length, (plannedPosition build prepared i).2 +
          interleavedVectorBytes d build < diskannPageSize := by
        intro i hi
        have := hall _ (mem_of_getElem? (hstart i hi))
        have := hfits i hi
        omega
      have := hlt (prepared.adjacency.length - 1) (by omega)
      exact ⟨fun i hi => Or.inr (hlt i hi), by omega⟩
    · rintro ⟨hall, -⟩ start hmem
      obtain ⟨i, hi, rfl⟩ := getElem_of_mem hmem
      have hget := hstart i (hlength ▸ hi)
      rw [List.getElem?_eq_getElem hi, Option.some.injEq] at hget
      rw [hget]
      rcases hall i (hlength ▸ hi) with hz | hlt <;> omega

section

variable (h : Emitted f16FromF32 build prepared layout indexBytes pages header)

include h

theorem Emitted.decode_eq {blockOffsets : List Nat} {relativeOffsets : List UInt16}
    (hwrites : WritesIndex layout.locators blockOffsets relativeOffsets indexBytes) :
    decodeAdjacencyIndex indexBytes header = (do
      validateAdjacencyIndex header (writtenIndex layout.locators blockOffsets relativeOffsets)
      return writtenIndex layout.locators blockOffsets relativeOffsets) :=
  decodeAdjacencyIndex_written hwrites (by rw [h.describes.vectorCount, h.locators_length])
    (by rw [h.locators_length]; exact h.describes.adjacencyIndexLen)

theorem Emitted.start_le (hi : i < prepared.adjacency.length) :
    (plannedPosition build prepared i).2 + interleavedVectorBytes d build ≤ diskannPageSize := by
  have hfit := h.packing.fits i hi
  rw [nodeSize_eq header hi, h.recordPrefix] at hfit
  omega

theorem Emitted.boundaryFree_iff :
    BoundaryFree d build prepared.adjacency ↔ ReadableStarts build prepared := by
  apply PaimonVindex.boundaryFree_iff build prepared h.describes.vectorCount_pos
  · exact fun i hi => h.start_le hi
  · intro hlayout
    have hdim := h.describes.dimension_pos
    simp only [interleavedVectorBytes, hlayout]
    exact Nat.mul_pos hdim (by cases build.rawVectorEncoding <;> decide)

theorem Emitted.readsBack (hgraph : GraphInvariant prepared.adjacency build.maxDegree)
    (hfree : BoundaryFree d build prepared.adjacency) :
    ReadsBack header indexBytes pages prepared.adjacency := by
  have hstarts := h.boundaryFree_iff.mp hfree
  obtain ⟨blockOffsets, relativeOffsets, hwrites⟩ := writeAdjacencyIndex_spec h.index
  have hloc := h.locates hwrites hstarts
  have hdesc := h.describes
  have hpack := h.packing.normalize (by decide : 0 < diskannPageSize)
  have hstored := h.stored.normalize h.packing fun i hi => by
    obtain rfl : i = prepared.adjacency.length - 1 := by omega
    exact hstarts.last
  have hend := h.readPage_last hstarts
  have hcount := h.pages_length
  rw [← hdesc.maxDegree] at hgraph
  have hvalid : validateAdjacencyIndex header
      (writtenIndex layout.locators blockOffsets relativeOffsets) = .ok () := by
    apply validateAdjacencyIndex_accepts hloc hpack hgraph.degree hdesc.vectorCount
      hdesc.vectorCount_pos hdesc.adjacencyLen hdesc.pages_lt hend
    · simp [len, writtenIndex, hwrites.relatives]
    · simp [len, writtenIndex, hwrites.relatives, hwrites.blocks]
    · exact fun i relativeOffset hblock hget => writtenIndex_block_start hwrites hblock hget
  refine ⟨writtenIndex layout.locators blockOffsets relativeOffsets, ?_, ?_, ?_⟩
  · rw [h.decode_eq hwrites, hvalid]
    rfl
  · intro p hp
    have haccept := validateAdjacencyPagePayload_accepts hloc hpack hgraph hdesc.vectorCount
      (fun i hi => h.vectorBytes_valid hi) hstored
      (by omega : p ≤ readPage build prepared _) hdesc.vectorCount_pos
    simpa [getD_eq_getElem?_getD, hp] using haccept
  · intro i hi
    obtain ⟨locator, hlocator, hplans⟩ := hloc.located i _ (List.getElem?_eq_getElem hi)
    have hmono := hpack.page_mono (Nat.le_sub_one_of_lt hi) (Nat.sub_one_lt_of_lt hi)
    change readPage build prepared i ≤ readPage build prepared _ at hmono
    have hpage : readPage build prepared i < pages.length := by omega
    have hholds := hstored.holds i hi
    change ((pages.getD (readPage build prepared i) []).drop (readOffset build prepared i)).take _ =
      _ at hholds
    obtain ⟨-, hlist⟩ := record_split (h.vectorBytes_valid hi) hholds
    refine ⟨locator, pages[readPage build prepared i],
      (listBytes prepared.adjacency[i]).length, hlocator, ?_, ?_⟩
    · rw [hplans.page]
      exact List.getElem?_eq_getElem hpage
    · rw [hplans.offset, hplans.degree]
      simp only [getD_eq_getElem?_getD, List.getElem?_eq_getElem hpage,
        List.getElem?_eq_getElem hi, Option.getD_some] at hlist
      rw [hlist]
      exact decodeAdjacencyList_encode (encodeAdjacencyList_listBytes hplans.plan).1 _

theorem Emitted.read_bounds {index : AdjacencyIndex}
    (hdecode : decodeAdjacencyIndex indexBytes header = .ok index)
    (hi : i < prepared.adjacency.length) :
    let offset := (plannedPosition build prepared i).1 * diskannPageSize +
      ((plannedPosition build prepared i).2 + interleavedVectorBytes d build)
    offset / diskannPageSize < layout.pageCount ∧
      interleavedVectorBytes d build ≤ offset % diskannPageSize := by
  obtain ⟨blockOffsets, relativeOffsets, hwrites⟩ := writeAdjacencyIndex_spec h.index
  have hdesc := h.describes
  rw [h.decode_eq hwrites] at hdecode
  obtain ⟨_, hvalid, -⟩ := bind_eq_ok.mp hdecode
  obtain ⟨locator, hlocator, hplans⟩ := h.locator hi
  have hin : i < (writtenIndex layout.locators blockOffsets relativeOffsets).len := by
    simpa [len, writtenIndex, hwrites.relatives, h.locators_length] using hi
  obtain ⟨-, hsteps⟩ := validateAdjacencyIndex_steps hvalid
  have hfound := hsteps.located i hin
  have hpage := hsteps.page_lt i hin
  have hoffset := hsteps.offset_ge i hin
  rw [pageOf, hdesc.adjacencyLen, Nat.mul_div_cancel _ (by decide)] at hpage
  generalize locatorAt _ i = found at hfound hpage hoffset
  rw [writtenIndex_locator hwrites hlocator, Option.map_eq_some_iff] at hfound
  obtain ⟨pageIndex, hpageIndex, rfl⟩ := hfound
  rw [toU32_eq_some] at hpageIndex
  dsimp only
  rw [← hplans.absoluteOffset_eq, ← hpageIndex, ← h.recordPrefix]
  refine ⟨hpage, le_trans hoffset ?_⟩
  simpa using Nat.mod_le _ _

theorem Emitted.boundaryFree (hreads : ReadsBack header indexBytes pages prepared.adjacency) :
    BoundaryFree d build prepared.adjacency := by
  obtain ⟨index, hdecode, -⟩ := hreads
  rw [h.boundaryFree_iff]
  constructor
  · intro i hi
    by_contra hbad
    rw [not_or] at hbad
    have hstart := h.start_le hi
    have hfull : (plannedPosition build prepared i).2 + interleavedVectorBytes d build =
        diskannPageSize := by omega
    have hoffset := (h.read_bounds hdecode hi).2
    rw [hfull, (div_mod_of_eq (by decide)).2] at hoffset
    omega
  · by_contra hbad
    have hlast := Nat.sub_one_lt_of_lt h.describes.vectorCount_pos
    have hstart := h.start_le hlast
    have hfull : (plannedPosition build prepared (prepared.adjacency.length - 1)).2 +
        interleavedVectorBytes d build = diskannPageSize := by omega
    have hpage := (h.read_bounds hdecode hlast).1
    rw [hfull, (div_mod_of_eq (by decide)).1, h.planned.2] at hpage
    omega

end

end Emitted

structure AdjacencySections where
  header : DiskAnnHeader
  indexBytes : List UInt8
  pages : List (List UInt8)

/-- The part of a DiskANN write that plans and emits the adjacency sections. -/
def writeAdjacencySections {d : Nat} (f16FromF32 : F32 → UInt16) (build : DiskAnnBuildParams)
    (prepared : PreparedDiskAnn d) (entryNode : UInt32) (pqM pqBits rowIdsLen : Nat) :
    IoResult AdjacencySections := do
  let layout ← planAdjacencyLayout prepared.adjacency (interleavedVectorBytes d build)
  let header ← forLayout d prepared.adjacency.length entryNode pqM pqBits build
    rowIdsLen layout.pageCount
  let indexBytes ← writeAdjacencyIndex layout
  let pages ← writeAdjacencyPages f16FromF32 build prepared layout
  return ⟨header, indexBytes, pages⟩

theorem writeAdjacencySections_emitted {d : Nat} {f16FromF32 : F32 → UInt16}
    {build : DiskAnnBuildParams} {prepared : PreparedDiskAnn d} {entryNode : UInt32}
    {pqM pqBits rowIdsLen : Nat} {sections : AdjacencySections}
    (h : writeAdjacencySections f16FromF32 build prepared entryNode pqM pqBits rowIdsLen =
      .ok sections) :
    ∃ layout, Emitted f16FromF32 build prepared layout sections.indexBytes sections.pages
      sections.header := by
  simp only [writeAdjacencySections, accepted] at h
  obtain ⟨layout, hplan, header, hheader, indexBytes, hindex, pages, hpages, rfl⟩ := h
  exact ⟨layout, hplan, hindex, hpages, entryNode, pqM, pqBits, rowIdsLen, hheader⟩

/-- What the writers emit is read back exactly when no list that must be found
starts at the very end of a page. -/
theorem adjacency_sections_round_trip {d : Nat} (f16FromF32 : F32 → UInt16)
    (build : DiskAnnBuildParams) (prepared : PreparedDiskAnn d) (entryNode : UInt32)
    (pqM pqBits rowIdsLen : Nat) (sections : AdjacencySections)
    (hgraph : GraphInvariant prepared.adjacency build.maxDegree)
    (hwrite : writeAdjacencySections f16FromF32 build prepared entryNode pqM pqBits rowIdsLen =
      .ok sections) :
    ReadsBack sections.header sections.indexBytes sections.pages prepared.adjacency ↔
      BoundaryFree d build prepared.adjacency := by
  obtain ⟨layout, h⟩ := writeAdjacencySections_emitted hwrite
  exact ⟨h.boundaryFree, h.readsBack hgraph⟩

def zeroVectors (n d : Nat) : List (List F32) := List.replicate n (List.replicate d F32.zero)

theorem zeroVectors_dimension (n d : Nat) : ∀ vector ∈ zeroVectors n d, vector.length = d := by
  intro vector hvector
  rw [(mem_replicate.mp hvector).2, length_replicate]

theorem zeroVectors_finite (n d : Nat) :
    ∀ vector ∈ zeroVectors n d, ∀ x ∈ vector, x.isFinite = true := by
  intro vector hvector x hx
  rw [(mem_replicate.mp hvector).2] at hx
  rw [(mem_replicate.mp hx).2]
  decide

/-- Three nodes whose interleaved records fill the first page; the last list is
empty and starts at the page end. -/
def fullPageGraph : PreparedDiskAnn 341 where
  adjacency := [[1, 2], [0, 2], []]
  vectors := zeroVectors 3 341
  vectors_length := length_replicate
  vector_dimension := zeroVectors_dimension 3 341
  vector_finite := zeroVectors_finite 3 341

def fullPageBuild : DiskAnnBuildParams where
  maxDegree := 2
  buildSearchListSize := 2
  alpha := F32.one
  storageLayout := .interleaved
  rawVectorEncoding := .f32

/-- The same lists in the compact layout leave room in their page. -/
def sparePageBuild : DiskAnnBuildParams := { fullPageBuild with storageLayout := .compact }

theorem fullPageGraph_invariant : GraphInvariant fullPageGraph.adjacency 2 where
  increasing := by simp [fullPageGraph]
  inRange := by simp [fullPageGraph]
  noSelf := by
    intro i neighbors hget
    match i with
    | 0 | 1 | 2 =>
      cases hget
      simp
    | i + 3 => cases hget
  degree := by simp [fullPageGraph]

theorem adjacency_sections_full_page :
    ∃ sections, writeAdjacencySections (fun _ => 0) fullPageBuild fullPageGraph 0 1 8 32 =
        .ok sections ∧
      GraphInvariant fullPageGraph.adjacency fullPageBuild.maxDegree ∧
      ¬ReadsBack sections.header sections.indexBytes sections.pages fullPageGraph.adjacency := by
  have hok : (writeAdjacencySections (fun _ => 0) fullPageBuild fullPageGraph 0 1 8 32).isOk =
      true := by decide +kernel
  obtain ⟨sections, hwrite⟩ := exists_ok_of_isOk hok
  obtain ⟨layout, h⟩ := writeAdjacencySections_emitted hwrite
  refine ⟨sections, hwrite, fullPageGraph_invariant, fun hreads => ?_⟩
  have hfree := h.boundaryFree hreads
  have hfull : (2732 : Nat) ∈ recordStarts (interleavedVectorBytes 341 fullPageBuild)
      fullPageGraph.adjacency := by decide +kernel
  exact hfree 2732 hfull rfl

theorem adjacency_sections_spare_page :
    ∃ sections, writeAdjacencySections (fun _ => 0) sparePageBuild fullPageGraph 0 1 8 32 =
        .ok sections ∧
      ReadsBack sections.header sections.indexBytes sections.pages fullPageGraph.adjacency := by
  have hok : (writeAdjacencySections (fun _ => 0) sparePageBuild fullPageGraph 0 1 8 32).isOk =
      true := by decide +kernel
  obtain ⟨sections, hwrite⟩ := exists_ok_of_isOk hok
  refine ⟨sections, hwrite, ?_⟩
  rw [adjacency_sections_round_trip (fun _ => 0) sparePageBuild fullPageGraph 0 1 8 32 sections
    fullPageGraph_invariant hwrite]
  change (recordStarts 0 fullPageGraph.adjacency).getLastD 0 ≠ diskannPageSize
  decide +kernel

end PaimonVindex
