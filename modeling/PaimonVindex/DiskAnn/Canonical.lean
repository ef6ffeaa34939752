import PaimonVindex.DiskAnn.Accept
import PaimonVindex.Lib.Rows

/-! What the validation of an adjacency section establishes: every list it
accepts is well formed, is stored in its canonical encoding, and the records
fill their pages without a gap. -/

namespace PaimonVindex

open Checked Words Paging AdjacencyIndex List

theorem u32VarintRules_canonical : u32VarintRules.Canonical 4 (2 ^ 32) where
  bounded := by
    intro i hi byte h
    simp only [u32VarintRules, accepted] at h
    have hlow : byte.toNat % 128 < 128 := Nat.mod_lt _ (by decide)
    by_cases hlast : i = 4
    · subst hlast
      have hsmall : byte.toNat ≤ 15 := by
        have := h.1
        omega
      omega
    · calc (byte.toNat % 128 + 1) * 2 ^ (7 * i)
          ≤ 128 * 2 ^ (7 * i) := Nat.mul_le_mul_right _ hlow
        _ ≤ 128 * 2 ^ 21 := Nat.mul_le_mul_left _ (Nat.pow_le_pow_right (by decide) (by omega))
        _ ≤ 2 ^ 32 := by decide
  nonzero := by
    intro i hi byte h hne hsmall hzero
    simp only [u32VarintRules, accepted] at h
    exact h.2 ⟨(Varint.byte_digit byte).2.mpr hsmall, by omega, hzero⟩

variable {bytes : List UInt8} {stop position : Nat}

theorem readU32Varint_eq_ok {value : UInt32}
    (h : readU32Varint bytes position = .ok (value, stop)) :
    appendU32Varint value <+: bytes.drop position ∧
      stop = position + (appendU32Varint value).length := by
  simp only [readU32Varint, accepted, Prod.exists, Prod.mk.injEq] at h
  obtain ⟨number, _, hread, rfl, rfl⟩ := h
  obtain ⟨hlt, hhead, hstop⟩ := Varint.read_canonical u32VarintRules_canonical hread
  have hnumber : (UInt32.ofNat number).toNat = number := UInt32.toNat_ofNat_of_lt' hlt
  rw [appendU32Varint, hnumber]
  exact ⟨hhead, hstop⟩

theorem prefix_append_of_drop {first second : List UInt8} (hfirst : first <+: bytes.drop position)
    (hsecond : second <+: bytes.drop (position + first.length)) :
    first ++ second <+: bytes.drop position := by
  obtain ⟨rest, hrest⟩ := hfirst
  rw [← drop_drop, ← hrest, drop_left] at hsecond
  obtain ⟨tail, rfl⟩ := hsecond
  exact ⟨tail, by rw [← hrest, append_assoc]⟩

variable {neighbors : List UInt32}

theorem decodeDeltas_eq_ok {degree : Nat} {previous : UInt32}
    (h : decodeDeltas bytes degree position previous = .ok (neighbors, stop)) :
    neighbors.length = degree ∧ encodeDeltas previous neighbors <+: bytes.drop position ∧
      stop = position + (encodeDeltas previous neighbors).length := by
  induction degree generalizing position previous neighbors with
  | zero =>
    cases h
    simp [encodeDeltas]
  | succ degree ih =>
    simp only [decodeDeltas, accepted, toU32_eq_some, Prod.exists, Prod.mk.injEq] at h
    obtain ⟨delta, middle, hdelta, neighbor, hneighbor, rest, _, hrest, rfl, rfl⟩ := h
    obtain ⟨hfirst, rfl⟩ := readU32Varint_eq_ok hdelta
    obtain ⟨hlength, hsecond, rfl⟩ := ih hrest
    have hsub : neighbor - previous = delta := by
      have hle : previous ≤ neighbor := by
        rw [UInt32.le_iff_toNat_le]
        omega
      apply UInt32.toNat_inj.mp
      rw [UInt32.toNat_sub_of_le _ _ hle]
      omega
    rw [encodeDeltas, hsub]
    refine ⟨by simp [hlength], prefix_append_of_drop hfirst hsecond, ?_⟩
    rw [length_append, Nat.add_assoc]

theorem decodeRaw_eq_ok {degree consumed : Nat}
    (h : decodeAdjacencyList bytes degree .rawU32 = .ok (neighbors, consumed)) :
    neighbors.length = degree ∧ neighbors.flatMap u32Bytes <+: bytes ∧
      consumed = (neighbors.flatMap u32Bytes).length := by
  simp only [decodeAdjacencyList, accepted, getRange_eq_some, Prod.mk.injEq] at h
  obtain ⟨_, ⟨rfl, -⟩, encoded, ⟨⟨-, hle⟩, hencoded⟩, rfl, rfl⟩ := h
  rw [drop_zero, Nat.sub_zero] at hencoded
  have hlength : encoded.length = degree * 4 := by
    rw [← hencoded, length_take, Nat.min_eq_left hle]
  have hcount : encoded.length / 4 = degree := by
    rw [hlength, Nat.mul_div_cancel _ (by decide)]
  have hbytes : ((chunksExact 4 encoded).map u32OfBytes).flatMap u32Bytes = encoded := by
    have hchunk : ∀ i ∈ List.range degree,
        u32Bytes (u32OfBytes ((encoded.drop (i * 4)).take 4)) = (encoded.drop (i * 4)).take 4 := by
      intro i hi
      have hlt := mem_range.mp hi
      apply u32Bytes_u32OfBytes
      rw [length_take, length_drop, hlength]
      omega
    rw [chunksExact, hcount, map_map, flatMap_map]
    refine (flatMap_congr hchunk).trans ?_
    rw [Rows.flatMap_rows, ← hlength, take_length]
  refine ⟨by simp [hcount], ?_, by rw [hbytes, hlength]⟩
  rw [hbytes, ← hencoded]
  exact List.take_prefix _ _

theorem decodeAdjacencyList_canonical {degree consumed : Nat} {encoding : AdjacencyListEncoding}
    (h : decodeAdjacencyList bytes degree encoding = .ok (neighbors, consumed))
    (hminimal : minimalEncoding neighbors = .ok encoding) :
    neighbors.length = degree ∧
      planAdjacencyList neighbors = .ok (encoding, adjacencyListBytes neighbors) ∧
      listBytes neighbors <+: bytes ∧ consumed = (listBytes neighbors).length := by
  obtain ⟨len, hplan⟩ := minimalEncoding_eq_ok.mp hminimal
  obtain rfl := planAdjacencyList_bytes hplan
  have hencode := (encodeAdjacencyList_listBytes hplan).1
  simp only [encodeAdjacencyList, hplan, ok_bind] at hencode
  cases encoding with
  | deltaVarint =>
    have hlist : encodeDeltas 0 neighbors = listBytes neighbors :=
      congrArg Prod.snd (Except.ok.inj hencode)
    obtain ⟨hlength, hhead, hstop⟩ := decodeDeltas_eq_ok h
    rw [hlist] at hhead hstop
    exact ⟨hlength, hplan, hhead, by omega⟩
  | rawU32 =>
    have hlist : neighbors.flatMap u32Bytes = listBytes neighbors :=
      congrArg Prod.snd (Except.ok.inj hencode)
    obtain ⟨hlength, hhead, hstop⟩ := decodeRaw_eq_ok h
    rw [hlist] at hhead hstop
    exact ⟨hlength, hplan, hhead, hstop⟩

variable {pageCount : Nat}

section Index

variable {header : DiskAnnHeader} {index : AdjacencyIndex}

theorem AdjacencyIndex.Steps.page_mono (h : index.Steps header pageCount) {i j : Nat} (hij : i ≤ j)
    (hj : j < index.len) : index.pageOf i ≤ index.pageOf j := by
  induction j, hij using Nat.le_induction with
  | base => exact le_rfl
  | succ j _ ih =>
    have hle := ih (by omega)
    rcases h.next j hj with hsame | ⟨hnew, -⟩
    · omega
    · omega

theorem AdjacencyIndex.Steps.partitionPoint_eq (h : index.Steps header pageCount) (q : Nat)
    (predicate : AdjacencyLocator → Bool)
    (hpredicate : ∀ locator, predicate locator = true ↔ locator.pageIndex.toNat < q) :
    ∃ cut ≤ index.len, index.partitionPoint predicate = .ok cut ∧
      ∀ i < index.len, index.pageOf i < q ↔ i < cut := by
  obtain ⟨cut, -, hcut, hbelow⟩ : ∃ cut, 0 ≤ cut ∧ cut ≤ index.len ∧
      ∀ i, 0 ≤ i → i < index.len → (index.pageOf i < q ↔ i < cut) :=
    Bisect.exists_cut (Nat.zero_le _) fun i j _ hij hj hq =>
      Nat.lt_of_le_of_lt (h.page_mono hij hj) hq
  refine ⟨cut, hcut, ?_, fun i hi => hbelow i (Nat.zero_le i) hi⟩
  refine partitionPointFrom_eq hcut fun i hi => ?_
  refine ⟨index.locatorAt i, h.located i hi, ?_⟩
  rw [hpredicate]
  exact hbelow i (Nat.zero_le i) hi

end Index

section Page

variable {header : DiskAnnHeader} {index : AdjacencyIndex} {payload : List UInt8}

/-- The record of a node that was found at `start`, up to its end. -/
structure RecordAt (header : DiskAnnHeader) (index : AdjacencyIndex) (payload : List UInt8)
    (node start stop : Nat) (neighbors : List UInt32) : Prop where
  offset : (index.locatorAt node).byteOffset.toNat = start + header.recordPrefix
  degree : (index.locatorAt node).degree = neighbors.length
  plan : planAdjacencyList neighbors =
    .ok ((index.locatorAt node).encoding, adjacencyListBytes neighbors)
  stored : listBytes neighbors <+: payload.drop (start + header.recordPrefix)
  stop_eq : stop = start + header.recordPrefix + (listBytes neighbors).length
  inside : start + header.recordPrefix ≤ payload.length
  vector : ValidPrefix header ((payload.drop start).take header.recordPrefix)
  next : ∀ next, index.locator (node + 1) = some next →
    next.pageIndex = (index.locatorAt node).pageIndex →
    next.byteOffset.toNat = stop + header.recordPrefix
  neighbors_valid : ∀ x ∈ neighbors, x.toNat < header.vectorCount ∧ x.toNat ≠ node
  increasing : neighbors.Pairwise (· < ·)

theorem RecordAt.stop_le {node start : Nat} {neighbors : List UInt32}
    (h : RecordAt header index payload node start stop neighbors) : stop ≤ payload.length := by
  have hlength := h.stored.length_le
  have hinside := h.inside
  rw [length_drop] at hlength
  rw [h.stop_eq]
  omega

theorem validateRecord_eq_ok {node start : Nat}
    (h : validateRecord header index payload node start = .ok stop) :
    ∃ neighbors, RecordAt header index payload node start stop neighbors := by
  simp only [validateRecord, accepted, checkedSub_eq_some, getRange_eq_some, Prod.exists] at h
  obtain ⟨locator, hlocator, _, ⟨hhead, rfl⟩, hstart, _, hvector, bytes, ⟨⟨hle, -⟩, rfl⟩,
    neighbors, consumed, hdecode, _, ⟨rfl, -⟩, hnext, _, hneighbors, minimal, hminimal, hencoding,
    rfl⟩ := h
  have hat : index.locatorAt node = locator := by rw [locatorAt, hlocator]; rfl
  have hoffset : locator.byteOffset.toNat = start + header.recordPrefix := by omega
  obtain rfl : locator.encoding = minimal := not_not.mp hencoding
  obtain ⟨hlength, hplan, hstored, rfl⟩ := decodeAdjacencyList_canonical hdecode hminimal
  obtain ⟨hvalid, hsorted, -⟩ := validateNeighbors_eq_ok.mp hneighbors
  rw [hoffset] at hle hvector hstored hnext ⊢
  refine ⟨neighbors, ?_⟩
  exact {
    offset := by rw [hat, hoffset]
    degree := by rw [hat, hlength]
    plan := by rw [hat, hplan]
    stored := hstored.trans (List.take_prefix _ _)
    stop_eq := rfl
    inside := hle
    vector := by
      have hfront : ((payload.drop start).take header.recordPrefix).length =
          header.recordPrefix := by
        rw [length_take, length_drop]
        omega
      refine ⟨hfront, fun hlayout => ?_⟩
      rw [Nat.add_sub_cancel, validateInterleavedVector, if_pos hlayout, getRange_of_le
        (Nat.le_add_right _ _) hle, Nat.add_sub_cancel_left, okOr_some, ok_bind] at hvector
      exact hvector
    next := by
      intro next hsome hpage
      rw [hat] at hpage
      rw [hsome, Option.any_some, decide_eq_true_eq, not_and_not_right] at hnext
      exact ((checkedAdd_eq_some.mp (hnext hpage)).1).symm
    neighbors_valid := hvalid
    increasing := hsorted }

theorem validateRecordsFrom_eq_ok {remaining source start last : Nat}
    (h : validateRecordsFrom header index payload remaining source start = .ok last) :
    ∃ ends : Nat → Nat, ends 0 = start ∧ ends remaining = last ∧
      ∀ k < remaining,
        validateRecord header index payload (source + k) (ends k) = .ok (ends (k + 1)) := by
  induction remaining generalizing source start with
  | zero =>
    cases h
    exact ⟨fun _ => last, rfl, rfl, fun k hk => absurd hk (Nat.not_lt_zero k)⟩
  | succ remaining ih =>
    simp only [validateRecordsFrom, bind_eq_ok] at h
    obtain ⟨middle, hrecord, hrest⟩ := h
    obtain ⟨ends, hfirst, hlast, hall⟩ := ih hrest
    refine ⟨fun k => if k = 0 then start else ends (k - 1), rfl, hlast, fun k hk => ?_⟩
    cases k with
    | zero => simpa [hfirst] using hrecord
    | succ k =>
      have hk' := hall k (by omega)
      rw [Nat.add_assoc, Nat.add_comm 1 k] at hk'
      simpa using hk'

theorem validateAdjacencyPagePayload_eq_ok {p : Nat} (hsteps : index.Steps header pageCount)
    (h : validateAdjacencyPagePayload header index p payload = .ok ()) :
    payload.length = diskannPageSize ∧
      (∀ i < index.len, index.pageOf i = p → ∃ neighbors stop,
        RecordAt header index payload i (index.recordStart header i) stop neighbors ∧
        ((i + 1 < index.len → index.pageOf (i + 1) ≠ p) → ∀ b ∈ payload.drop stop, b = 0)) := by
  simp only [validateAdjacencyPagePayload, accepted] at h
  obtain ⟨hlength, first, hfirst, finish, hfinish, hne, last, hrecords, hlast, htail⟩ := h
  obtain ⟨low, -, hlow, hbelow⟩ := hsteps.partitionPoint_eq p
    (fun locator => locator.pageIndex.toNat < p) (by simp)
  obtain ⟨high, hhighLe, hhigh, hupto⟩ := hsteps.partitionPoint_eq (p + 1)
    (fun locator => locator.pageIndex.toNat ≤ p)
    (fun _ => decide_eq_true_iff.trans Nat.lt_succ_iff.symm)
  obtain rfl : low = first := Except.ok.inj (hlow.symm.trans hfirst)
  obtain rfl : high = finish := Except.ok.inj (hhigh.symm.trans hfinish)
  obtain ⟨ends, hstart, hend, hall⟩ := validateRecordsFrom_eq_ok hrecords
  refine ⟨not_not.mp hlength, fun i hi hpage => ?_⟩
  have hlowLe := (hbelow i hi).not.mp (by omega)
  have hhighLt := (hupto i hi).mp (by omega)
  have hrecord := hall (i - low) (by omega)
  rw [show low + (i - low) = i by omega] at hrecord
  obtain ⟨neighbors, hat⟩ := validateRecord_eq_ok hrecord
  have hstartAt : index.recordStart header i = ends (i - low) := by
    rw [recordStart, hat.offset, Nat.add_sub_cancel]
  refine ⟨neighbors, ends (i - low + 1), hstartAt ▸ hat, fun hfinal => ?_⟩
  have hlastNode : i - low + 1 = high - low := by
    by_contra hmore
    have hlt : i + 1 < high := by omega
    have hnextPage := (hupto (i + 1) (by omega)).mpr hlt
    have hmono := hsteps.page_mono (Nat.le_add_right i 1) (by omega)
    exact hfinal (by omega) (by omega)
  rw [hlastNode, hend]
  simpa using htail

end Page

section Section

variable {header : DiskAnnHeader} {index : AdjacencyIndex}

def sectionPage (payload : List UInt8) (p : Nat) : List UInt8 :=
  (payload.drop (p * diskannPageSize)).take diskannPageSize

theorem decodeAdjacencyIndex_eq_ok {bytes : List UInt8}
    (h : decodeAdjacencyIndex bytes header = .ok index) :
    validateAdjacencyIndex header index = .ok () := by
  simp only [decodeAdjacencyIndex, accepted] at h
  obtain ⟨_, -, -, _, -, _, -, -, _, -, _, hvalid, rfl⟩ := h
  exact hvalid

/-- What the validated bytes of an adjacency section hold: the lists of a graph,
each at its locator and in the encoding in which it would be written, in
records that follow each other in the pages. -/
structure HoldsGraph (header : DiskAnnHeader) (index : AdjacencyIndex) (payload : List UInt8)
    (adjacency : List (List UInt32)) : Prop where
  count : adjacency.length = header.vectorCount
  graph : GraphInvariant adjacency header.maxDegree
  located : ∀ i < adjacency.length, index.locator i = some (index.locatorAt i) ∧
    index.pageOf i < header.sections.adjacency.length / diskannPageSize
  encoded : ∀ i < adjacency.length, encodeAdjacencyList (adjacency.getD i []) =
    .ok ((index.locatorAt i).encoding, listBytes (adjacency.getD i []))
  decoded : ∀ i < adjacency.length, ∀ behind, decodeAdjacencyList
    ((sectionPage payload (index.pageOf i)).drop (index.locatorAt i).byteOffset.toNat ++ behind)
      (index.locatorAt i).degree (index.locatorAt i).encoding =
    .ok (adjacency.getD i [], (listBytes (adjacency.getD i [])).length)
  packed : Packing diskannPageSize adjacency.length (nodeSize header adjacency) index.pageOf
    (index.recordStart header)
  offset : ∀ i < adjacency.length, (index.locatorAt i).byteOffset.toNat =
    index.recordStart header i + header.recordPrefix
  stored : ∃ vectorBytes : Nat → List UInt8,
    (∀ i < adjacency.length, ValidPrefix header (vectorBytes i)) ∧
    Stored diskannPageSize adjacency.length (nodeSize header adjacency) index.pageOf
      (index.recordStart header) 0
      (fun i => vectorBytes i ++ listBytes (adjacency.getD i [])) (sectionPage payload)

theorem graphInvariant_of_records {neighbors : Nat → List UInt32} {start stop : Nat → Nat}
    {content : Nat → List UInt8} (hcount : index.len = header.vectorCount)
    (hdegree : ∀ i < index.len, (index.locatorAt i).degree ≤ header.maxDegree)
    (hat : ∀ i < index.len, RecordAt header index (content i) i (start i) (stop i) (neighbors i)) :
    GraphInvariant ((List.range index.len).map neighbors) header.maxDegree where
  increasing := by
    simp only [mem_map, mem_range, forall_exists_index, and_imp,
      forall_apply_eq_imp_iff₂]
    exact fun i hi => (hat i hi).increasing
  inRange := by
    simp only [mem_map, mem_range, forall_exists_index, and_imp,
      forall_apply_eq_imp_iff₂, length_map, length_range]
    exact fun i hi x hx => hcount ▸ ((hat i hi).neighbors_valid x hx).1
  noSelf := by
    intro i list hlist x hx
    simp only [List.getElem?_map, Option.map_eq_some_iff] at hlist
    obtain ⟨j, hj, rfl⟩ := hlist
    obtain ⟨hlt, hij⟩ := List.getElem?_eq_some_iff.mp hj
    rw [getElem_range] at hij
    subst hij
    exact ((hat i (by simpa using hlt)).neighbors_valid x hx).2
  degree := by
    simp only [mem_map, mem_range, forall_exists_index, and_imp,
      forall_apply_eq_imp_iff₂]
    exact fun i hi => (hat i hi).degree ▸ hdegree i hi

theorem holdsGraph_of_records {payload : List UInt8} {neighbors : Nat → List UInt32}
    {stop : Nat → Nat} (hcount : index.len = header.vectorCount)
    (hsteps : index.Steps header (header.sections.adjacency.length / diskannPageSize))
    (hlength : ∀ p < header.sections.adjacency.length / diskannPageSize,
      (sectionPage payload p).length = diskannPageSize)
    (hat : ∀ i, i < index.len →
      RecordAt header index (sectionPage payload (index.pageOf i)) i (index.recordStart header i)
        (stop i) (neighbors i) ∧
      ((i + 1 < index.len → index.pageOf (i + 1) ≠ index.pageOf i) →
        ∀ b ∈ (sectionPage payload (index.pageOf i)).drop (stop i), b = 0)) :
    HoldsGraph header index payload ((List.range index.len).map neighbors) := by
  have hnodes : ((List.range index.len).map neighbors).length = index.len := by simp
  have hget : ∀ i < index.len, ((List.range index.len).map neighbors).getD i [] = neighbors i := by
    intro i hi
    simp [getD_eq_getElem?_getD, hi]
  have hsize : ∀ i < index.len, index.recordStart header i +
      nodeSize header ((List.range index.len).map neighbors) i = stop i := by
    intro i hi
    have hrecord := (hat i hi).1
    rw [nodeSize, hget i hi, ← (encodeAdjacencyList_listBytes hrecord.plan).2, hrecord.stop_eq,
      Nat.add_assoc]
  have hencode : ∀ i < index.len, encodeAdjacencyList (neighbors i) =
      .ok ((index.locatorAt i).encoding, listBytes (neighbors i)) :=
    fun i hi => (encodeAdjacencyList_listBytes (hat i hi).1.plan).1
  refine ⟨by rw [hnodes, hcount], graphInvariant_of_records hcount hsteps.degree_le
    (fun i hi => (hat i hi).1), ?_, ?_, ?_, ?_, ?_, ?_⟩
  all_goals rw [hnodes]
  · exact fun i hi => ⟨hsteps.located i hi, hsteps.page_lt i hi⟩
  · intro i hi
    rw [hget i hi]
    exact hencode i hi
  · intro i hi behind
    obtain ⟨rest, hrest⟩ := (hat i hi).1.stored
    rw [hget i hi, (hat i hi).1.offset, ← hrest, append_assoc, (hat i hi).1.degree]
    exact decodeAdjacencyList_encode (hencode i hi) (rest ++ behind)
  · exact {
      first := hsteps.first
      fits := by
        intro i hi
        rw [hsize i hi, ← hlength _ (hsteps.page_lt i hi)]
        exact (hat i hi).1.stop_le
      next := by
        intro i hi
        by_cases hsame : index.pageOf (i + 1) = index.pageOf i
        · -- Within a page the record starts where the one before it stops.
          have hnext := (hat i (by omega)).1.next _ (hsteps.located (i + 1) hi)
            (UInt32.toNat_inj.mp hsame)
          refine .inl ⟨hsame, ?_⟩
          rw [hsize i (by omega), recordStart, hnext, Nat.add_sub_cancel]
        · exact .inr ((hsteps.next i hi).resolve_left hsame) }
  · exact fun i hi => (hat i hi).1.offset
  · refine ⟨fun i => ((sectionPage payload (index.pageOf i)).drop
      (index.recordStart header i)).take header.recordPrefix, fun i hi => (hat i hi).1.vector, ?_⟩
    exact {
      length := fun i hi => hlength _ (hsteps.page_lt i hi)
      holds := by
        intro i hi
        have hrecord := (hat i hi).1
        obtain ⟨rest, hrest⟩ := hrecord.stored
        rw [nodeSize, hget i hi, ← (encodeAdjacencyList_listBytes hrecord.plan).2, take_add,
          drop_drop, ← hrest, take_left]
      tail := by
        intro i hi hfinal
        rw [hsize i hi]
        exact (hat i hi).2 hfinal }

/-- Every adjacency section the reader accepts is the canonical encoding of a
graph: locators stay in their pages, lists decode to strictly increasing
neighbours in range without self edges, the records tile the pages, and
encoding the lists gives the stored bytes. -/
theorem accepted_adjacency_is_canonical {indexBytes payload : List UInt8}
    (hindex : decodeAdjacencyIndex indexBytes header = .ok index)
    (hpages : ∀ p < header.sections.adjacency.length / diskannPageSize,
      validateAdjacencyPagePayload header index p (sectionPage payload p) = .ok ()) :
    ∃ adjacency, HoldsGraph header index payload adjacency := by
  obtain ⟨hlen, hsteps⟩ := validateAdjacencyIndex_steps (decodeAdjacencyIndex_eq_ok hindex)
  have hrecord : ∀ i, ∃ neighbors stop, i < index.len →
      RecordAt header index (sectionPage payload (index.pageOf i)) i (index.recordStart header i)
        stop neighbors ∧
      ((i + 1 < index.len → index.pageOf (i + 1) ≠ index.pageOf i) →
        ∀ b ∈ (sectionPage payload (index.pageOf i)).drop stop, b = 0) := by
    intro i
    by_cases hi : i < index.len
    · obtain ⟨neighbors, stop, hat⟩ := (validateAdjacencyPagePayload_eq_ok hsteps
        (hpages _ (hsteps.page_lt i hi))).2 i hi rfl
      exact ⟨neighbors, stop, fun _ => hat⟩
    · exact ⟨[], 0, fun h => absurd h hi⟩
  choose neighbors stop hat using hrecord
  exact ⟨_, holdsGraph_of_records hlen hsteps (fun p hp =>
    (validateAdjacencyPagePayload_eq_ok hsteps (hpages p hp)).1) hat⟩

/-- Two nodes that point at each other, in one page. -/
def pairHeader : DiskAnnHeader where
  storageLayout := .compact
  dimension := 1
  vectorCount := 2
  entryNode := 0
  maxDegree := 1
  buildSearchListSize := 1
  pqM := 1
  pqBits := 8
  rawVectorEncoding := .f16
  vectorRecordSize := 2
  fileLen := 8196
  sections := ⟨⟨0, 0⟩, ⟨0, 0⟩, ⟨0, 0⟩, ⟨0, 0⟩, ⟨4000, 16⟩, ⟨4096, 4096⟩, ⟨8192, 4⟩⟩

def pairIndexBytes : List UInt8 := [0, 0, 0, 0, 0, 0, 0, 0, 0, 0, 1, 0, 1, 0, 1, 0]

def pairPage : List UInt8 := 1 :: List.replicate 4095 0

theorem accepted_adjacency_is_canonical_pair :
    ∃ index adjacency, decodeAdjacencyIndex pairIndexBytes pairHeader = .ok index ∧
      validateAdjacencyPagePayload pairHeader index 0 (sectionPage pairPage 0) = .ok () ∧
      HoldsGraph pairHeader index pairPage adjacency := by
  have haccepted : (decodeAdjacencyIndex pairIndexBytes pairHeader).toOption.any (fun index =>
      decide (validateAdjacencyPagePayload pairHeader index 0 (sectionPage pairPage 0) =
        .ok ())) = true := by decide +kernel
  obtain ⟨index, hindex, hpage⟩ := exists_ok_of_any haccepted
  have hpages : ∀ p < pairHeader.sections.adjacency.length / diskannPageSize,
      validateAdjacencyPagePayload pairHeader index p (sectionPage pairPage p) = .ok () := by
    intro p hp
    obtain rfl : p = 0 := Nat.lt_one_iff.mp hp
    exact of_decide_eq_true hpage
  obtain ⟨adjacency, hholds⟩ := accepted_adjacency_is_canonical hindex hpages
  exact ⟨index, adjacency, hindex, of_decide_eq_true hpage, hholds⟩

end Section

end PaimonVindex
