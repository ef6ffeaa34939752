import PaimonVindex.DiskAnn.Layout
import PaimonVindex.Lib.Paging

/-! The planner places records by next fit, and the page writer stores every
record at its planned position. -/

namespace PaimonVindex

open Checked Words Paging AdjacencyLocator List

theorem UInt16.le_mask_iff {d : UInt16} : ¬d > adjacencyDegreeMask ↔ d.toNat < 2 ^ 15 := by
  rw [UInt16.not_lt, UInt16.le_iff_toNat_le]
  change d.toNat ≤ 0x7fff ↔ _
  omega

theorem flagged_degree {d : Nat} (h : d < 2 ^ 15) :
    (d ||| 0x8000) &&& 0x7fff = d ∧ (d ||| 0x8000) &&& 0x8000 ≠ 0 ∧ d &&& 0x7fff = d ∧
      d &&& 0x8000 = 0 := by
  have hbit : d.testBit 15 = false := Nat.testBit_lt_two_pow h
  have hmod : d % 2 ^ 15 = d := Nat.mod_eq_of_lt h
  refine ⟨?_, ?_, ?_, ?_⟩
  · rw [show 0x7fff = 2 ^ 15 - 1 by rfl, Nat.and_two_pow_sub_one_eq_mod, Nat.or_mod_two_pow, hmod]
    simp
  · rw [show 0x8000 = 2 ^ 15 by rfl, Nat.and_two_pow, Nat.testBit_or, Nat.testBit_two_pow_self,
      Bool.or_true]
    decide
  · rw [show 0x7fff = 2 ^ 15 - 1 by rfl, Nat.and_two_pow_sub_one_eq_mod, hmod]
  · rw [show 0x8000 = 2 ^ 15 by rfl, Nat.and_two_pow, hbit]
    simp

variable {encoding : AdjacencyListEncoding} {neighbors : List UInt32} {vector : List F32}
  {done : List UInt8} {build : DiskAnnBuildParams}

variable {pageIndex : UInt32}

theorem AdjacencyLocator.new_eq_ok {byteOffset : UInt16} {degree : Nat} {locator : AdjacencyLocator}
    (h : new pageIndex byteOffset degree encoding = .ok locator) :
    locator.pageIndex = pageIndex ∧ locator.byteOffset = byteOffset ∧ locator.degree = degree ∧
      locator.encoding = encoding := by
  simp only [new, accepted, toU16_eq_some] at h
  obtain ⟨d, rfl, hmask, hnew⟩ := h
  obtain ⟨hdeg, hflag, hdeg', hflag'⟩ := flagged_degree (UInt16.le_mask_iff.mp hmask)
  cases hnew
  refine ⟨rfl, rfl, ?_, ?_⟩
  · cases encoding with
    | deltaVarint => simpa [degree, adjacencyDegreeMask] using hdeg'
    | rawU32 =>
      simpa [degree, adjacencyDegreeMask, adjacencyRawU32Flag] using hdeg
  · cases encoding with
    | deltaVarint =>
      have hzero : d &&& adjacencyRawU32Flag = 0 := by
        apply UInt16.toNat_inj.mp
        simpa [adjacencyRawU32Flag] using hflag'
      simp [encoding, hzero]
    | rawU32 =>
      have hset : (d ||| adjacencyRawU32Flag) &&& adjacencyRawU32Flag ≠ 0 := by
        intro hz
        exact hflag (by simpa [adjacencyRawU32Flag] using congrArg UInt16.toNat hz)
      simp [encoding, hset]

def adjacencyListBytes (neighbors : List UInt32) : Nat :=
  min (encodeDeltas 0 neighbors).length (neighbors.length * 4)

theorem planAdjacencyList_bytes {len : Nat}
    (h : planAdjacencyList neighbors = .ok (encoding, len)) :
    len = adjacencyListBytes neighbors := by
  unfold adjacencyListBytes
  obtain ⟨-, -, -, ⟨-, hlen, rfl | hlt⟩ | ⟨-, hlen, -, hle⟩⟩ := planAdjacencyList_eq_ok h
  · simpa [encodeDeltas] using hlen
  · omega
  · omega

def recordBytes (interleavedVectorBytes : Nat) (adjacency : List (List UInt32)) : List Nat :=
  adjacency.map fun neighbors => interleavedVectorBytes + adjacencyListBytes neighbors

/-- What the planner says of one node placed at `position`. -/
structure AdjacencyLocator.Plans (locator : AdjacencyLocator) (interleavedVectorBytes : Nat)
    (neighbors : List UInt32) (position : Nat × Nat) : Prop where
  plan : planAdjacencyList neighbors = .ok (locator.encoding, adjacencyListBytes neighbors)
  fits : interleavedVectorBytes + adjacencyListBytes neighbors ≤ diskannPageSize
  page : locator.pageIndex.toNat = position.1
  offset : locator.byteOffset.toNat = position.2 + interleavedVectorBytes
  degree : locator.degree = neighbors.length

theorem advancePage_eq_ok {page' : UInt32} {byteOffset size offset' : Nat}
    (h : advancePage pageIndex byteOffset size = .ok (page', offset')) :
    (page'.toNat, offset') = if byteOffset + size > diskannPageSize then (pageIndex.toNat + 1, 0)
      else (pageIndex.toNat, byteOffset) := by
  unfold advancePage at h
  split at h <;> rename_i hcross
  · simp only [accepted, toU32_eq_some, Prod.mk.injEq] at h
    obtain ⟨p, hp, rfl, rfl⟩ := h
    rw [hp, if_pos hcross]
  · cases h
    rw [if_neg hcross]

theorem planLocatorsFrom_spec {v : Nat} {last : UInt32} {byteOffset : Nat}
    {adjacency : List (List UInt32)} {locators : List AdjacencyLocator}
    (h : planLocatorsFrom v pageIndex byteOffset adjacency = .ok (locators, last)) :
    List.Forall₂ (fun locator (entry : List UInt32 × Nat × Nat) => locator.Plans v entry.1 entry.2)
        locators (adjacency.zip (place diskannPageSize pageIndex.toNat byteOffset
          (recordBytes v adjacency))) ∧
      last.toNat = ((place diskannPageSize pageIndex.toNat byteOffset
        (recordBytes v adjacency)).map Prod.fst).getLastD pageIndex.toNat := by
  induction adjacency generalizing pageIndex byteOffset locators with
  | nil =>
    cases h
    exact ⟨by simp [recordBytes, place], by simp [recordBytes, place]⟩
  | cons neighbors rest ih =>
    simp only [planLocatorsFrom, accepted, toU16_eq_some, Prod.exists, Prod.mk.injEq] at h
    obtain ⟨encoding, len, hplan, _, ⟨rfl, -⟩, hfits, page', offset', hadvance, start, hstart,
      locator, hnew, tail, _, htail, rfl, rfl⟩ := h
    obtain rfl := planAdjacencyList_bytes hplan
    obtain ⟨rfl, rfl, hdegree, rfl⟩ := new_eq_ok hnew
    have hposition := advancePage_eq_ok hadvance
    obtain ⟨hforall, hlast⟩ := ih htail
    simp only [recordBytes, map_cons, place, ← hposition]
    refine ⟨List.Forall₂.cons ⟨hplan, Nat.le_of_not_lt hfits, rfl, hstart, hdegree⟩ hforall, ?_⟩
    rw [hlast, getLastD_cons]
    rfl

/-- The bytes in front of a list: the raw vector, in the interleaved layout. -/
def vectorPrefix (f16FromF32 : F32 → UInt16) (build : DiskAnnBuildParams) (vector : List F32) :
    List UInt8 :=
  match build.storageLayout with
  | .compact => []
  | .interleaved => ((encodeRawVector f16FromF32 vector build.rawVectorEncoding).toOption).getD []

def listBytes (neighbors : List UInt32) : List UInt8 :=
  ((encodeAdjacencyList neighbors).toOption.map Prod.snd).getD []

def nodeRecord (f16FromF32 : F32 → UInt16) (build : DiskAnnBuildParams)
    (node : List UInt32 × List F32) : List UInt8 :=
  vectorPrefix f16FromF32 build node.2 ++ listBytes node.1

/-- Bytes of the vector in front of each list of a `d`-dimensional index. -/
def interleavedVectorBytes (d : Nat) (build : DiskAnnBuildParams) : Nat :=
  match build.storageLayout with
  | .compact => 0
  | .interleaved => d * build.rawVectorEncoding.elementSize

theorem encodeAdjacencyList_listBytes {len : Nat}
    (h : planAdjacencyList neighbors = .ok (encoding, len)) :
    encodeAdjacencyList neighbors = .ok (encoding, listBytes neighbors) ∧
      (listBytes neighbors).length = adjacencyListBytes neighbors := by
  obtain ⟨bytes, hbytes, hlen⟩ := encodeAdjacencyList_eq h
  have heq : listBytes neighbors = bytes := by simp [listBytes, hbytes, Except.toOption]
  rw [heq, ← planAdjacencyList_bytes h]
  exact ⟨hbytes, hlen⟩

variable {f16FromF32 : F32 → UInt16}

theorem encodeRawVector_length {encoding : DiskAnnRawVectorEncoding} {bytes : List UInt8}
    (h : encodeRawVector f16FromF32 vector encoding = .ok bytes) :
    bytes.length = vector.length * encoding.elementSize := by
  cases encoding with
  | f32 =>
    cases h
    exact flatMap_length_of_width fun x _ => F32.toBytes_length x
  | f16 =>
    simp only [encodeRawVector, accepted] at h
    obtain ⟨-, rfl⟩ := h
    exact flatMap_length_of_width fun x _ => u16Bytes_length _

theorem copyInto_pad (done bytes : List UInt8) :
    copyInto (pad diskannPageSize 0 done) done.length bytes =
      pad diskannPageSize 0 (done ++ bytes) := by
  rw [copyInto, pad, take_left, ← drop_drop, drop_left, drop_replicate, pad,
    length_append, Nat.sub_sub]

theorem zeroPage_eq : zeroPage = pad diskannPageSize 0 [] := by
  simp [zeroPage, pad]

theorem flushPages_pad {cur page size : Nat}
    (h : page = if done.length + size > diskannPageSize then cur + 1 else cur) :
    flushPages (page - cur) (pad diskannPageSize 0 done) =
      if done.length + size > diskannPageSize
        then ([pad diskannPageSize 0 done], pad diskannPageSize 0 []) else
        ([], pad diskannPageSize 0 done) := by
  by_cases hcross : done.length + size > diskannPageSize
  · rw [if_pos hcross] at h ⊢
    rw [h, Nat.add_sub_cancel_left]
    simp [flushPages, zeroPage_eq]
  · rw [if_neg hcross] at h ⊢
    rw [h, Nat.sub_self]
    rfl

theorem copyVector_pad {d : Nat} {start : Nat} {page : List UInt8} (hvector : vector.length = d)
    (hstart : start = done.length + interleavedVectorBytes d build)
    (h : copyVector f16FromF32 build vector start (pad diskannPageSize 0 done) = .ok page) :
    page = pad diskannPageSize 0 (done ++ vectorPrefix f16FromF32 build vector) ∧
      (vectorPrefix f16FromF32 build vector).length = interleavedVectorBytes d build := by
  unfold copyVector at h
  unfold vectorPrefix
  unfold interleavedVectorBytes at hstart ⊢
  cases hlayout : build.storageLayout with
  | compact =>
    simp only [hlayout] at h ⊢
    cases h
    simp
  | interleaved =>
    simp only [hlayout, accepted, checkedSub_eq_some] at h hstart ⊢
    obtain ⟨bytes, hbytes, vectorStart, ⟨-, rfl⟩, -, rfl⟩ := h
    have hlen := encodeRawVector_length hbytes
    rw [hvector] at hlen
    have hat : start - bytes.length = done.length := by omega
    refine ⟨?_, by simpa [hbytes, Except.toOption] using hlen⟩
    rw [hat, copyInto_pad]
    simp [hbytes, Except.toOption]

theorem copyRecord_pad {d : Nat} {start : Nat} {copied : List UInt8} (hvector : vector.length = d)
    (hlist : (listBytes neighbors).length = adjacencyListBytes neighbors)
    (hstart : start = done.length + interleavedVectorBytes d build)
    (hcopy : copyVector f16FromF32 build vector start (pad diskannPageSize 0 done) = .ok copied) :
    copyInto copied start (listBytes neighbors) =
        pad diskannPageSize 0 (done ++ nodeRecord f16FromF32 build (neighbors, vector)) ∧
      (nodeRecord f16FromF32 build (neighbors, vector)).length =
        interleavedVectorBytes d build + adjacencyListBytes neighbors := by
  obtain ⟨rfl, hfront⟩ := copyVector_pad hvector hstart hcopy
  have hlen : (done ++ vectorPrefix f16FromF32 build vector).length = start := by
    rw [length_append, hfront, hstart]
  constructor
  · rw [← hlen, copyInto_pad, nodeRecord, append_assoc]
  · rw [nodeRecord, length_append, hfront, hlist]

theorem toNat_max (a b : UInt32) : (max a b).toNat = max a.toNat b.toNat := by
  change (if a ≤ b then b else a).toNat = _
  rw [max_def]
  simp only [UInt32.le_iff_toNat_le]
  split <;> rfl

theorem writePagesFrom_spec {d : Nat} {current : UInt32} {locators : List AdjacencyLocator}
    {nodes : List (List UInt32 × List F32)} {pages : List (List UInt8)}
    (hdim : ∀ node ∈ nodes, node.2.length = d) (hdone : done.length ≤ diskannPageSize)
    (hplan : List.Forall₂ (fun locator (entry : List UInt32 × Nat × Nat) =>
        locator.Plans (interleavedVectorBytes d build) entry.1 entry.2) locators
      ((nodes.map Prod.fst).zip (place diskannPageSize current.toNat done.length
        (recordBytes (interleavedVectorBytes d build) (nodes.map Prod.fst)))))
    (h : writePagesFrom f16FromF32 build current (pad diskannPageSize 0 done)
      (locators.zip nodes) = .ok pages) :
    pages = assemble diskannPageSize 0 done (nodes.map (nodeRecord f16FromF32 build)) ∧
      (nodes.map (nodeRecord f16FromF32 build)).map List.length =
        recordBytes (interleavedVectorBytes d build) (nodes.map Prod.fst) := by
  induction nodes generalizing current done locators pages with
  | nil =>
    rw [zip_nil_right] at h
    cases h
    exact ⟨rfl, rfl⟩
  | cons node rest ih =>
    obtain ⟨neighbors, vector⟩ := node
    simp only [map_cons, recordBytes, place, zip_cons_cons] at hplan
    obtain ⟨locator, tail, hlocator, htail, rfl⟩ := forall₂_cons_right_iff.mp hplan
    have hencode := encodeAdjacencyList_listBytes hlocator.plan
    simp only [zip_cons_cons, writePagesFrom, accepted, hencode.1, ok_bind] at h
    obtain ⟨-, copied, hcopy, -, later, hlater, hpages⟩ := h
    have hpage := hlocator.page
    have hoffset := hlocator.offset
    have hfits := hlocator.fits
    have hflush : flushPages (locator.pageIndex.toNat - current.toNat)
        (pad diskannPageSize 0 done) = if done.length + (interleavedVectorBytes d build +
          adjacencyListBytes neighbors) > diskannPageSize
        then ([pad diskannPageSize 0 done], pad diskannPageSize 0 [])
        else ([], pad diskannPageSize 0 done) := by
      apply flushPages_pad
      rw [hpage]
      dsimp only
      split <;> rfl
    have hlist : (listBytes neighbors).length = adjacencyListBytes neighbors := hencode.2
    have hvector : vector.length = d := hdim _ mem_cons_self
    have hrest : ∀ node ∈ rest, node.2.length = d := fun node hnode =>
      hdim node (mem_cons_of_mem _ hnode)
    by_cases hcross : done.length + (interleavedVectorBytes d build +
        adjacencyListBytes neighbors) > diskannPageSize
    · simp only [if_pos hcross] at hpage hoffset hflush htail
      rw [hflush] at hcopy hpages
      obtain ⟨hbuffer, hsize⟩ := copyRecord_pad hvector hlist
        (by simpa using hoffset : _ = ([] : List UInt8).length + _) hcopy
      rw [hbuffer] at hlater
      have hcurrent : (max current locator.pageIndex).toNat = current.toNat + 1 := by
        rw [toNat_max, hpage]
        omega
      obtain ⟨rfl, hsizes⟩ := ih hrest (by simpa [hsize] using hfits)
        (by simpa [hcurrent, hsize, recordBytes] using htail) hlater
      refine ⟨?_, by simp [hsize, recordBytes, hsizes]⟩
      simp [← hpages, assemble, hsize, hcross]
    · simp only [if_neg hcross] at hpage hoffset hflush htail
      rw [hflush] at hcopy hpages
      obtain ⟨hbuffer, hsize⟩ := copyRecord_pad hvector hlist hoffset hcopy
      rw [hbuffer] at hlater
      have hcurrent : (max current locator.pageIndex).toNat = current.toNat := by
        rw [toNat_max, hpage, max_self]
      obtain ⟨rfl, hsizes⟩ := ih hrest (by rw [length_append, hsize]; omega)
        (by simpa [hcurrent, hsize, recordBytes] using htail) hlater
      refine ⟨?_, by simp [hsize, recordBytes, hsizes]⟩
      simp [← hpages, assemble, hsize, hcross]

end PaimonVindex
