import PaimonVindex.DiskAnn.Plan
import PaimonVindex.DiskAnn.Validate

/-! An index whose locators form a packing is accepted, and so is every page
that stores the packed records. The locators of an accepted index step from
page to page. -/

namespace PaimonVindex

open Checked Words Paging AdjacencyIndex List

/-- Adjacency lists a graph may have: strictly increasing neighbours in range,
no self edge, degree at most `maxDegree`. -/
structure GraphInvariant (adjacency : List (List UInt32)) (maxDegree : Nat) : Prop where
  increasing : ∀ neighbors ∈ adjacency, neighbors.Pairwise (· < ·)
  inRange : ∀ neighbors ∈ adjacency, ∀ x ∈ neighbors, x.toNat < adjacency.length
  noSelf : ∀ i (neighbors : List UInt32), adjacency[i]? = some neighbors →
    ∀ x ∈ neighbors, x.toNat ≠ i
  degree : ∀ neighbors ∈ adjacency, neighbors.length ≤ maxDegree

/-- The locators of an index, read as positions in pages. -/
structure AdjacencyIndex.Locates (index : AdjacencyIndex) (adjacency : List (List UInt32))
    (prefixBytes : Nat) (page off : Nat → Nat) : Prop where
  located : ∀ i (neighbors : List UInt32), adjacency[i]? = some neighbors →
    ∃ locator, index.locator i = some locator ∧
      locator.Plans prefixBytes neighbors (page i, off i)
  outside : ∀ i, adjacency.length ≤ i → index.locator i = none
  len : index.len = adjacency.length

variable {i pageCount : Nat} {neighbors : List UInt32}

def previousOf (locator : AdjacencyLocator) : PreviousLocator :=
  ⟨locator.pageIndex.toNat, locator.byteOffset.toNat, locator.degree, locator.encoding⟩

namespace AdjacencyIndex

def locatorAt (index : AdjacencyIndex) (node : Nat) : AdjacencyLocator :=
  (index.locator node).getD ⟨0, 0, 0⟩

theorem Locates.locatorAt {index : AdjacencyIndex} {adjacency : List (List UInt32)}
    {prefixBytes : Nat} {page off : Nat → Nat} (h : index.Locates adjacency prefixBytes page off)
    (hi : i < adjacency.length) : index.locator i = some (index.locatorAt i) ∧
      (index.locatorAt i).Plans prefixBytes adjacency[i] (page i, off i) := by
  obtain ⟨locator, hlocator, hplans⟩ := h.located i _ (List.getElem?_eq_getElem hi)
  have hat : index.locatorAt i = locator := by rw [AdjacencyIndex.locatorAt, hlocator]; rfl
  exact ⟨hat ▸ hlocator, hat ▸ hplans⟩

def pageOf (index : AdjacencyIndex) (node : Nat) : Nat := (index.locatorAt node).pageIndex.toNat

def recordStart (index : AdjacencyIndex) (header : DiskAnnHeader) (node : Nat) : Nat :=
  (index.locatorAt node).byteOffset.toNat - header.recordPrefix

structure Steps (index : AdjacencyIndex) (header : DiskAnnHeader) (pageCount : Nat) : Prop where
  located : ∀ i < index.len, index.locator i = some (index.locatorAt i)
  page_lt : ∀ i < index.len, index.pageOf i < pageCount
  degree_le : ∀ i < index.len, (index.locatorAt i).degree ≤ header.maxDegree
  offset_ge : ∀ i < index.len, header.recordPrefix ≤ (index.locatorAt i).byteOffset.toNat
  first : 0 < index.len → index.pageOf 0 = 0 ∧ index.recordStart header 0 = 0
  next : ∀ i, i + 1 < index.len → index.pageOf (i + 1) = index.pageOf i ∨
    (index.pageOf (i + 1) = index.pageOf i + 1 ∧ index.recordStart header (i + 1) = 0)
  last : 0 < index.len → index.pageOf (index.len - 1) + 1 = pageCount

end AdjacencyIndex

section Steps

variable {header : DiskAnnHeader} {index : AdjacencyIndex}

/-- What the validation of one locator establishes. -/
structure StepFrom (header : DiskAnnHeader) (pageCount node : Nat) (previous : PreviousLocator)
    (locator : AdjacencyLocator) : Prop where
  page_lt : locator.pageIndex.toNat < pageCount
  degree_le : locator.degree ≤ header.maxDegree
  offset_ge : header.recordPrefix ≤ locator.byteOffset.toNat
  first : node = 0 →
    locator.pageIndex.toNat = 0 ∧ locator.byteOffset.toNat = header.recordPrefix
  next : locator.pageIndex.toNat = previous.page ∨
    (locator.pageIndex.toNat = previous.page + 1 ∧
      locator.byteOffset.toNat = header.recordPrefix)

theorem validateLocator_eq_ok {node : Nat} {relativeOffset : UInt16}
    {previous after : PreviousLocator} {locator? : Option AdjacencyLocator}
    (h : validateLocator header pageCount node relativeOffset previous locator? = .ok after) :
    ∃ locator, locator? = some locator ∧ after = previousOf locator ∧
      StepFrom header pageCount node previous locator := by
  simp only [validateLocator, accepted] at h
  obtain ⟨-, locator, hlocator, hpage, hzero, hmono, hdegree, hoffset, -, hfirst, _, hfollows,
    rfl⟩ := h
  refine ⟨locator, hlocator, rfl, by omega, by omega, by omega, fun hnode => by omega, ?_⟩
  by_cases hsame : locator.pageIndex.toNat = previous.page
  · exact .inl hsame
  · rw [validateFollowing, if_neg hsame, rejectIf_eq_ok] at hfollows
    right
    split at hmono <;> omega

/-- The node before the `k`-th of the remaining ones. -/
def nodeBefore (index : AdjacencyIndex) (previous : PreviousLocator) (node : Nat) :
    Nat → PreviousLocator
  | 0 => previous
  | k + 1 => previousOf (index.locatorAt (node + k))

theorem validateLocatorsFrom_eq_ok {node : Nat} {rest : List UInt16}
    {previous last : PreviousLocator}
    (h : validateLocatorsFrom header index pageCount node rest previous = .ok last) :
    last = nodeBefore index previous node rest.length ∧
      ∀ k < rest.length, index.locator (node + k) = some (index.locatorAt (node + k)) ∧
        StepFrom header pageCount (node + k) (nodeBefore index previous node k)
          (index.locatorAt (node + k)) := by
  induction rest generalizing node previous with
  | nil =>
    cases h
    exact ⟨rfl, fun k hk => absurd hk (Nat.not_lt_zero k)⟩
  | cons relativeOffset rest ih =>
    simp only [validateLocatorsFrom, bind_eq_ok] at h
    obtain ⟨middle, hnode, hrest⟩ := h
    obtain ⟨locator, hlocator, rfl, hstep⟩ := validateLocator_eq_ok hnode
    have hat : index.locatorAt node = locator := by rw [locatorAt, hlocator]; rfl
    obtain ⟨hlast, hlater⟩ := ih hrest
    have hshift : ∀ k, nodeBefore index (previousOf locator) (node + 1) k =
        nodeBefore index previous node (k + 1) := by
      intro k
      cases k with
      | zero => rw [nodeBefore, nodeBefore, Nat.add_zero, hat]
      | succ k => rw [nodeBefore, nodeBefore, Nat.add_assoc, Nat.add_comm 1 k]
    refine ⟨by rw [hlast, hshift, length_cons], fun k hk => ?_⟩
    cases k with
    | zero =>
      rw [Nat.add_zero, hat]
      exact ⟨hlocator, hstep⟩
    | succ k =>
      have hk' := hlater k (by simpa using hk)
      rw [hshift, Nat.add_assoc, Nat.add_comm 1 k] at hk'
      exact hk'

theorem validateAdjacencyIndex_steps (h : validateAdjacencyIndex header index = .ok ()) :
    index.len = header.vectorCount ∧
      index.Steps header (header.sections.adjacency.length / diskannPageSize) := by
  simp only [validateAdjacencyIndex, accepted, fitsIn_eq_some, not_or, not_not] at h
  obtain ⟨⟨hlen, -, -⟩, _, ⟨rfl, -⟩, last, hlocators, hlast, -⟩ := h
  obtain ⟨hend, hsteps⟩ := validateLocatorsFrom_eq_ok hlocators
  simp only [Nat.zero_add] at hsteps
  refine ⟨hlen, ?_⟩
  exact {
    located := fun i hi => (hsteps i hi).1
    page_lt := fun i hi => (hsteps i hi).2.page_lt
    degree_le := fun i hi => (hsteps i hi).2.degree_le
    offset_ge := fun i hi => (hsteps i hi).2.offset_ge
    first := by
      intro hpos
      obtain ⟨hpage, hoffset⟩ := (hsteps 0 hpos).2.first rfl
      exact ⟨hpage, by rw [recordStart, hoffset, Nat.sub_self]⟩
    next := by
      intro i hi
      rcases (hsteps (i + 1) hi).2.next with hsame | ⟨hnew, hoffset⟩
      · rw [nodeBefore, Nat.zero_add] at hsame
        exact .inl hsame
      · rw [nodeBefore, Nat.zero_add] at hnew
        exact .inr ⟨hnew, by rw [recordStart, hoffset, Nat.sub_self]⟩
    last := by
      intro hpos
      obtain ⟨k, hk⟩ := Nat.exists_eq_succ_of_ne_zero hpos.ne'
      have hpage : last.page = index.pageOf (index.len - 1) := by
        rw [hend, ← len, hk, Nat.succ_eq_add_one, nodeBefore, Nat.zero_add,
          Nat.add_sub_cancel]
        rfl
      rw [← hpage]
      exact hlast }

end Steps

variable {locator : AdjacencyLocator}

theorem AdjacencyLocator.Plans.raw_bytes {v : Nat} {position : Nat × Nat}
    (h : locator.Plans v neighbors position) (hraw : locator.encoding = .rawU32) :
    adjacencyListBytes neighbors = locator.degree * 4 := by
  obtain ⟨-, -, -, ⟨henc, -⟩ | ⟨-, hlen, -⟩⟩ := planAdjacencyList_eq_ok h.plan
  · rw [hraw] at henc
    cases henc
  · rw [hlen, h.degree]

theorem AdjacencyLocator.Plans.delta_bytes {v : Nat} {position : Nat × Nat}
    (h : locator.Plans v neighbors position) :
    (if locator.degree ≠ 0 then 1 else 0) ≤ adjacencyListBytes neighbors := by
  split
  · rename_i hne
    cases neighbors with
    | nil => exact absurd h.degree hne
    | cons x xs =>
      have hvarint := length_pos_iff.mpr (Varint.encode_ne_nil 4 (x - 0).toNat)
      simp only [adjacencyListBytes, encodeDeltas, appendU32Varint, length_append,
        length_cons]
      omega
  · exact Nat.zero_le _

section Accept

variable {header : DiskAnnHeader} {index : AdjacencyIndex} {adjacency : List (List UInt32)}
  {page off : Nat → Nat}

def nodeSize (header : DiskAnnHeader) (adjacency : List (List UInt32)) (i : Nat) : Nat :=
  header.recordPrefix + adjacencyListBytes (adjacency.getD i [])

theorem nodeSize_eq (header : DiskAnnHeader) (hi : i < adjacency.length) :
    nodeSize header adjacency i = header.recordPrefix + adjacencyListBytes adjacency[i] := by
  simp [nodeSize, getD_eq_getElem?_getD, hi]

variable {predicate : AdjacencyLocator → Bool}

theorem partitionPointFrom_eq_bisect (fuel left right : Nat) :
    index.partitionPointFrom predicate fuel left right =
      Bisect.bisect (fun middle => predicate <$>
        okOr (index.locator middle) (panicked "validated DiskANN adjacency index"))
        fuel left right := by
  induction fuel generalizing left right with
  | zero => rfl
  | succ fuel ih => simp only [partitionPointFrom, Bisect.bisect, ih, bind_map_left, pure_eq_ok]

theorem partitionPointFrom_eq {n b : Nat} (hb : b ≤ n)
    (hsome : ∀ i < n, ∃ locator, index.locator i = some locator ∧ (predicate locator ↔ i < b)) :
    index.partitionPointFrom predicate n 0 n = .ok b := by
  rw [partitionPointFrom_eq_bisect]
  refine Bisect.bisect_eq (by simpa using Nat.lt_two_pow_self) (Nat.zero_le b) hb fun i _ hi => ?_
  obtain ⟨locator, hlocator, hpred⟩ := hsome i hi
  rw [hlocator, okOr_some]
  exact congrArg Except.ok (Bool.eq_iff_iff.mpr (by rw [hpred, decide_eq_true_eq]))

theorem validateNeighbors_eq_ok {n source : Nat} {previous : Option UInt32} :
    validateNeighbors n source previous neighbors = .ok () ↔
      (∀ x ∈ neighbors, x.toNat < n ∧ x.toNat ≠ source) ∧ neighbors.Pairwise (· < ·) ∧
        ∀ p ∈ previous, ∀ x ∈ neighbors, p < x := by
  induction neighbors generalizing previous with
  | nil => simp [validateNeighbors]
  | cons neighbor rest ih =>
    have hprevious : ¬(previous.any fun previous => neighbor ≤ previous) = true ↔
        ∀ p ∈ previous, p < neighbor := by
      cases previous <;> simp [UInt32.not_le]
    simp only [validateNeighbors, accepted, ih, hprevious, forall_mem_cons, pairwise_cons,
      Nat.not_le, Option.mem_some_iff, forall_eq']
    constructor
    · rintro ⟨hrange, hself, hlt, hrest, hsorted, hlater⟩
      exact ⟨⟨⟨hrange, hself⟩, hrest⟩, ⟨hlater, hsorted⟩, fun p hp =>
        ⟨hlt p hp, fun x hx => UInt32.lt_trans (hlt p hp) (hlater x hx)⟩⟩
    · rintro ⟨⟨⟨hrange, hself⟩, hrest⟩, ⟨hlater, hsorted⟩, hlt⟩
      exact ⟨hrange, hself, fun p hp => (hlt p hp).1, hrest, hsorted, hlater⟩

theorem minimalEncoding_eq_ok {encoding : AdjacencyListEncoding} :
    minimalEncoding neighbors = .ok encoding ↔
      ∃ len, planAdjacencyList neighbors = .ok (encoding, len) := by
  simp only [minimalEncoding, planAdjacencyList, bind_eq_ok, pure_eq_ok, okOr_eq_ok,
    Except.ok.injEq]
  constructor
  · rintro ⟨rawLen, hraw, deltaLen, hdelta, rfl⟩
    refine ⟨if neighbors.isEmpty ∨ deltaLen < rawLen then deltaLen else rawLen, rawLen, hraw,
      deltaLen, hdelta, ?_⟩
    split <;> rfl
  · rintro ⟨len, rawLen, hraw, deltaLen, hdelta, hchoice⟩
    refine ⟨rawLen, hraw, deltaLen, hdelta, ?_⟩
    split at hchoice <;> rename_i hsmall <;> cases hchoice
    · exact if_pos hsmall
    · exact if_neg hsmall

/-- The raw vectors in front of the lists pass the page validation. -/
def ValidPrefix (header : DiskAnnHeader) (bytes : List UInt8) : Prop :=
  bytes.length = header.recordPrefix ∧
    (header.isInterleaved = true → validateRawVectorBytes bytes header.rawVectorEncoding = .ok ())

variable {payload : List UInt8}

theorem record_split {start : Nat} {vectorBytes list : List UInt8}
    (hvector : ValidPrefix header vectorBytes)
    (hrecord : (payload.drop start).take (nodeSize header adjacency i) = vectorBytes ++ list) :
    (payload.drop start).take header.recordPrefix = vectorBytes ∧
      payload.drop (start + header.recordPrefix) =
        list ++ payload.drop (start + nodeSize header adjacency i) := by
  have hpayload : payload.drop start =
      vectorBytes ++ (list ++ payload.drop (start + nodeSize header adjacency i)) := by
    rw [← append_assoc, ← hrecord, ← drop_drop, take_append_drop]
  constructor
  · rw [hpayload, ← hvector.1, take_left]
  · rw [← drop_drop, hpayload, ← hvector.1, drop_left]

section

variable (hloc : index.Locates adjacency header.recordPrefix page off)

include hloc

section

variable (hpack : Packing diskannPageSize adjacency.length (nodeSize header adjacency) page off)

include hpack

section

variable (hdegree : ∀ neighbors ∈ adjacency, neighbors.length ≤ header.maxDegree)

include hdegree

/-- Every locator is accepted behind the one before it. -/
theorem validateLocator_accepts (hi : i < adjacency.length) (hpage : page i < pageCount)
    {relativeOffset : UInt16}
    (hrelative : i % adjacencyLocatorBlockNodes = 0 → relativeOffset = 0) :
    validateLocator header pageCount i relativeOffset
        (nodeBefore index ⟨0, 0, 0, .deltaVarint⟩ 0 i) (index.locator i) =
      .ok (previousOf (index.locatorAt i)) := by
  obtain ⟨hlocator, hplans⟩ := hloc.locatorAt hi
  generalize index.locatorAt i = locator at hlocator hplans
  have hoffset : locator.byteOffset.toNat = off i + header.recordPrefix := hplans.offset
  have hfit := hpack.fits i hi
  rw [nodeSize_eq header hi] at hfit
  have hdeg : locator.degree ≤ header.maxDegree := by
    rw [hplans.degree]
    exact hdegree _ (getElem_mem hi)
  have hfirst : i = 0 → page i = 0 ∧ off i = 0 := by
    rintro rfl
    exact hpack.first hi
  have hcross : ¬(locator.encoding = .rawU32 ∧
      locator.byteOffset.toNat + locator.degree * 4 > diskannPageSize) := by
    rintro ⟨hraw, hover⟩
    have := hplans.raw_bytes hraw
    omega
  obtain ⟨hmono, hnext⟩ : ¬(page i < (nodeBefore index ⟨0, 0, 0, .deltaVarint⟩ 0 i).page ∨
        page i > (nodeBefore index ⟨0, 0, 0, .deltaVarint⟩ 0 i).page + if i ≠ 0 then 1 else 0) ∧
      validateFollowing header.recordPrefix i (nodeBefore index ⟨0, 0, 0, .deltaVarint⟩ 0 i)
        locator = .ok () := by
    cases i with
    | zero => simp [nodeBefore, validateFollowing, hplans.page, (hfirst rfl).1]
    | succ i =>
      have hplans' := (hloc.locatorAt (Nat.lt_of_succ_lt hi)).2
      have hbytes' := nodeSize_eq header (Nat.lt_of_succ_lt hi)
      rw [nodeBefore, Nat.zero_add, validateFollowing]
      generalize index.locatorAt i = previous at hplans'
      have hoffset' : previous.byteOffset.toNat = off i + header.recordPrefix := hplans'.offset
      simp only [previousOf, hplans.page, hplans'.page, if_pos (Nat.succ_ne_zero i)]
      rcases hpack.next i hi with ⟨hsame, hnext⟩ | ⟨hnew, hzero⟩
      · refine ⟨by omega, ?_⟩
        rw [if_pos hsame]
        cases henc : previous.encoding with
        | deltaVarint =>
          have := hplans'.delta_bytes
          exact rejectIf_of_not (by omega)
        | rawU32 =>
          have := hplans'.raw_bytes henc
          exact rejectIf_of_not (by omega)
      · rw [if_neg (by omega)]
        exact ⟨by omega, rejectIf_of_not (by omega)⟩
  simp only [validateLocator, hlocator, okOr_some, ok_bind, hplans.page]
  rw [rejectIf_bind (fun h => h.2 (hrelative h.1)), rejectIf_bind (by omega),
    rejectIf_bind (fun h => h.2 (hfirst h.1).1), rejectIf_bind hmono, rejectIf_bind (by omega),
    rejectIf_bind (by omega), rejectIf_bind hcross, rejectIf_bind (by omega), hnext, ok_bind]
  simp only [previousOf, hplans.page, pure_eq_ok]

theorem validateLocatorsFrom_accepts (hpages : ∀ i < adjacency.length, page i < pageCount)
    (hrelative : ∀ i relativeOffset, i % adjacencyLocatorBlockNodes = 0 →
      index.relativeOffsets[i]? = some relativeOffset → relativeOffset = 0) (rest : List UInt16)
    (hrest : index.relativeOffsets.drop i = rest) (hi : i ≤ index.len) :
    validateLocatorsFrom header index pageCount i rest
        (nodeBefore index ⟨0, 0, 0, .deltaVarint⟩ 0 i) =
      .ok (nodeBefore index ⟨0, 0, 0, .deltaVarint⟩ 0 index.len) := by
  induction rest generalizing i with
  | nil =>
    rw [hi.antisymm (drop_eq_nil_iff.mp hrest)]
    rfl
  | cons relativeOffset rest ih =>
    have hget : index.relativeOffsets[i]? = some relativeOffset := by
      rw [← Nat.add_zero i, ← List.getElem?_drop, hrest]
      rfl
    have hlt := (List.getElem?_eq_some_iff.mp hget).1
    have hin : i < adjacency.length := hloc.len ▸ hlt
    rw [validateLocatorsFrom, validateLocator_accepts hloc hpack hdegree hin (hpages i hin)
      fun hblock => hrelative i _ hblock hget, ok_bind]
    have hrec := ih (i := i + 1) (by rw [← drop_drop, hrest]; rfl) hlt
    rwa [nodeBefore, Nat.zero_add] at hrec

theorem validateAdjacencyIndex_accepts (hcount : header.vectorCount = adjacency.length)
    (hne : 0 < adjacency.length)
    (hsection : header.sections.adjacency.length = pageCount * diskannPageSize)
    (hu32 : pageCount < 2 ^ 32) (hlast : page (adjacency.length - 1) + 1 = pageCount)
    (hflags : index.degreeAndFlags.length = index.len)
    (hblocks : index.blockOffsets.length = (index.len + 15) / adjacencyLocatorBlockNodes)
    (hrelative : ∀ i relativeOffset, i % adjacencyLocatorBlockNodes = 0 →
      index.relativeOffsets[i]? = some relativeOffset → relativeOffset = 0) :
    validateAdjacencyIndex header index = .ok () := by
  have hpages : ∀ i < adjacency.length, page i < pageCount := by
    intro i hi
    have := hpack.page_mono (Nat.le_sub_one_of_lt hi) (by omega)
    omega
  have hcountPages : header.sections.adjacency.length / diskannPageSize = pageCount := by
    rw [hsection, Nat.mul_div_cancel _ (by decide)]
  have hloop := validateLocatorsFrom_accepts hloc hpack hdegree hpages hrelative _ drop_zero
    (Nat.zero_le _)
  have hlastPage : (nodeBefore index ⟨0, 0, 0, .deltaVarint⟩ 0 index.len).page + 1 = pageCount := by
    rw [hloc.len, ← Nat.sub_add_cancel hne, nodeBefore, Nat.zero_add, ← hlast]
    exact congrArg (· + 1) (hloc.locatorAt (by omega)).2.page
  have hshape : ¬(index.len ≠ header.vectorCount ∨ index.degreeAndFlags.length ≠ index.len ∨
      index.blockOffsets.length ≠ (index.len + 15) / adjacencyLocatorBlockNodes) := by
    have hlen := hloc.len
    omega
  rw [validateAdjacencyIndex, rejectIf_bind hshape, hcountPages, fitsIn_of_lt hu32, okOr_some,
    ok_bind]
  refine bind_eq_ok.mpr ⟨_, hloop, rejectIf_of_not (not_not.mpr ?_)⟩
  rw [hlastPage, fitsIn_of_lt hu32]

end

theorem next_contiguous {locator : AdjacencyLocator} (hpage : locator.pageIndex.toNat = page i) :
    ¬((index.locator (i + 1)).any fun next => next.pageIndex = locator.pageIndex ∧
      checkedAdd (off i + nodeSize header adjacency i) header.recordPrefix ≠
        some next.byteOffset.toNat) = true := by
  by_cases hi' : i + 1 < adjacency.length
  · obtain ⟨next, hnext, hplans⟩ := hloc.located (i + 1) _ (List.getElem?_eq_getElem hi')
    have hfit := hpack.fits (i + 1) hi'
    rw [hnext, Option.any_some, decide_eq_true_eq]
    rintro ⟨hsame, hgap⟩
    have hpages : page (i + 1) = page i := by
      rw [← hpage, ← hsame]
      exact hplans.page.symm
    rcases hpack.next i hi' with ⟨-, hoff⟩ | ⟨hnew, -⟩
    · apply hgap
      rw [hplans.offset, ← hoff]
      apply checkedAdd_of_lt
      rw [nodeSize_eq header hi'] at hfit
      simp only [diskannPageSize] at hfit
      unfold wordSize
      omega
    · omega
  · rw [hloc.outside (i + 1) (by omega)]
    simp

theorem validateRecord_accepts (hgraph : GraphInvariant adjacency header.maxDegree)
    (hcount : header.vectorCount = adjacency.length) (hi : i < adjacency.length)
    {vectorBytes : List UInt8} (hlength : payload.length = diskannPageSize)
    (hvector : ValidPrefix header vectorBytes)
    (hrecord : (payload.drop (off i)).take (nodeSize header adjacency i) = vectorBytes ++
      listBytes adjacency[i]) :
    validateRecord header index payload i (off i) = .ok (off i + nodeSize header adjacency i) := by
  obtain ⟨locator, hlocator, hplans⟩ := hloc.located i _ (List.getElem?_eq_getElem hi)
  have hfit := hpack.fits i hi
  rw [hlength.symm] at hfit
  have hsize := nodeSize_eq header hi
  have hoffset : locator.byteOffset.toNat = off i + header.recordPrefix := hplans.offset
  obtain ⟨hencode, hlistLen⟩ := encodeAdjacencyList_listBytes hplans.plan
  obtain ⟨hfront, hlist⟩ := record_split hvector hrecord
  have hinterleaved : validateInterleavedVector header payload (off i)
      (off i + header.recordPrefix) = .ok () := by
    unfold validateInterleavedVector
    split
    · rename_i hlayout
      rw [getRange_of_le (Nat.le_add_right _ _) (by omega), Nat.add_sub_cancel_left, hfront]
      exact hvector.2 hlayout
    · rfl
  have hrange : getRange payload (off i + header.recordPrefix) payload.length =
      some (payload.drop (off i + header.recordPrefix)) := by
    rw [getRange_of_le (by omega) le_rfl, take_of_length_le (by simp)]
  have hdecode := decodeAdjacencyList_encode hencode
    (payload.drop (off i + nodeSize header adjacency i))
  have hlistEnd : checkedAdd (off i + header.recordPrefix) (listBytes adjacency[i]).length =
      some (off i + nodeSize header adjacency i) := by
    rw [checkedAdd_of_lt, hlistLen, hsize, Nat.add_assoc]
    simp only [diskannPageSize] at hlength
    unfold wordSize
    omega
  have hneighbors : validateNeighbors header.vectorCount i none adjacency[i] = .ok () := by
    have hmem : adjacency[i] ∈ adjacency := getElem_mem hi
    refine validateNeighbors_eq_ok.mpr ⟨fun x hx => ⟨?_, ?_⟩, hgraph.increasing _ hmem, nofun⟩
    · rw [hcount]
      exact hgraph.inRange _ hmem x hx
    · exact hgraph.noSelf i _ (List.getElem?_eq_getElem hi) x hx
  simp only [validateRecord, hlocator, okOr_some, ok_bind, hoffset,
    checkedSub_of_le (Nat.le_add_left _ _), Nat.add_sub_cancel_right]
  rw [rejectIf_bind (by simp), hinterleaved, ok_bind, hrange, okOr_some, ok_bind,
    hplans.degree, hlist, hdecode, ok_bind]
  dsimp only
  rw [hlistEnd, okOr_some, ok_bind, rejectIf_bind (next_contiguous hloc hpack hplans.page),
    hneighbors, ok_bind, minimalEncoding_eq_ok.mpr ⟨_, hplans.plan⟩, ok_bind,
    rejectIf_bind (by simp)]
  rfl

omit hloc in
theorem validateRecordsFrom_accepts {finish : Nat}
    (hnode : ∀ i < finish, page i = page (finish - 1) →
      validateRecord header index payload i (off i) = .ok (off i + nodeSize header adjacency i))
    (hfinish : finish ≤ adjacency.length) (remaining source : Nat)
    (hsum : source + (remaining + 1) = finish) (hpage : page source = page (finish - 1)) :
    validateRecordsFrom header index payload (remaining + 1) source (off source) =
      .ok (off (finish - 1) + nodeSize header adjacency (finish - 1)) := by
  induction remaining generalizing source with
  | zero =>
    obtain rfl : source = finish - 1 := by omega
    simp only [validateRecordsFrom, hnode (finish - 1) (by omega) rfl, ok_bind]
  | succ remaining ih =>
    have hmono := hpack.page_mono (Nat.le_add_right source 1) (by omega)
    have hmono' := hpack.page_mono (by omega : source + 1 ≤ finish - 1) (by omega)
    have hnext : page (source + 1) = page (finish - 1) := by omega
    rcases hpack.next source (by omega) with ⟨-, hoff⟩ | ⟨hnew, -⟩
    · rw [validateRecordsFrom, hnode source (by omega) hpage, ok_bind, ← hoff]
      exact ih (source + 1) (by omega) hnext
    · omega

omit hpack in
theorem partitionPoint_eq {q b : Nat}
    (hpred : ∀ locator, predicate locator = true ↔ locator.pageIndex.toNat < q)
    (hbound : ∀ i < adjacency.length, page i < q ↔ i < b) (hb : b ≤ adjacency.length) :
    index.partitionPoint predicate = .ok b := by
  unfold AdjacencyIndex.partitionPoint
  rw [hloc.len]
  apply partitionPointFrom_eq hb
  intro i hi
  obtain ⟨locator, hlocator, hplans⟩ := hloc.located i _ (List.getElem?_eq_getElem hi)
  refine ⟨locator, hlocator, ?_⟩
  rw [hpred, hplans.page]
  exact hbound i hi

theorem validateAdjacencyPagePayload_accepts
    (hgraph : GraphInvariant adjacency header.maxDegree)
    (hcount : header.vectorCount = adjacency.length) {vectorBytes content : Nat → List UInt8}
    (hvector : ∀ i < adjacency.length, ValidPrefix header (vectorBytes i))
    (hstored : Stored diskannPageSize adjacency.length (nodeSize header adjacency) page off 0
      (fun i => vectorBytes i ++ listBytes (adjacency.getD i [])) content) {p : Nat}
    (hp : p ≤ page (adjacency.length - 1)) (hne : 0 < adjacency.length) :
    validateAdjacencyPagePayload header index p (content p) = .ok () := by
  obtain ⟨k, hk, hkp⟩ := hpack.exists_of_le_page (Nat.sub_one_lt_of_lt hne) hp
  obtain ⟨first, hfirstLe, hfirst⟩ := hpack.exists_boundary p
  obtain ⟨finish, hfinishLe, hfinish⟩ := hpack.exists_boundary (p + 1)
  have hkn : k < adjacency.length := by omega
  have hk1 := (hfirst k hkn).not.mp (by omega)
  have hk2 := (hfinish k hkn).mp (by omega)
  have honpage : ∀ i, first ≤ i → i < finish → page i = p := by
    intro i h1 h2
    have := (hfirst i (by omega)).not.mpr (by omega)
    have := (hfinish i (by omega)).mpr h2
    omega
  have hlength : (content p).length = diskannPageSize := by
    rw [← hkp]
    exact hstored.length k hkn
  have hstart : off first = 0 := by
    apply hpack.off_eq_zero (by omega)
    intro j hj
    rw [honpage first le_rfl (by omega)]
    have := (hfirst j (by omega)).mpr (by omega)
    omega
  have hlastPage : page (finish - 1) = p := honpage (finish - 1) (by omega) (by omega)
  have hrecords : validateRecordsFrom header index (content p) (finish - first) first 0 =
      .ok (off (finish - 1) + nodeSize header adjacency (finish - 1)) := by
    rw [show finish - first = finish - first - 1 + 1 by omega, ← hstart]
    apply validateRecordsFrom_accepts hpack _ hfinishLe _ _ (by omega)
    · rw [hlastPage, honpage first le_rfl (by omega)]
    · intro i hi hipage
      have hin : i < adjacency.length := by omega
      rw [hlastPage] at hipage
      apply validateRecord_accepts hloc hpack hgraph hcount hin hlength (hvector i hin)
      have := hstored.holds i hin
      simpa [hipage, getD_eq_getElem?_getD, hin] using this
  have hfit := hpack.fits (finish - 1) (by omega)
  have htail : ¬((content p).drop (off (finish - 1) + nodeSize header adjacency (finish - 1))).any
      (fun byte => byte ≠ 0) = true := by
    have hzero := hstored.tail (finish - 1) (by omega) (by
      intro hlt
      rw [hlastPage, Nat.sub_add_cancel (by omega)]
      have := (hfinish finish (by omega)).not.mpr (lt_irrefl _)
      omega)
    rw [hlastPage] at hzero
    simpa using hzero
  simp only [validateAdjacencyPagePayload]
  rw [rejectIf_bind (by simp [hlength]), partitionPoint_eq hloc (by simp) hfirst hfirstLe,
    ok_bind, partitionPoint_eq hloc (fun _ => decide_eq_true_iff.trans Nat.lt_succ_iff.symm) hfinish
      hfinishLe, ok_bind, rejectIf_bind (by omega), hrecords, ok_bind, rejectIf_bind (by omega),
    rejectIf_of_not htail]

end

end

end Accept

end PaimonVindex
