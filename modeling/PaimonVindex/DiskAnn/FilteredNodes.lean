import PaimonVindex.DiskAnn.IndexReader
import PaimonVindex.Ivf.Search

/-! The nodes that a filter selects, found in the row ids one after the other or
by binary search in their order. -/

namespace PaimonVindex

open Checked Bisect DiskAnnIndexReader RowIdStorage List
open Effect (lift get)

def useRowIdOrder (filterCardinality vectorCount : Nat) : Bool :=
  filterCardinality ≠ 0 ∧ filterCardinality ≤ vectorCount / 16

def visitMatching (filter : RoaringTreemap) (node : Nat) (rowId : Int64)
    (matching : Finset UInt32) : IoResult (Finset UInt32) :=
  if filter.contains rowId then do
    let node ← okOr (toU32 node) (invalidData "DiskANN internal node ID exceeds u32")
    return insert node matching
  else .ok matching

def matchingNodesFromSequentialRowIds (filter : RoaringTreemap) (rowIds : RowIdStorage) :
    IoResult (Finset UInt32) :=
  rowIds.tryForEach (visitMatching filter) ∅

section

variable (order : List UInt32)

def rowIdOrderPartitionPoint (predicate : UInt32 → IoResult Bool) : IoResult Nat :=
  bisect (fun middle => do predicate (← okOr order[middle]? (panicked "index out of bounds")))
    order.length 0 order.length

def matchingRange (rowIdAt : Nat → IoResult Int64) (rowId : Int64) : IoResult (Nat × Nat) := do
  let start ← rowIdOrderPartitionPoint order fun node => do
    return (← rowIdAt node.toNat) < rowId
  let finish ← rowIdOrderPartitionPoint order fun node => do
    return (← rowIdAt node.toNat) ≤ rowId
  return (start, finish)

/-- Values that no row id can have are skipped. -/
def appendMatchingRange (rowIdAt : Nat → IoResult Int64) (ranges : List (Nat × Nat)) :
    Option Int64 → IoResult (List (Nat × Nat))
  | none => .ok ranges
  | some rowId => do
    let (start, finish) ← matchingRange order rowIdAt rowId
    return if start ≠ finish then ranges ++ [(start, finish)] else ranges

def matchingRangesFromRowIdOrder (filter : RoaringTreemap) (rowIdAt : Nat → IoResult Int64) :
    IoResult (List (Nat × Nat)) :=
  filter.values.foldlM
    (fun ranges value => appendMatchingRange order rowIdAt ranges (i64OfInt value.toNat)) []

def insertRange (matching : Finset UInt32) (range : Nat × Nat) : IoResult (Finset UInt32) := do
  let nodes ← okOr (getRange order range.1 range.2) (panicked "range end index out of range")
  return matching ∪ nodes.toFinset

end

def rowIdOf (rowIds : RowIdStorage) (node : Nat) : IoResult Int64 :=
  okOr (rowIds.get node) (invalidData "DiskANN row-ID node is out of range")

def matchingNodesFromRowIdOrder (filter : RoaringTreemap) (rowIds : RowIdStorage)
    (order : List UInt32) : IoResult (Finset UInt32) := do
  let ranges ← matchingRangesFromRowIdOrder order filter (rowIdOf rowIds)
  ranges.foldlM (insertRange order) ∅

namespace DiskAnnIndexReader

variable (decodePqCodebook : List UInt8 → DiskAnnHeader → IoResult Unit) (source : SeekRead)
  (filter : RoaringTreemap)

/-- The order, if the filter is small enough for it and the budget allows it. -/
def rowIdOrderForFilter : Effect IoError DiskAnnIndexReader (Option (List UInt32)) := do
  ensureResident decodePqCodebook source
  let reader ← get
  if useRowIdOrder filter.len reader.header.vectorCount then
    ensureRowIdOrder decodePqCodebook source
  else pure none

def matchingNodesForFilter : Effect IoError DiskAnnIndexReader (Finset UInt32) := do
  let order ← rowIdOrderForFilter decodePqCodebook source filter
  let resident ← requireResident
  lift (match order with
    | some order => matchingNodesFromRowIdOrder filter resident.rowIds order
    | none => matchingNodesFromSequentialRowIds filter resident.rowIds)

end DiskAnnIndexReader

/-! ### An accepted order -/

section Order

variable {rowIds : RowIdStorage} {order : List UInt32}

/-- What an accepted order compares. -/
def orderKey (rowIds : RowIdStorage) (node : UInt32) : Int × Nat :=
  (((rowIds.get node.toNat).getD 0).toInt, node.toNat)

def KeyLt (left right : Int × Nat) : Prop :=
  left.1 < right.1 ∨ left.1 = right.1 ∧ left.2 < right.2

theorem KeyLt.trans {a b c : Int × Nat} (hab : KeyLt a b) (hbc : KeyLt b c) : KeyLt a c := by
  unfold KeyLt at *
  omega

theorem not_rowIdKeyLe {rowId previousId : Int64} {node previous : UInt32} :
    ¬rowIdKeyLe (rowId, node) (previousId, previous) ↔
      KeyLt (previousId.toInt, previous.toNat) (rowId.toInt, node.toNat) := by
  simp only [rowIdKeyLe, decide_eq_true_eq, Int64.lt_iff_toInt_lt, ← Int64.toInt_inj,
    UInt32.le_iff_toNat_le, KeyLt]
  omega

theorem validateRowIdOrderFrom_ok {previous : Option (Int64 × UInt32)}
    (h : validateRowIdOrderFrom rowIds previous order = .ok ()) :
    (∀ node ∈ order, (rowIds.get node.toNat).isSome) ∧
      order.Pairwise (fun left right => KeyLt (orderKey rowIds left) (orderKey rowIds right)) ∧
      ∀ key, previous = some key → ∀ node ∈ order,
        KeyLt (key.1.toInt, key.2.toNat) (orderKey rowIds node) := by
  induction order generalizing previous with
  | nil => simp
  | cons node rest ih =>
    simp only [validateRowIdOrderFrom, accepted] at h
    obtain ⟨rowId, hget, hprevious, hrest⟩ := h
    obtain ⟨hsome, hsorted, hafter⟩ := ih hrest
    have hkey : orderKey rowIds node = (rowId.toInt, node.toNat) := by
      rw [orderKey, hget, Option.getD_some]
    have hhead : ∀ next ∈ rest, KeyLt (orderKey rowIds node) (orderKey rowIds next) := by
      rw [hkey]
      exact hafter (rowId, node) rfl
    refine ⟨?_, pairwise_cons.mpr ⟨hhead, hsorted⟩, ?_⟩
    · intro next hnext
      rcases mem_cons.mp hnext with rfl | hnext
      · rw [hget]
        rfl
      · exact hsome next hnext
    · rintro key rfl next hnext
      have hfirst : KeyLt (key.1.toInt, key.2.toNat) (orderKey rowIds node) := by
        rw [hkey, ← not_rowIdKeyLe]
        simpa using hprevious
      rcases mem_cons.mp hnext with rfl | hnext
      · exact hfirst
      · exact hfirst.trans (hhead next hnext)

structure SortsNodes (rowIds : RowIdStorage) (order : List UInt32) : Prop where
  get_isSome : ∀ node ∈ order, (rowIds.get node.toNat).isSome
  sorted : order.Pairwise fun left right => KeyLt (orderKey rowIds left) (orderKey rowIds right)
  length_eq : order.length = rowIds.len

theorem validateRowIdOrder_ok (h : validateRowIdOrder rowIds order = .ok ()) :
    SortsNodes rowIds order := by
  simp only [validateRowIdOrder, accepted, not_not] at h
  obtain ⟨hlength, horder⟩ := h
  obtain ⟨hsome, hsorted, -⟩ := validateRowIdOrderFrom_ok horder
  exact ⟨hsome, hsorted, hlength⟩

theorem RowIdStorage.lt_len_of_get {node : Nat} (h : (rowIds.get node).isSome) :
    node < rowIds.len := by
  cases rowIds with
  | raw ids =>
    simpa [get, len] using h
  | forBitPacked base bitWidth count payload =>
    by_contra hge
    change ¬node < count at hge
    rw [get, if_pos (Nat.le_of_not_lt hge)] at h
    cases h

namespace SortsNodes

variable (h : SortsNodes rowIds order)
include h

theorem nodup : order.Nodup := by
  refine h.sorted.imp ?_
  rintro left _ hlt rfl
  unfold KeyLt at hlt
  omega

theorem mem_of_lt {node : Nat} (hnode : node < rowIds.len) :
    ∃ found ∈ order, found.toNat = node := by
  have hnodup : (order.map UInt32.toNat).Nodup :=
    h.nodup.map fun _ _ heq => UInt32.toNat_inj.mp heq
  have hsubset : order.map UInt32.toNat ⊆ List.range rowIds.len := by
    intro i hi
    obtain ⟨found, hfound, rfl⟩ := mem_map.mp hi
    exact mem_range.mpr (lt_len_of_get (h.get_isSome found hfound))
  have hperm : (order.map UInt32.toNat).Perm (List.range rowIds.len) :=
    (subperm_of_subset hnodup hsubset).perm_of_length_le (by simp [h.length_eq])
  exact mem_map.mp (hperm.mem_iff.mpr (mem_range.mpr hnode))

theorem get_isSome_of_lt {node : Nat} (hnode : node < rowIds.len) :
    (rowIds.get node).isSome := by
  obtain ⟨found, hfound, rfl⟩ := h.mem_of_lt hnode
  exact h.get_isSome found hfound

theorem len_le : rowIds.len ≤ 2 ^ 32 := by
  by_contra hlt
  obtain ⟨found, -, heq⟩ := h.mem_of_lt (Nat.lt_of_not_le hlt)
  have hfound := found.toNat_lt
  omega

theorem le_of_le {i j : Nat} (hij : i ≤ j) (hj : j < order.length) :
    (orderKey rowIds order[i]).1 ≤ (orderKey rowIds order[j]).1 := by
  rcases Nat.eq_or_lt_of_le hij with rfl | hlt
  · exact le_rfl
  · have hkeys := pairwise_iff_getElem.mp h.sorted i j (by omega) hj hlt
    unfold KeyLt at hkeys
    omega

theorem holds (hwidth : rowIds.bitWidth < 2 ^ 8) :
    ∃ ids, ids.length = rowIds.len ∧ rowIds.Holds ids := by
  have hlen := h.len_le
  cases rowIds with
  | raw ids => exact ⟨ids, rfl, RowIdStorage.holds_raw ids⟩
  | forBitPacked base bitWidth count payload =>
    change count ≤ 2 ^ 32 at hlen
    change bitWidth < 2 ^ 8 at hwidth
    have hids : ∀ i < count, ∃ id,
        RowIdStorage.packedRowId base bitWidth payload (i * bitWidth) = some id := by
      intro i hi
      obtain ⟨id, hid⟩ := Option.isSome_iff_exists.mp (h.get_isSome_of_lt hi)
      rw [RowIdStorage.get, if_neg (by omega), unpackRowIdDelta] at hid
      simp only [Option.bind_eq_some_iff, checkedMul_eq_some] at hid
      obtain ⟨delta, ⟨_, ⟨rfl, -⟩, hdelta⟩, hrange⟩ := hid
      exact ⟨id, Option.bind_eq_some_iff.mpr ⟨delta, hdelta, hrange⟩⟩
    choose! idAt hidAt using hids
    have hlength : ((List.range count).map idAt).length = count := by simp
    refine ⟨(List.range count).map idAt, hlength, ?_⟩
    have hword : wordSize = 2 ^ 64 := rfl
    have hfits : ((List.range count).map idAt).length * bitWidth < wordSize := by
      rw [hlength, hword]
      nlinarith
    have hpacked : (RowIdStorage.forBitPacked base bitWidth
        ((List.range count).map idAt).length payload).Holds ((List.range count).map idAt) := by
      refine RowIdStorage.holds_packed (fun i hi => ?_) hfits
      rw [getElem_map, getElem_range]
      exact hidAt i (by omega)
    rwa [hlength] at hpacked

end SortsNodes

end Order

/-! ### Both ways -/

theorem RoaringTreemap.contains_iff (filter : RoaringTreemap) (rowId : Int64) :
    filter.contains rowId ↔ ∃ value ∈ filter.values, (value.toNat : Int) = rowId.toInt := by
  have hvalue : ∀ value : UInt64,
      0 ≤ rowId ∧ rowId.toUInt64 = value ↔ (value.toNat : Int) = rowId.toInt := by
    intro value
    have hword : rowId.toInt = rowId.toUInt64.toBitVec.toInt := rfl
    have hzero : (0 : Int64).toInt = 0 := rfl
    have hlt := rowId.toUInt64.toNat_lt
    rw [Int64.le_iff_toInt_le, hword, BitVec.toInt_eq_toNat_cond, ← UInt64.toNat_inj, hzero,
      UInt64.toNat_toBitVec]
    have hlt' := value.toNat_lt
    split <;> omega
  rw [RoaringTreemap.contains, decide_eq_true_eq]
  constructor
  · rintro ⟨hnonneg, hmem⟩
    exact ⟨_, hmem, (hvalue _).mp ⟨hnonneg, rfl⟩⟩
  · rintro ⟨value, hmem, heq⟩
    obtain ⟨hnonneg, rfl⟩ := (hvalue value).mpr heq
    exact ⟨hnonneg, hmem⟩

theorem i64OfInt_eq_some {x : Int} {id : Int64} : i64OfInt x = some id ↔ id.toInt = x := by
  rw [i64OfInt]
  constructor
  · intro h
    split at h
    · rename_i hrange
      cases h
      exact Int64.toInt_ofInt_of_le hrange.1 hrange.2
    · cases h
  · rintro rfl
    rw [if_pos ⟨id.le_toInt, id.toInt_lt⟩, Int64.ofInt_toInt]

section Matching

variable {rowIds : RowIdStorage} {ids : List Int64} {order : List UInt32} {filter : RoaringTreemap}

theorem visitAll_matching (ids : List Int64) (start : Nat)
    (hstart : start + ids.length ≤ 2 ^ 32) (matching : Finset UInt32) :
    ∃ result, visitAll (visitMatching filter) ids start matching = .ok result ∧
      ∀ node, node ∈ result ↔ node ∈ matching ∨
        ∃ i, start + i = node.toNat ∧ (ids[i]?).any filter.contains := by
  induction ids generalizing start matching with
  | nil => exact ⟨matching, rfl, by simp⟩
  | cons id ids ih =>
    rw [length_cons] at hstart
    have hstep : ∃ next, visitMatching filter start id matching = .ok next ∧
        ∀ node, node ∈ next ↔ node ∈ matching ∨
          start = node.toNat ∧ filter.contains id := by
      rw [visitMatching]
      by_cases hid : filter.contains id = true
      · have hu32 : toU32 start = some (UInt32.ofNat start) := if_pos (by omega)
        rw [if_pos hid, hu32]
        refine ⟨insert (UInt32.ofNat start) matching, rfl, fun node => ?_⟩
        have hsize : start < UInt32.size := by
          change start < 2 ^ 32
          omega
        have hnode : node = UInt32.ofNat start ↔ start = node.toNat := by
          rw [← UInt32.toNat_inj, UInt32.toNat_ofNat_of_lt' hsize, eq_comm]
        rw [Finset.mem_insert, hnode, or_comm, and_iff_left hid]
      · rw [if_neg hid]
        exact ⟨matching, rfl, by simp [hid]⟩
    obtain ⟨next, hnext, hmem⟩ := hstep
    obtain ⟨result, hresult, hrest⟩ := ih (start + 1) (by omega) next
    refine ⟨result, ?_, fun node => ?_⟩
    · rw [visitAll, zipIdx_cons, foldlM_cons, hnext, ok_bind]
      exact hresult
    · rw [hrest, hmem, or_assoc]
      refine or_congr_right ⟨?_, ?_⟩
      · rintro (⟨heq, hid⟩ | ⟨i, heq, hid⟩)
        · exact ⟨0, heq, by simpa using hid⟩
        · exact ⟨i + 1, by omega, by simpa using hid⟩
      · rintro ⟨i, heq, hid⟩
        cases i with
        | zero => exact .inl ⟨heq, by simpa using hid⟩
        | succ i => exact .inr ⟨i, by omega, by simpa using hid⟩

theorem sequential_matching (hholds : rowIds.Holds ids) (hlength : ids.length ≤ 2 ^ 32) :
    ∃ result, matchingNodesFromSequentialRowIds filter rowIds = .ok result ∧
      ∀ node, node ∈ result ↔ (rowIds.get node.toNat).any filter.contains := by
  obtain ⟨result, hresult, hmem⟩ :
      ∃ result, visitAll (visitMatching filter) ids 0 ∅ = .ok result ∧ _ :=
    visitAll_matching ids 0 (by omega) ∅
  refine ⟨result, ?_, fun node => ?_⟩
  · rw [matchingNodesFromSequentialRowIds, hholds.tryForEach_eq, hresult]
  · rw [hmem, hholds.get_eq]
    simp

namespace SortsNodes

variable (h : SortsNodes rowIds order)
include h

theorem rowIdOf_eq {node : UInt32} (hnode : node ∈ order) :
    rowIdOf rowIds node.toNat = .ok ((rowIds.get node.toNat).getD 0) := by
  obtain ⟨id, hid⟩ := Option.isSome_iff_exists.mp (h.get_isSome node hnode)
  rw [rowIdOf, hid, okOr_some, Option.getD_some]

theorem partitionPoint_eq {p : Int → Prop} [DecidablePred p] (hdown : ∀ a b, a ≤ b → p b → p a)
    {predicate : UInt32 → IoResult Bool}
    (hpredicate : ∀ node ∈ order, predicate node = .ok (decide (p (orderKey rowIds node).1))) :
    ∃ cut ≤ order.length, rowIdOrderPartitionPoint order predicate = .ok cut ∧
      ∀ i, (hi : i < order.length) → (p (orderKey rowIds order[i]).1 ↔ i < cut) := by
  have hgetD : ∀ i, (hi : i < order.length) → order.getD i 0 = order[i] := fun i hi =>
    getD_eq_getElem _ _ hi
  have hinherited : ∀ i j, 0 ≤ i → i ≤ j → j < order.length →
      p (orderKey rowIds (order.getD j 0)).1 → p (orderKey rowIds (order.getD i 0)).1 := by
    intro i j _ hij hj hp
    rw [hgetD j hj] at hp
    rw [hgetD i (by omega)]
    exact hdown _ _ (h.le_of_le hij hj) hp
  obtain ⟨cut, -, hcut, hiff⟩ := exists_cut (Nat.zero_le _) hinherited
  refine ⟨cut, hcut, ?_, fun i hi => ?_⟩
  · refine bisect_eq (by simpa using Nat.lt_two_pow_self) (Nat.zero_le _) hcut fun i _ hi => ?_
    rw [List.getElem?_eq_getElem hi, okOr_some, ok_bind, hpredicate _ (getElem_mem hi)]
    have := hiff i (Nat.zero_le _) hi
    rw [hgetD i hi] at this
    rw [pure_eq_ok, decide_eq_decide.mpr this]
  · rw [← hgetD i hi]
    exact hiff i (Nat.zero_le _) hi

theorem matchingRange_eq (rowId : Int64) :
    ∃ start finish, matchingRange order (rowIdOf rowIds) rowId = .ok (start, finish) ∧
      start ≤ finish ∧ finish ≤ order.length ∧
      ∀ i, (hi : i < order.length) →
        (start ≤ i ∧ i < finish ↔ (orderKey rowIds order[i]).1 = rowId.toInt) := by
  have hless : ∀ node ∈ order, (do return (← rowIdOf rowIds node.toNat) < rowId : IoResult Bool) =
      .ok (decide ((orderKey rowIds node).1 < rowId.toInt)) := by
    intro node hnode
    rw [h.rowIdOf_eq hnode, ok_bind, pure_eq_ok]
    exact congrArg Except.ok (decide_eq_decide.mpr Int64.lt_iff_toInt_lt)
  have hupTo : ∀ node ∈ order, (do return (← rowIdOf rowIds node.toNat) ≤ rowId : IoResult Bool) =
      .ok (decide ((orderKey rowIds node).1 ≤ rowId.toInt)) := by
    intro node hnode
    rw [h.rowIdOf_eq hnode, ok_bind, pure_eq_ok]
    exact congrArg Except.ok (decide_eq_decide.mpr Int64.le_iff_toInt_le)
  obtain ⟨start, hstart, hstartEq, hbelow⟩ :=
    h.partitionPoint_eq (p := (· < rowId.toInt)) (fun _ _ => lt_of_le_of_lt) hless
  obtain ⟨finish, hfinish, hfinishEq, hupto⟩ :=
    h.partitionPoint_eq (p := (· ≤ rowId.toInt)) (fun _ _ => le_trans) hupTo
  have hle : start ≤ finish := by
    by_contra hlt
    have hb := (hbelow finish (by omega)).mpr (by omega)
    have hf := (hupto finish (by omega)).mp hb.le
    omega
  refine ⟨start, finish, ?_, hle, hfinish, fun i hi => ?_⟩
  · rw [matchingRange, hstartEq, ok_bind, hfinishEq, ok_bind, pure_eq_ok]
  · have hb := hbelow i hi
    have hf := hupto i hi
    omega

variable {ranges : List (Nat × Nat)}

theorem appendMatchingRange_eq (value : UInt64)
    (hranges : ∀ range ∈ ranges, range.1 ≤ range.2 ∧ range.2 ≤ order.length) :
    ∃ next, appendMatchingRange order (rowIdOf rowIds) ranges (i64OfInt value.toNat) = .ok next ∧
      (∀ range ∈ next, range.1 ≤ range.2 ∧ range.2 ≤ order.length) ∧
      ∀ i, (hi : i < order.length) → ((∃ range ∈ next, range.1 ≤ i ∧ i < range.2) ↔
        (∃ range ∈ ranges, range.1 ≤ i ∧ i < range.2) ∨
          (value.toNat : Int) = (orderKey rowIds order[i]).1) := by
  cases hvalue : i64OfInt value.toNat with
  | none =>
    refine ⟨ranges, rfl, hranges, fun i hi => ?_⟩
    have hnone : ¬(value.toNat : Int) = (orderKey rowIds order[i]).1 := by
      intro hkey
      rw [orderKey] at hkey
      rw [i64OfInt_eq_some.mpr hkey.symm] at hvalue
      cases hvalue
    rw [or_iff_left hnone]
  | some rowId =>
    obtain ⟨start, finish, heq, hle, hfinish, hiff⟩ := h.matchingRange_eq rowId
    rw [i64OfInt_eq_some.mp hvalue] at hiff
    by_cases hsame : start = finish
    · refine ⟨ranges, ?_, hranges, fun i hi => ?_⟩
      · simp only [appendMatchingRange, heq, ok_bind, hsame, ne_eq, not_true_eq_false,
          if_false, pure_eq_ok]
      · have hnone : ¬(value.toNat : Int) = (orderKey rowIds order[i]).1 := by
          intro hkey
          have := (hiff i hi).mpr hkey.symm
          omega
        rw [or_iff_left hnone]
    · refine ⟨ranges ++ [(start, finish)], ?_, ?_, fun i hi => ?_⟩
      · simp only [appendMatchingRange, heq, ok_bind, hsame, ne_eq, not_false_eq_true,
          if_true, pure_eq_ok]
      · intro range hrange
        rcases mem_append.mp hrange with hold | hnew
        · exact hranges range hold
        · rw [mem_singleton] at hnew
          subst hnew
          exact ⟨hle, hfinish⟩
      · rw [eq_comm, ← hiff i hi]
        simp only [mem_append, mem_singleton, or_and_right, exists_or, exists_eq_left]

theorem matchingRanges_eq (values : List UInt64)
    (hranges : ∀ range ∈ ranges, range.1 ≤ range.2 ∧ range.2 ≤ order.length) :
    ∃ result, values.foldlM (fun ranges value =>
        appendMatchingRange order (rowIdOf rowIds) ranges (i64OfInt value.toNat)) ranges =
          .ok result ∧
      (∀ range ∈ result, range.1 ≤ range.2 ∧ range.2 ≤ order.length) ∧
      ∀ i, (hi : i < order.length) → ((∃ range ∈ result, range.1 ≤ i ∧ i < range.2) ↔
        (∃ range ∈ ranges, range.1 ≤ i ∧ i < range.2) ∨
          ∃ value ∈ values, (value.toNat : Int) = (orderKey rowIds order[i]).1) := by
  induction values generalizing ranges with
  | nil => exact ⟨ranges, rfl, hranges, by simp⟩
  | cons value values ih =>
    obtain ⟨next, hnext, hvalid, hmem⟩ := h.appendMatchingRange_eq value hranges
    obtain ⟨result, hresult, hvalid', hmem'⟩ := ih hvalid
    refine ⟨result, ?_, hvalid', fun i hi => ?_⟩
    · rw [foldlM_cons, hnext, ok_bind, hresult]
    · rw [hmem' i hi, hmem i hi, or_assoc]
      simp

omit h in
theorem insertRanges_eq (hranges : ∀ range ∈ ranges, range.1 ≤ range.2 ∧ range.2 ≤ order.length)
    (matching : Finset UInt32) :
    ∃ result, ranges.foldlM (insertRange order) matching = .ok result ∧
      ∀ node, node ∈ result ↔ node ∈ matching ∨
        ∃ i, ∃ hi : i < order.length, order[i] = node ∧ ∃ range ∈ ranges, range.1 ≤ i ∧
          i < range.2 := by
  induction ranges generalizing matching with
  | nil => exact ⟨matching, rfl, by simp⟩
  | cons range ranges ih =>
    obtain ⟨hle, hlength⟩ := hranges range mem_cons_self
    obtain ⟨result, hresult, hmem⟩ := ih (fun r hr => hranges r (mem_cons_of_mem _ hr))
      (matching ∪ ((order.drop range.1).take (range.2 - range.1)).toFinset)
    refine ⟨result, ?_, fun node => ?_⟩
    · rw [foldlM_cons, insertRange, getRange_of_le hle hlength, okOr_some, ok_bind,
        pure_eq_ok, ok_bind, hresult]
    · have hslice : node ∈ (order.drop range.1).take (range.2 - range.1) ↔
          ∃ i, ∃ hi : i < order.length, order[i] = node ∧ range.1 ≤ i ∧ i < range.2 := by
        rw [mem_iff_getElem]
        constructor
        · rintro ⟨j, hj, heq⟩
          rw [length_take, length_drop] at hj
          rw [getElem_take, getElem_drop] at heq
          exact ⟨range.1 + j, by omega, heq, by omega, by omega⟩
        · rintro ⟨i, hi, heq, hstart, hfinish⟩
          refine ⟨i - range.1, by rw [length_take, length_drop]; omega, ?_⟩
          rw [getElem_take, getElem_drop]
          simpa only [Nat.add_sub_cancel' hstart] using heq
      rw [hmem, Finset.mem_union, mem_toFinset, hslice, or_assoc]
      refine or_congr_right ?_
      simp only [mem_cons, or_and_right, exists_or, exists_eq_left, and_or_left]

theorem order_matching :
    ∃ result, matchingNodesFromRowIdOrder filter rowIds order = .ok result ∧
      ∀ node, node ∈ result ↔ (rowIds.get node.toNat).any filter.contains := by
  obtain ⟨ranges, hranges, hvalid, hmem⟩ := h.matchingRanges_eq filter.values
    (fun _ hrange => absurd hrange not_mem_nil)
  obtain ⟨result, hresult, hnodes⟩ := insertRanges_eq hvalid ∅
  refine ⟨result, ?_, fun node => ?_⟩
  · rw [matchingNodesFromRowIdOrder, matchingRangesFromRowIdOrder, hranges, ok_bind, hresult]
  · rw [hnodes]
    simp only [Finset.notMem_empty, false_or]
    constructor
    · rintro ⟨i, hi, rfl, hrange⟩
      obtain ⟨id, hid⟩ := Option.isSome_iff_exists.mp (h.get_isSome _ (getElem_mem hi))
      have hvalue := (hmem i hi).mp hrange
      rw [orderKey, hid, Option.getD_some] at hvalue
      rw [hid, Option.any_some, filter.contains_iff]
      simpa using hvalue
    · intro hany
      cases hid : rowIds.get node.toNat with
      | none =>
        rw [hid] at hany
        cases hany
      | some id =>
        rw [hid, Option.any_some, filter.contains_iff] at hany
        have hlt : node.toNat < rowIds.len := lt_len_of_get (by rw [hid]; rfl)
        obtain ⟨found, hfound, heq⟩ := h.mem_of_lt hlt
        obtain rfl : found = node := UInt32.toNat_inj.mp heq
        obtain ⟨i, hi, rfl⟩ := mem_iff_getElem.mp hfound
        refine ⟨i, hi, rfl, (hmem i hi).mpr (.inr ?_)⟩
        rwa [orderKey, hid, Option.getD_some]

theorem matching_eq (hholds : rowIds.Holds ids) :
    ∃ matching, matchingNodesFromRowIdOrder filter rowIds order = .ok matching ∧
      matchingNodesFromSequentialRowIds filter rowIds = .ok matching := by
  have hlength : ids.length ≤ 2 ^ 32 := by
    by_contra hlt
    have hget := hholds.get_eq (2 ^ 32)
    rw [List.getElem?_eq_getElem (Nat.lt_of_not_le hlt)] at hget
    have hlen : 2 ^ 32 < rowIds.len := lt_len_of_get (by rw [hget]; rfl)
    have hle := h.len_le
    omega
  obtain ⟨fromOrder, horder, hmem⟩ := h.order_matching
  obtain ⟨sequential, hsequential, hmem'⟩ := sequential_matching hholds hlength
  have hsame : fromOrder = sequential := by
    ext node
    rw [hmem, hmem']
  exact ⟨fromOrder, horder, hsame ▸ hsequential⟩

end SortsNodes

end Matching

namespace DiskAnnIndexReader

variable {header : DiskAnnHeader} {options : ResolvedVectorIndexReaderOptions} {steady : Nat}
  (decodePqCodebook : List UInt8 → DiskAnnHeader → IoResult Unit) (source : SeekRead)
  (filter : RoaringTreemap)

theorem rowIdOrderForFilter_ready (hopened : Opened header options steady) :
    (rowIdOrderForFilter decodePqCodebook source filter).Ensures (Budgeted header options steady)
      (fun found s => Ready header options steady s ∧
        ∀ order, found = some order → s.rowIdOrder = .loaded order)
      (Budgeted header options steady) := by
  refine Effect.ensures_bind (ensureResident_ready hopened decodePqCodebook source) fun _ => ?_
  apply Effect.ensures_bind_get
  intro reader hready
  split
  · rintro _ rfl
    exact ensureRowIdOrder_ready hopened decodePqCodebook source _ hready.1
  · apply Effect.ensures_pure
    rintro _ rfl
    exact ⟨hready, fun _ h => nomatch h⟩

theorem matchingNodesForFilter_eq (hopened : Opened header options steady)
    {reader s : DiskAnnIndexReader} (hreader : Budgeted header options steady reader)
    {found : Option (List UInt32)}
    (hrun : (rowIdOrderForFilter decodePqCodebook source filter).run reader = (.ok found, s)) :
    ∃ resident, s.resident = some resident ∧
      (matchingNodesForFilter decodePqCodebook source filter).run reader =
        (matchingNodesFromSequentialRowIds filter resident.rowIds, s) := by
  obtain ⟨hready, hloaded⟩ :=
    (rowIdOrderForFilter_ready decodePqCodebook source filter hopened reader hreader).1 _ _ hrun
  obtain ⟨resident, limit, hcapped, -, hordered, ids, hids⟩ := ready_cases hready
  refine ⟨resident, hcapped.resident_eq, ?_⟩
  rw [matchingNodesForFilter, Effect.run_bind_ok hrun,
    Effect.run_bind_ok (run_requireResident hcapped.resident_eq), Effect.run_lift]
  cases found with
  | none => rfl
  | some order =>
    have hsorts := validateRowIdOrder_ok (hordered order (hloaded order rfl))
    obtain ⟨matching, horder, hsequential⟩ :
        ∃ matching, matchingNodesFromRowIdOrder filter resident.rowIds order = .ok matching ∧
          matchingNodesFromSequentialRowIds filter resident.rowIds = .ok matching :=
      hsorts.matching_eq hids
    dsimp only
    rw [horder, hsequential]

end DiskAnnIndexReader

/-- The order that is accepted and the scan select the same nodes, so that
neither the size of the filter nor the budget matters to the selection. -/
theorem filtered_nodes_independent_of_lookup :
    (∀ (filter : RoaringTreemap) (rowIds : RowIdStorage) (order : List UInt32),
      rowIds.bitWidth < 2 ^ 8 → validateRowIdOrder rowIds order = .ok () →
        ∃ matching, matchingNodesFromRowIdOrder filter rowIds order = .ok matching ∧
          matchingNodesFromSequentialRowIds filter rowIds = .ok matching) ∧
      ∀ (decodePqCodebook : List UInt8 → DiskAnnHeader → IoResult Unit) (source : SeekRead)
        (filter : RoaringTreemap) (header : DiskAnnHeader) (readTier : DeploymentProfile)
        (budget : UInt64) (opened s : DiskAnnIndexReader) (calls : List ReaderCall)
        (found : Option (List UInt32)),
        openWithOptions header readTier (.new budget.toNat) = .ok opened →
        (rowIdOrderForFilter decodePqCodebook source filter).run
          (opened.run decodePqCodebook calls) = (.ok found, s) →
        ∃ resident, s.resident = some resident ∧
          (matchingNodesForFilter decodePqCodebook source filter).run
            (opened.run decodePqCodebook calls) =
              (matchingNodesFromSequentialRowIds filter resident.rowIds, s) := by
  constructor
  · intro filter rowIds order hwidth hvalid
    have hsorts := validateRowIdOrder_ok hvalid
    obtain ⟨ids, -, hids⟩ := hsorts.holds hwidth
    exact hsorts.matching_eq hids
  · intro decodePqCodebook source filter header readTier budget opened s calls found hopen hrun
    obtain ⟨options, steady, hopened, hbudgeted, -⟩ :=
      openWithOptions_budgeted hopen
    exact matchingNodesForFilter_eq decodePqCodebook source filter hopened
      (run_budgeted decodePqCodebook hopened hbudgeted calls) hrun

/-- A value that two rows have, one that no row id can have, and zero. -/
def threeValues : RoaringTreemap := ⟨[5, 9223372036854775809, 0], by decide⟩

theorem filtered_nodes_independent_of_lookup_duplicates :
    (∃ matching, matchingNodesFromRowIdOrder threeValues (.raw [5, -3, 5]) [1, 0, 2] =
        .ok matching ∧
      matchingNodesFromSequentialRowIds threeValues (.raw [5, -3, 5]) = .ok matching) ∧
      ∃ opened s found,
        openWithOptions singleNodeHeader .auto
            (.new 65536) = .ok opened ∧
          (rowIdOrderForFilter (fun _ _ => .ok ())
            singleNodeSource threeValues).run
              (opened.run (fun _ _ => .ok ()) []) = (.ok found, s) ∧
          ∃ resident, s.resident = some resident ∧
            (matchingNodesForFilter (fun _ _ => .ok ())
              singleNodeSource threeValues).run
                (opened.run (fun _ _ => .ok ()) []) =
              (matchingNodesFromSequentialRowIds threeValues resident.rowIds, s) := by
  obtain ⟨hsets, hreaders⟩ := filtered_nodes_independent_of_lookup
  refine ⟨hsets _ _ _ (by decide) (by decide), ?_⟩
  have hopen : (openWithOptions singleNodeHeader .auto
      (.new 65536)).toOption.any (fun opened =>
        ((rowIdOrderForFilter (fun _ _ => .ok ())
          singleNodeSource threeValues).run opened).1.toOption.isSome) =
      true := by
    decide +kernel
  obtain ⟨opened, hopened, hrun⟩ := exists_ok_of_any hopen
  cases hresult : (rowIdOrderForFilter (fun _ _ => .ok ())
      singleNodeSource threeValues).run opened with
  | mk r s =>
    rw [hresult] at hrun
    cases r with
    | error e => cases hrun
    | ok found =>
      exact ⟨opened, s, found, hopened, hresult, hreaders _ _ _ _ _ 65536 _ _ [] _ hopened hresult⟩

end PaimonVindex
