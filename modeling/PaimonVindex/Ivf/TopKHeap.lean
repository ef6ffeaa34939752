import Mathlib.Data.List.GetD
import Mathlib.Data.List.Perm.Basic
import PaimonVindex.Scalar

/-! The three top-k collectors. All keep at most `k` rows and drop NaN values;
they differ in how the worst row is found and in what happens to equal ids. -/

namespace PaimonVindex

open Scalar List

variable {K : Type} [Scalar K]

abbrev Candidate (K : Type) := K × Int64

/-- The value that stands for no candidate; it is never read inside a heap. -/
def noCandidate : Candidate K := (maxValue, -1)

/-- `a.0.total_cmp(&b.0).is_gt()`. -/
def farther (a b : Candidate K) : Bool := totalLt b.1 a.1

section

variable (data : List (Candidate K))

def swapAt (i j : Nat) : List (Candidate K) :=
  (data.set i (data.getD j noCandidate)).set j (data.getD i noCandidate)

@[simp] theorem swapAt_length (i j : Nat) : (swapAt data i j).length = data.length := by
  simp [swapAt]

theorem swapAt_perm {data : List (Candidate K)} {i j : Nat} (hi : i < data.length)
    (hj : j < data.length) : (swapAt data i j).Perm data := by
  simp only [swapAt, getD_eq_getElem _ _ hi, getD_eq_getElem _ _ hj]
  exact set_set_perm hi hj

/-- The child of `i` that has to move up, or `i` itself. -/
def largestChild (i : Nat) : Nat :=
  let cell (j : Nat) := data.getD j noCandidate
  let largest :=
    if 2 * i + 1 < data.length ∧ farther (cell (2 * i + 1)) (cell i) then 2 * i + 1 else i
  if 2 * i + 2 < data.length ∧ farther (cell (2 * i + 2)) (cell largest) then 2 * i + 2 else largest

theorem largestChild_cases (i : Nat) :
    largestChild data i = i ∨ i < largestChild data i ∧ largestChild data i < data.length := by
  unfold largestChild
  grind

def siftDown (data : List (Candidate K)) (i : Nat) : List (Candidate K) :=
  if largestChild data i = i then data
  else siftDown (swapAt data i (largestChild data i)) (largestChild data i)
termination_by data.length - i
decreasing_by
  have := largestChild_cases data i
  rw [swapAt_length]
  omega

theorem siftDown_perm (i : Nat) : (siftDown data i).Perm data := by
  fun_induction siftDown data i with
  | case1 data i h => exact List.Perm.refl _
  | case2 data i h ih =>
    rcases largestChild_cases data i with heq | ⟨hlt, hlen⟩
    · exact absurd heq h
    · exact ih.trans (swapAt_perm (hlt.trans hlen) hlen)

def buildMaxHeap : List (Candidate K) :=
  (List.range (data.length / 2)).reverse.foldl siftDown data

theorem foldl_siftDown_perm (positions : List Nat) (data : List (Candidate K)) :
    (positions.foldl siftDown data).Perm data := by
  induction positions generalizing data with
  | nil => exact List.Perm.refl _
  | cons i positions ih => exact (ih _).trans (siftDown_perm data i)

theorem buildMaxHeap_perm : (buildMaxHeap data).Perm data :=
  foldl_siftDown_perm _ _

/-- Ascending by distance, equal distances in their order. -/
def sortedCandidates : List (Candidate K) :=
  data.mergeSort fun a b => !farther a b

theorem sortedCandidates_perm : (sortedCandidates data).Perm data :=
  mergeSort_perm _ _

@[simp] theorem sortedCandidates_length : (sortedCandidates data).length = data.length :=
  length_mergeSort _

end

/-- The heap of the IVF-PQ search. It is made a heap when it becomes full. -/
structure TopKHeap (K : Type) (k : Nat) where
  data : List (Candidate K)
  bounded : data.length ≤ k

namespace TopKHeap

variable {k : Nat}

def new (k : Nat) : TopKHeap K k := ⟨[], Nat.zero_le k⟩

def pushData (k : Nat) (data : List (Candidate K)) (row : Candidate K) : List (Candidate K) :=
  if k = 0 ∨ isNan row.1 then data
  else if data.length < k then
    if (data ++ [row]).length = k then buildMaxHeap (data ++ [row]) else data ++ [row]
  else if farther (data.getD 0 noCandidate) row then siftDown (data.set 0 row) 0
  else data

theorem pushData_length (k : Nat) (data : List (Candidate K)) (row : Candidate K)
    (h : data.length ≤ k) : (pushData k data row).length =
      min k (data.length + if isNan row.1 then 0 else 1) := by
  have hsift := (siftDown_perm (data.set 0 row) 0).length_eq
  have hbuild := (buildMaxHeap_perm (data ++ [row])).length_eq
  rw [length_set] at hsift
  rw [length_append, length_singleton] at hbuild
  unfold pushData
  by_cases hnan : isNan row.1 <;> grind

def push (heap : TopKHeap K k) (row : Candidate K) : TopKHeap K k where
  data := pushData k heap.data row
  bounded := by
    rw [pushData_length k heap.data row heap.bounded]
    exact Nat.min_le_left _ _

def pushAll (heap : TopKHeap K k) (rows : List (Candidate K)) : TopKHeap K k := rows.foldl push heap

def intoSorted (heap : TopKHeap K k) : List (Candidate K) := sortedCandidates heap.data

end TopKHeap

def eligible (rows : List (Candidate K)) : List (Candidate K) := rows.filter fun row => !isNan row.1

@[simp] theorem eligible_append (a b : List (Candidate K)) :
    eligible (a ++ b) = eligible a ++ eligible b := filter_append _ _

namespace TopKHeap

variable {k : Nat}

section

variable (heap : TopKHeap K k)

theorem push_length (row : Candidate K) :
    (heap.push row).data.length = min k (heap.data.length + (eligible [row]).length) := by
  have h := pushData_length k heap.data row heap.bounded
  by_cases hnan : isNan row.1 <;> simpa [push, eligible, hnan] using h

theorem pushAll_length (rows : List (Candidate K)) :
    (heap.pushAll rows).data.length = min k (heap.data.length + (eligible rows).length) := by
  induction rows generalizing heap with
  | nil => simpa [pushAll, eligible] using heap.bounded
  | cons row rows ih =>
    have hstep := push_length heap row
    have hsplit : (eligible (row :: rows)).length =
        (eligible [row]).length + (eligible rows).length := by
      rw [← length_append, ← eligible_append, singleton_append]
    rw [pushAll, foldl_cons, ← pushAll, ih, hstep, hsplit]
    omega

theorem push_perm (row : Candidate K) (h : heap.data.length + (eligible [row]).length ≤ k) :
    (heap.push row).data.Perm (heap.data ++ eligible [row]) := by
  by_cases hnan : isNan row.1
  · simp [push, pushData, eligible, hnan]
  · have hrow : eligible [row] = [row] := by simp [eligible, hnan]
    rw [hrow, length_singleton] at h
    rw [hrow]
    have hk : ¬(k = 0 ∨ isNan row.1) := not_or.mpr ⟨by omega, hnan⟩
    simp only [push, pushData, if_neg hk, if_pos (show heap.data.length < k by omega)]
    split
    · exact buildMaxHeap_perm _
    · exact List.Perm.refl _

theorem pushAll_perm (rows : List (Candidate K))
    (h : heap.data.length + (eligible rows).length ≤ k) :
    (heap.pushAll rows).data.Perm (heap.data ++ eligible rows) := by
  induction rows generalizing heap with
  | nil => simp [pushAll, eligible]
  | cons row rows ih =>
    have hsplit : eligible (row :: rows) = eligible [row] ++ eligible rows := by
      rw [← eligible_append, singleton_append]
    rw [hsplit, length_append] at h
    have hstep := push_perm heap row (by omega)
    have hrest := ih (heap.push row) (by rw [hstep.length_eq, length_append]; omega)
    rw [hsplit, ← append_assoc]
    exact hrest.trans (hstep.append_right _)

theorem pushAll_append (xs ys : List (Candidate K)) :
    heap.pushAll (xs ++ ys) = (heap.pushAll xs).pushAll ys :=
  foldl_append

end

theorem eligible_push {heap : TopKHeap K k} (h : eligible heap.data = heap.data)
    (row : Candidate K) : eligible (heap.push row).data = (heap.push row).data := by
  have hall : ∀ x ∈ heap.data, isNan x.1 = false := by
    simpa [eligible, filter_eq_self] using h
  have hkeep : ∀ x ∈ (heap.push row).data, x ∈ heap.data ∨ x = row ∧ isNan row.1 = false := by
    intro x hx
    have hmem : ∀ y ∈ heap.data.set 0 row, y ∈ heap.data ∨ y = row :=
      fun y hy => mem_or_eq_of_mem_set hy
    simp only [push, pushData] at hx
    split at hx
    · exact Or.inl hx
    · rename_i hrow
      have hfinite : isNan row.1 = false := by simpa using (not_or.mp hrow).2
      split at hx
      · split at hx
        · rcases mem_append.mp ((buildMaxHeap_perm _).mem_iff.mp hx) with hx | hx
          · exact Or.inl hx
          · exact Or.inr ⟨mem_singleton.mp hx, hfinite⟩
        · rcases mem_append.mp hx with hx | hx
          · exact Or.inl hx
          · exact Or.inr ⟨mem_singleton.mp hx, hfinite⟩
      · split at hx
        · rcases hmem x ((siftDown_perm _ _).mem_iff.mp hx) with hx | hx
          · exact Or.inl hx
          · exact Or.inr ⟨hx, hfinite⟩
        · exact Or.inl hx
  simp only [eligible, filter_eq_self, Bool.not_eq_true']
  intro x hx
  rcases hkeep x hx with hx | ⟨rfl, hx⟩
  · exact hall x hx
  · exact hx

theorem eligible_pushAll {heap : TopKHeap K k} (h : eligible heap.data = heap.data)
    (rows : List (Candidate K)) :
    eligible (heap.pushAll rows).data = (heap.pushAll rows).data := by
  induction rows generalizing heap with
  | nil => exact h
  | cons row rows ih => exact ih (eligible_push h row)

/-- The heap `heap'` comes from `heap` by taking in `rows`: it is full, or it has
every row that is not NaN. -/
structure Absorbs (heap : TopKHeap K k) (rows : List (Candidate K)) (heap' : TopKHeap K k) :
    Prop where
  length : heap'.data.length = min k (heap.data.length + (eligible rows).length)
  perm : heap.data.length + (eligible rows).length ≤ k →
    heap'.data.Perm (heap.data ++ eligible rows)

theorem absorbs_pushAll (heap : TopKHeap K k) (rows : List (Candidate K)) :
    Absorbs heap rows (heap.pushAll rows) :=
  ⟨pushAll_length heap rows, pushAll_perm heap rows⟩

theorem Absorbs.refl (heap : TopKHeap K k) : Absorbs heap [] heap := absorbs_pushAll heap []

theorem Absorbs.append {a b c : TopKHeap K k} {xs ys : List (Candidate K)} (h : Absorbs a xs b)
    (h' : Absorbs b ys c) : Absorbs a (xs ++ ys) c := by
  have hxs := h.length
  have hys := h'.length
  refine ⟨?_, fun hroom => ?_⟩
  · rw [eligible_append, length_append]
    omega
  · rw [eligible_append, length_append] at hroom
    rw [eligible_append, ← append_assoc]
    exact (h'.perm (by omega)).trans ((h.perm (by omega)).append_right _)

theorem absorbs_local (heap : TopKHeap K k) (rows : List (Candidate K)) :
    Absorbs heap rows (heap.pushAll ((new k : TopKHeap K k).pushAll rows).intoSorted) := by
  have hlocal := absorbs_pushAll (new k : TopKHeap K k) rows
  have hempty : (new k : TopKHeap K k).data = [] := rfl
  have hsorted := sortedCandidates_perm ((new k : TopKHeap K k).pushAll rows).data
  have helig : eligible ((new k : TopKHeap K k).pushAll rows).intoSorted =
      ((new k : TopKHeap K k).pushAll rows).intoSorted := by
    have hall := eligible_pushAll (show eligible (new k : TopKHeap K k).data = _ from rfl) rows
    simp only [eligible, filter_eq_self] at hall ⊢
    exact fun x hx => hall x (hsorted.mem_iff.mp hx)
  have hpush := absorbs_pushAll heap ((new k : TopKHeap K k).pushAll rows).intoSorted
  have hlen := hlocal.length
  have hsortedLen := hsorted.length_eq
  have hpushLen := hpush.length
  rw [hempty, length_nil, Nat.zero_add] at hlen
  rw [helig] at hpushLen
  refine ⟨?_, fun hroom => ?_⟩
  · rw [hpushLen, intoSorted, hsortedLen, hlen]
    omega
  · have hperm := hlocal.perm (by rw [hempty, length_nil]; omega)
    rw [hempty, nil_append] at hperm
    have hall := hpush.perm (by rw [helig, intoSorted, hsortedLen, hlen]; omega)
    rw [helig] at hall
    exact hall.trans ((hsorted.trans hperm).append_left _)

theorem foldl_absorbs_local (rows : List (List (Candidate K))) (heap : TopKHeap K k) :
    Absorbs heap rows.flatten ((rows.map fun list =>
      ((new k : TopKHeap K k).pushAll list).intoSorted).foldl pushAll heap) := by
  induction rows generalizing heap with
  | nil => exact Absorbs.refl heap
  | cons list rows ih =>
    rw [flatten_cons, map_cons, foldl_cons]
    exact (absorbs_local heap list).append (ih _)

end TopKHeap

/-- The position of the farthest row, the last one among equals. -/
def refreshWorst (data : List (Candidate K)) : Option Nat :=
  (data.zipIdx.foldl (fun (worst : Option (Candidate K × Nat)) row =>
    match worst with
    | none => some row
    | some best => if farther best.1 row.1 then some best else some row) none).map Prod.snd

/-- The heap of the IVF-FLAT search, an unordered buffer with the position of
its worst row once it is full. -/
structure ReaderTopKHeap (K : Type) (k : Nat) where
  data : List (Candidate K)
  worstIndex : Option Nat
  bounded : data.length ≤ k

namespace ReaderTopKHeap

variable {k : Nat}

def new (k : Nat) : ReaderTopKHeap K k := ⟨[], none, Nat.zero_le k⟩

variable (heap : ReaderTopKHeap K k)

def worstDistance : Option K :=
  heap.worstIndex.map fun index => (heap.data.getD index noCandidate).1

def cutoff : K := heap.worstDistance.getD infinity

omit [Scalar K] in
theorem append_bounded (row : Candidate K) (h : heap.data.length < k) :
    (heap.data ++ [row]).length ≤ k := by
  rw [length_append, length_singleton]
  omega

omit [Scalar K] in
theorem set_bounded (row : Candidate K) (index : Nat) : (heap.data.set index row).length ≤ k := by
  rw [length_set]
  exact heap.bounded

def push (row : Candidate K) : ReaderTopKHeap K k :=
  if k = 0 ∨ isNan row.1 then heap
  else if h : heap.data.length < k then
    { data := heap.data ++ [row]
      worstIndex := if (heap.data ++ [row]).length = k then refreshWorst (heap.data ++ [row])
        else heap.worstIndex
      bounded := heap.append_bounded row h }
  else
    match heap.worstIndex with
    -- A full heap has a worst entry.
    | none => heap
    | some index =>
      if farther (heap.data.getD index noCandidate) row then
        { data := heap.data.set index row
          worstIndex := refreshWorst (heap.data.set index row)
          bounded := heap.set_bounded row index }
      else heap

def intoSorted : List (Candidate K) := sortedCandidates heap.data

end ReaderTopKHeap

namespace Topk

/-- Rows in heap order, with the position of every id. -/
structure Entries (K : Type) where
  data : List (Candidate K)
  positions : Int64 → Option Nat

namespace Entries

def swap (entries : Entries K) (left right : Nat) : Entries K :=
  let data := swapAt entries.data left right
  { data
    positions := Function.update (Function.update entries.positions
      (data.getD left noCandidate).2 (some left)) (data.getD right noCandidate).2 (some right) }

@[simp] theorem swap_length (entries : Entries K) (left right : Nat) :
    (entries.swap left right).data.length = entries.data.length := by
  simp [swap]

def siftUp (entries : Entries K) (index : Nat) : Entries K :=
  if 0 < index ∧ farther (entries.data.getD index noCandidate)
      (entries.data.getD ((index - 1) / 2) noCandidate) then
    siftUp (entries.swap ((index - 1) / 2) index) ((index - 1) / 2)
  else entries
termination_by index
decreasing_by omega

def siftDown (entries : Entries K) (index : Nat) : Entries K :=
  if largestChild entries.data index = index then entries
  else siftDown (entries.swap index (largestChild entries.data index))
    (largestChild entries.data index)
termination_by entries.data.length - index
decreasing_by
  have := largestChild_cases entries.data index
  rw [swap_length]
  omega

@[simp] theorem siftUp_length (entries : Entries K) (index : Nat) :
    (entries.siftUp index).data.length = entries.data.length := by
  fun_induction siftUp entries index with
  | case1 entries index h ih => rw [ih, swap_length]
  | case2 entries index h => rfl

@[simp] theorem siftDown_length (entries : Entries K) (index : Nat) :
    (entries.siftDown index).data.length = entries.data.length := by
  fun_induction siftDown entries index with
  | case1 entries index h => rfl
  | case2 entries index h ih => rw [ih, swap_length]

end Entries

/-- The heap of the IVF-SQ and IVF-RQ searches: one row for each id, and only
rows nearer than `maxDistance`. -/
structure TopKHeap (K : Type) (k : Nat) where
  maxDistance : K
  entries : Entries K
  bounded : entries.data.length ≤ k

namespace TopKHeap

variable {k : Nat}

def withMaxDistance (k : Nat) (maxDistance : K) : TopKHeap K k :=
  ⟨maxDistance, ⟨[], fun _ => none⟩, Nat.zero_le k⟩

def new (k : Nat) : TopKHeap K k := withMaxDistance k infinity

variable (heap : TopKHeap K k)

def worst : Candidate K := heap.entries.data.getD 0 noCandidate

theorem lower_bounded (row : Candidate K) (index : Nat) :
    (({ heap.entries with data := heap.entries.data.set index row } :
      Entries K).siftDown index).data.length ≤ k := by
  rw [Entries.siftDown_length, length_set]
  exact heap.bounded

theorem append_bounded (row : Candidate K) (h : heap.entries.data.length < k) :
    (Entries.siftUp
      { data := heap.entries.data ++ [row]
        positions := Function.update heap.entries.positions row.2
          (some heap.entries.data.length) } heap.entries.data.length).data.length ≤ k := by
  rw [Entries.siftUp_length, length_append, length_singleton]
  omega

theorem replace_bounded (row : Candidate K) :
    (Entries.siftDown
      { data := heap.entries.data.set 0 row
        positions := Function.update
          (Function.update heap.entries.positions heap.worst.2 none) row.2 (some 0) }
      0).data.length ≤ k := by
  rw [Entries.siftDown_length, length_set]
  exact heap.bounded

def push (row : Candidate K) : TopKHeap K k :=
  if k = 0 ∨ isNan row.1 ∨ ge row.1 heap.maxDistance then heap
  else
    match heap.entries.positions row.2 with
    | some index =>
      if farther (heap.entries.data.getD index noCandidate) row then
        { heap with
          entries := ({ heap.entries with data := heap.entries.data.set index row } :
            Entries K).siftDown index
          bounded := heap.lower_bounded row index }
      else heap
    | none =>
      if h : heap.entries.data.length < k then
        { heap with
          entries := (Entries.siftUp
            { data := heap.entries.data ++ [row]
              positions := Function.update heap.entries.positions row.2
                (some heap.entries.data.length) } heap.entries.data.length)
          bounded := heap.append_bounded row h }
      else if farther heap.worst row then
        { heap with
          entries := (Entries.siftDown
            { data := heap.entries.data.set 0 row
              positions := Function.update
                (Function.update heap.entries.positions heap.worst.2 none) row.2 (some 0) } 0)
          bounded := heap.replace_bounded row }
      else heap

def isFull : Bool := 0 < k ∧ heap.entries.data.length = k

def worstDistance : Option K :=
  if heap.isFull then some heap.worst.1 else none

def distanceLimit : K := heap.worstDistance.getD heap.maxDistance

/-- `lower_bound < max_distance` is the comparison of values. -/
def shouldConsider (lowerBound : K) : Bool :=
  0 < k ∧ !isNan lowerBound ∧
    if heap.entries.data.length < k then
      ge heap.maxDistance lowerBound ∧ !ge lowerBound heap.maxDistance
    else totalLt lowerBound heap.worst.1

/-- The collector interface filters before it pushes. -/
def collect (row : Candidate K) : TopKHeap K k :=
  if heap.shouldConsider row.1 then heap.push row else heap

def intoSorted : List (Candidate K) := sortedCandidates heap.entries.data

end TopKHeap

end Topk

/-- `Vec::resize`. -/
def resize {α : Type} (l : List α) (k : Nat) (x : α) : List α :=
  l.take k ++ List.replicate (k - l.length) x

@[simp] theorem resize_length {α : Type} (l : List α) (k : Nat) (x : α) :
    (resize l k x).length = k := by
  simp only [resize, length_append, length_take, length_replicate]
  omega

/-- The ids and the distances, filled up to `k` with the values of a missing row. -/
def paddedResults (k : Nat) (sorted : List (Candidate K)) : List Int64 × List K :=
  (resize (sorted.map Prod.snd) k (-1), resize (sorted.map Prod.fst) k maxValue)

/-- A result of `k` rows: the rows found, then missing ones. -/
def Padded (k : Nat) (result : List Int64 × List K) : Prop :=
  ∃ found, found.length ≤ k ∧ result = paddedResults k found

theorem Padded.lengths {k : Nat} {result : List Int64 × List K} (h : Padded k result) :
    result.1.length = k ∧ result.2.length = k := by
  obtain ⟨found, -, rfl⟩ := h
  exact ⟨resize_length _ _ _, resize_length _ _ _⟩

theorem padded_of_length {k : Nat} {found : List (Candidate K)} (h : found.length = k) :
    Padded k (found.map Prod.snd, found.map Prod.fst) := by
  refine ⟨found, h.le, ?_⟩
  have hids : (found.map Prod.snd).length = k := by rw [length_map, h]
  have hdistances : (found.map Prod.fst).length = k := by rw [length_map, h]
  simp only [paddedResults, resize, hids, hdistances, Nat.sub_self, replicate_zero,
    append_nil, take_of_length_le hids.le, take_of_length_le hdistances.le]

theorem foldl_set_zipIdx {α β : Type} (f : α → β) (l : List α) (front rest : List β)
    (h : l.length ≤ rest.length) :
    (l.zipIdx front.length).foldl (fun out entry => out.set entry.2 (f entry.1)) (front ++ rest) =
      front ++ l.map f ++ rest.drop l.length := by
  induction l generalizing front rest with
  | nil => simp
  | cons x xs ih =>
    cases rest with
    | nil => simp at h
    | cons y ys =>
      have hnext := ih (front ++ [f x]) ys (by simpa using h)
      rw [length_append, length_singleton] at hnext
      rw [zipIdx_cons, foldl_cons, set_append_right _ _ (Nat.le_refl _), Nat.sub_self,
        set_cons_zero]
      simpa using hnext

theorem foldl_set_eq_resize {α β : Type} (f : α → β) (l : List α) (k : Nat) (x : β)
    (h : l.length ≤ k) :
    l.zipIdx.foldl (fun out entry => out.set entry.2 (f entry.1)) (List.replicate k x) =
      resize (l.map f) k x := by
  have hfold := foldl_set_zipIdx f l [] (List.replicate k x) (by simpa using h)
  rw [length_nil, nil_append, nil_append, drop_replicate] at hfold
  rw [hfold, resize, length_map, take_of_length_le (by simpa using h)]

end PaimonVindex
