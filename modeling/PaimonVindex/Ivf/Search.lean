import PaimonVindex.Ivf.ListSearch
import PaimonVindex.Ivf.Progressive
import PaimonVindex.Ivf.QueryChecks

/-! The search of an opened IVF index and the copy of its result into the
buffers of a foreign caller. -/

namespace PaimonVindex

open Checked

/-- The set of a serialised filter. -/
structure RoaringTreemap where
  values : List UInt64
  nodup : values.Nodup

namespace RoaringTreemap

def len (filter : RoaringTreemap) : Nat := filter.values.length

def contains (filter : RoaringTreemap) (id : Int64) : Bool :=
  0 ≤ id ∧ id.toUInt64 ∈ filter.values

end RoaringTreemap

section Filter

-- The deserialisation of the roaring library.
variable (deserialize : List UInt8 → Except String RoaringTreemap)

def decodeRoaringFilter (bytes : List UInt8) : IoResult RoaringTreemap :=
  (deserialize bytes).mapError fun e => invalidInput s!"invalid RoaringTreemap filter: {e}"

def decodeRoaringFilterCardinality (bytes : List UInt8) : IoResult Nat := do
  let filter ← (deserialize bytes).mapError fun error =>
    invalidInput s!"invalid serialized RoaringTreemap filter: {error}"
  return filter.len

def automaticMatchingCount (params : VectorSearchParams) (bytes : List UInt8) :
    IoResult (Option Nat) :=
  if params.searchWidth = .auto then
    return some (← decodeRoaringFilterCardinality deserialize bytes)
  else .ok none

end Filter

inductive VectorIndexReader (K : Type) where
  | ivfFlat (reader : IVFFlatIndexReader K)
  | ivfSq (reader : IVFSQIndexReader K)
  | ivfPq (reader : IVFPQIndexReader K)
  | ivfRq (reader : IVFRQIndexReader K)

namespace VectorIndexReader

variable {K : Type}

def dimension : VectorIndexReader K → Nat
  | ivfFlat reader => reader.d
  | ivfSq reader => reader.d
  | ivfPq reader => reader.d
  | ivfRq reader => reader.d

def nlist : VectorIndexReader K → Nat
  | ivfFlat reader => reader.nlist
  | ivfSq reader => reader.nlist
  | ivfPq reader => reader.nlist
  | ivfRq reader => reader.nlist

def totalVectors : VectorIndexReader K → Int64
  | ivfFlat reader => reader.totalVectors
  | ivfSq reader => reader.totalVectors
  | ivfPq reader => reader.totalVectors
  | ivfRq reader => reader.totalVectors

/-- The first width, and the number of rows that could match. -/
def initialWidth (reader : VectorIndexReader K) (params : VectorSearchParams)
    (matchingCount : Option Nat) : IoResult (Nat × Nat) := do
  rejectIf (reader.totalVectors < 0) (invalidInput "negative IVF vector count")
  let totalVectors := reader.totalVectors.toInt.toNat
  let nprobe ← params.resolveIvfNprobe reader.nlist totalVectors matchingCount
  return (nprobe, matchingCount.getD totalVectors)

variable [Add K] [Sub K] [Mul K] [Neg K] [Zero K] [One K] [Scalar K] [VectorKernels K]

/-- The search of the family with a given number of lists. -/
def searchLists (reader : VectorIndexReader K) (query : List K) (k : Nat)
    (filter : Option RowIdFilter) (nprobe : Nat) : IoResult (List Int64 × List K) :=
  match reader with
  | ivfFlat reader => reader.searchWithFilter query k nprobe filter
  | ivfSq reader => reader.searchWithFilter query k nprobe filter
  | ivfPq reader => reader.searchWithReaderFilter query k nprobe filter
  | ivfRq reader => reader.searchWithFilter query k nprobe filter

def search (reader : VectorIndexReader K) (query : List K) (params : VectorSearchParams)
    (rounds : Nat) : IoResult (Option (Outcome K)) := do
  validateQuery query reader.dimension
  params.validate
  let (nprobe, available) ← reader.initialWidth params none
  progressiveIvfSearch params reader.nlist 1 params.topK available
    (reader.searchLists query params.topK none) rounds nprobe

/-- Every round decodes the filter again. -/
def searchWithRoaringFilter (deserialize : List UInt8 → Except String RoaringTreemap)
    (reader : VectorIndexReader K) (query : List K) (params : VectorSearchParams)
    (roaringFilterBytes : List UInt8) (rounds : Nat) : IoResult (Option (Outcome K)) := do
  validateQuery query reader.dimension
  params.validate
  let matchingCount ← automaticMatchingCount deserialize params roaringFilterBytes
  let (nprobe, available) ← reader.initialWidth params matchingCount
  progressiveIvfSearch params reader.nlist 1 params.topK available
    (fun nprobe => do
      let filter ← decodeRoaringFilter deserialize roaringFilterBytes
      reader.searchLists query params.topK (some filter.contains) nprobe) rounds nprobe

def searchOptional (deserialize : List UInt8 → Except String RoaringTreemap)
    (reader : VectorIndexReader K) (query : List K) (params : VectorSearchParams)
    (filterBytes : Option (List UInt8)) (rounds : Nat) : IoResult (Option (Outcome K)) :=
  match filterBytes with
  | none => reader.search query params rounds
  | some bytes => reader.searchWithRoaringFilter deserialize query params bytes rounds

end VectorIndexReader

section Copy

/-- A pointer of the caller, as far as it is inspected. -/
structure OutPointer where
  isNull : Bool
  aligned : Bool

def validateSliceLayout (ptr : OutPointer) (len elementSize : Nat) (name : String) :
    Except String Unit := do
  rejectIf (2 ^ 63 - 1 < len * elementSize) s!"{name} byte length overflow"
  rejectIf (ptr.aligned = false) s!"{name} pointer is not aligned"

def mutSlice (ptr : OutPointer) (len elementSize : Nat) (name : String) : Except String Unit :=
  if len = 0 then .ok ()
  else if ptr.isNull then .error s!"{name} pointer is null"
  else validateSliceLayout ptr len elementSize name

def lengthMismatch (ids distances expected : Nat) : String :=
  s!"native result length mismatch: ids={ids}, distances={distances}, expected={expected}"

def copySearchResult {K : Type} (ids : List Int64) (distances : List K)
    (outIds outDistances : OutPointer) (resultLen expectedLen : Nat) :
    Except String (List Int64 × List K) := do
  rejectIf (ids.length ≠ expectedLen ∨ distances.length ≠ expectedLen)
    (lengthMismatch ids.length distances.length expectedLen)
  rejectIf (resultLen < expectedLen)
    s!"result buffers length {resultLen} is smaller than required {expectedLen}"
  mutSlice outIds expectedLen 8 "out_ids"
  mutSlice outDistances expectedLen 4 "out_distances"
  return (ids, distances)

theorem firstLetter_append {s : String} {c : Char} (t : String) (h : s.toList.head? = some c) :
    (s ++ t).toList.head? = some c := by
  rw [String.toList_append, List.head?_append, h, Option.some_or]

theorem lengthMismatch_firstLetter (ids distances expected : Nat) :
    (lengthMismatch ids distances expected).toList.head? = some 'n' := by
  iterate 5 refine firstLetter_append _ ?_
  rfl

theorem mutSlice_firstLetter {ptr : OutPointer} {len elementSize : Nat} {name : String}
    (h : name.toList.head? = some 'o') :
    Fails (fun e : String => e.toList.head? = some 'o') (mutSlice ptr len elementSize name) := by
  have htext : ∀ t, (name ++ t).toList.head? = some 'o' := fun t => firstLetter_append t h
  by_cases hzero : len = 0
  · rw [mutSlice, if_pos hzero]
    exact fails_ok ()
  · rw [mutSlice, if_neg hzero]
    by_cases hnull : ptr.isNull = true
    · rw [if_pos hnull]
      exact fails_error (htext _)
    · rw [if_neg hnull, validateSliceLayout]
      exact fails_bind (fails_rejectIf (htext _)) fun _ _ => fails_rejectIf (htext _)

theorem copySearchResult_mismatch_iff {K : Type} {ids : List Int64} {distances : List K}
    {outIds outDistances : OutPointer} {resultLen expectedLen : Nat} :
    copySearchResult ids distances outIds outDistances resultLen expectedLen =
        .error (lengthMismatch ids.length distances.length expectedLen) ↔
      ids.length ≠ expectedLen ∨ distances.length ≠ expectedLen := by
  constructor
  · intro h
    by_contra hlen
    rw [copySearchResult, rejectIf_bind hlen] at h
    have hother : Fails (fun e : String => e.toList.head? ≠ some 'n') (do
        rejectIf (resultLen < expectedLen)
          s!"result buffers length {resultLen} is smaller than required {expectedLen}"
        mutSlice outIds expectedLen 8 "out_ids"
        mutSlice outDistances expectedLen 4 "out_distances"
        return (ids, distances)) := by
      have hslice : ∀ {ptr : OutPointer} {elementSize : Nat} {name : String},
          name.toList.head? = some 'o' → Fails (fun e : String => e.toList.head? ≠ some 'n')
            (mutSlice ptr expectedLen elementSize name) := by
        intro ptr elementSize name hname e he
        rw [mutSlice_firstLetter hname e he]
        decide
      refine fails_bind (fails_rejectIf ?_) fun _ _ => fails_bind (hslice rfl) fun _ _ =>
        fails_bind (hslice rfl) fun _ _ => fails_ok _
      have hr : (s!"result buffers length {resultLen} is smaller than required {expectedLen}"
          ).toList.head? = some 'r' := by
        iterate 3 refine firstLetter_append _ ?_
        rfl
      rw [hr]
      decide
    exact hother _ h (lengthMismatch_firstLetter _ _ _)
  · intro h
    rw [copySearchResult, rejectIf_of h, error_bind]

end Copy

end PaimonVindex
