import PaimonVindex.Io

/-! Search parameters and the number of lists that a search probes at first. -/

namespace PaimonVindex

open Checked

inductive SearchWidth where
  | auto
  | ivfNProbe
  | diskAnnLSearch
  deriving DecidableEq, Repr

structure VectorSearchParams where
  topK : Nat
  searchWidth : SearchWidth
  width : Nat
  maxInitialFilterExpansionFactor : Option Nat
  ivfpqBatchTableReuseMaxBytes : Nat

def validatePositive (value : Nat) (name : String) : IoResult Unit :=
  rejectIf (value = 0) (invalidInput s!"{name} must be greater than 0")

namespace VectorSearchParams

def validate (params : VectorSearchParams) : IoResult Unit := do
  validatePositive params.topK "top_k"
  match params.maxInitialFilterExpansionFactor with
  | none => pure ()
  | some factor => do
    validatePositive factor "maximum initial filter expansion factor"
    rejectIf (params.searchWidth ≠ .auto)
      (invalidInput "maximum initial filter expansion factor requires automatic IVF search")
  validatePositive params.ivfpqBatchTableReuseMaxBytes "IVF-PQ batch table reuse max bytes"

end VectorSearchParams

def divCeil (a b : Nat) : Nat := (a + b - 1) / b

def defaultIvfListFraction : Nat := 16

def defaultIvfMinNprobe : Nat := 8

def defaultIvfCandidatesPerResult : Nat := 4

/-- The largest 128-bit value, at which the products below saturate. -/
def maxU128 : Nat := 2 ^ 128 - 1

def inferIvfNprobeWithFilterExpansionCap (nlist vectorCount topK : Nat)
    (matchingCount maxInitialFilterExpansionFactor : Option Nat) : IoResult Nat := do
  rejectIf (nlist = 0) (invalidInput "nlist must be greater than 0")
  rejectIf (vectorCount = 0) (invalidInput "vector count must be greater than 0")
  rejectIf (topK = 0) (invalidInput "top_k must be greater than 0")
  let averageListRows := max (divCeil vectorCount nlist) 1
  let candidateRows ← okOr (checkedMul topK defaultIvfCandidatesPerResult)
    (invalidInput "automatic nprobe candidate count overflows usize")
  let candidateLists := divCeil candidateRows averageListRows
  let nprobe := min (max (max defaultIvfMinNprobe (divCeil nlist defaultIvfListFraction))
    candidateLists) nlist
  rejectIf (maxInitialFilterExpansionFactor = some 0)
    (invalidInput "maximum initial filter expansion factor must be greater than 0")
  match matchingCount with
  | none => return min (max nprobe 1) nlist
  | some 0 => return 1
  | some matchingCount =>
    let matchingCount := min matchingCount vectorCount
    let selectivityScaled := min (divCeil (min (nprobe * vectorCount) maxU128) matchingCount) nlist
    let expansionCap := (maxInitialFilterExpansionFactor.map fun factor =>
      min (min (nprobe * factor) maxU128) nlist).getD nlist
    return min (max (min selectivityScaled expansionCap) 1) nlist

namespace VectorSearchParams

def resolveIvfNprobe (params : VectorSearchParams) (nlist vectorCount : Nat)
    (matchingCount : Option Nat) : IoResult Nat :=
  match params.searchWidth with
  | .auto => inferIvfNprobeWithFilterExpansionCap nlist vectorCount params.topK matchingCount
      params.maxInitialFilterExpansionFactor
  | .ivfNProbe =>
    if 0 < params.width then .ok (min params.width nlist)
    else .error (invalidInput "nprobe must be greater than 0")
  | .diskAnnLSearch =>
    .error (invalidInput "DiskANN l_search cannot be used with an IVF index")

end VectorSearchParams

theorem inferIvfNprobe_bounds {nlist vectorCount topK : Nat} {matchingCount factor : Option Nat}
    {nprobe : Nat}
    (h : inferIvfNprobeWithFilterExpansionCap nlist vectorCount topK matchingCount factor =
      .ok nprobe) : 0 < nprobe ∧ nprobe ≤ nlist := by
  simp only [inferIvfNprobeWithFilterExpansionCap, accepted] at h
  obtain ⟨hnlist, _, _, _, _, _, h⟩ := h
  split at h <;>
  · simp only [pure_ok_iff] at h
    omega

end PaimonVindex
