import PaimonVindex.Ivf.TopKHeap
import PaimonVindex.Ivf.Width

/-! The retry loop of an automatic IVF search. It probes twice as many lists in
every round until the result is complete or all lists are probed. -/

namespace PaimonVindex

open Checked Words

variable {K : Type} [Scalar K]

def realRows (distances : List K) : Nat :=
  (distances.filter fun distance => !Scalar.isMaxValue distance).length

theorem realRows_perm {a b : List K} (h : a.Perm b) : realRows a = realRows b :=
  (h.filter _).length_eq

def ivfSearchResultIsComplete (distances : List K) (required : Nat) : Bool :=
  required ≤ ((distances.filter fun distance => !Scalar.isMaxValue distance).take required).length

variable {distances : List K} {required : Nat}

theorem ivfSearchResultIsComplete_iff :
    ivfSearchResultIsComplete distances required = true ↔ required ≤ realRows distances := by
  simp only [ivfSearchResultIsComplete, realRows, List.length_take, decide_eq_true_eq]
  omega

/-- What a search returns, with the number of lists of its last round. -/
structure Outcome (K : Type) where
  nprobe : Nat
  ids : List Int64
  distances : List K
  deriving DecidableEq

def isLastRound (params : VectorSearchParams) (nlist queryCount topK required nprobe : Nat)
    (distances : List K) : Bool :=
  params.searchWidth ≠ .auto ∨ nlist ≤ nprobe ∨ required = 0 ∨
    ((chunksExact topK distances).take queryCount).all (ivfSearchResultIsComplete · required)

/-- `none` is a loop that is not over after `rounds` rounds. The doubling
saturates above `nlist`. -/
def progressiveIvfSearch (params : VectorSearchParams)
    (nlist queryCount topK availableMatches : Nat) (search : Nat → IoResult (List Int64 × List K)) :
    (rounds nprobe : Nat) → IoResult (Option (Outcome K))
  | 0, _ => .ok none
  | rounds + 1, nprobe => do
    let result ← search nprobe
    if isLastRound params nlist queryCount topK (min topK availableMatches) nprobe result.2 then
      return some ⟨nprobe, result.1, result.2⟩
    else
      progressiveIvfSearch params nlist queryCount topK availableMatches search rounds
        (min (nprobe * 2) nlist)

section Rounds

variable {params : VectorSearchParams} {nlist queryCount topK available : Nat}
  {search : Nat → IoResult (List Int64 × List K)}
variable {nprobe : Nat} {rounds : Nat}

theorem progressiveIvfSearch_succ {outcome : Option (Outcome K)}
    (h : progressiveIvfSearch params nlist queryCount topK available search (rounds + 1) nprobe =
      .ok outcome) :
    ∃ result, search nprobe = .ok result ∧
      ((isLastRound params nlist queryCount topK (min topK available) nprobe result.2 = true ∧
          outcome = some ⟨nprobe, result.1, result.2⟩) ∨
        (isLastRound params nlist queryCount topK (min topK available) nprobe result.2 = false ∧
          progressiveIvfSearch params nlist queryCount topK available search rounds
            (min (nprobe * 2) nlist) = .ok outcome)) := by
  simp only [progressiveIvfSearch, bind_eq_ok] at h
  obtain ⟨result, hresult, h⟩ := h
  refine ⟨result, hresult, ?_⟩
  by_cases hlast :
      isLastRound params nlist queryCount topK (min topK available) nprobe result.2 = true
  · rw [if_pos hlast, pure_ok_iff] at h
    exact .inl ⟨hlast, h.symm⟩
  · rw [if_neg hlast] at h
    exact .inr ⟨Bool.not_eq_true _ ▸ hlast, h⟩

theorem lt_nlist_of_not_last
    (h : isLastRound params nlist queryCount topK required nprobe distances = false) :
    nprobe < nlist := by
  simp only [isLastRound, decide_eq_false_iff_not, not_or] at h
  omega

theorem progressiveIvfSearch_terminates (hpos : 0 < nprobe) (hrounds : nlist - nprobe < rounds) :
    progressiveIvfSearch params nlist queryCount topK available search rounds nprobe ≠
      .ok none := by
  induction rounds generalizing nprobe with
  | zero => omega
  | succ rounds ih =>
    intro h
    obtain ⟨result, -, ⟨-, hsome⟩ | ⟨hlast, hnext⟩⟩ := progressiveIvfSearch_succ h
    · cases hsome
    · have hlt := lt_nlist_of_not_last hlast
      exact ih (by omega) (by omega) hnext

theorem progressiveIvfSearch_round (P : Nat → List Int64 × List K → Prop) {first : Nat}
    {outcome : Outcome K} (hfirst : first ≤ nprobe)
    (hround : ∀ wider result, first ≤ wider → search wider = .ok result → P wider result)
    (h : progressiveIvfSearch params nlist queryCount topK available search rounds nprobe =
      .ok (some outcome)) : P outcome.nprobe (outcome.ids, outcome.distances) := by
  induction rounds generalizing nprobe with
  | zero => cases h
  | succ rounds ih =>
    obtain ⟨result, hresult, ⟨-, hsome⟩ | ⟨hlast, hnext⟩⟩ := progressiveIvfSearch_succ h
    · cases hsome
      exact hround nprobe result hfirst hresult
    · have hlt := lt_nlist_of_not_last hlast
      exact ih (by omega) hnext

theorem progressiveIvfSearch_last {outcome : Outcome K} (hle : nprobe ≤ nlist)
    (h : progressiveIvfSearch params nlist queryCount topK available search rounds nprobe =
      .ok (some outcome)) :
    outcome.nprobe ≤ nlist ∧ isLastRound params nlist queryCount topK (min topK available)
      outcome.nprobe outcome.distances = true := by
  induction rounds generalizing nprobe with
  | zero => cases h
  | succ rounds ih =>
    obtain ⟨result, -, ⟨hlast, hsome⟩ | ⟨-, hnext⟩⟩ := progressiveIvfSearch_succ h
    · cases hsome
      exact ⟨hle, hlast⟩
    · exact ih (Nat.min_le_right _ _) hnext

theorem isLastRound_of_short (h : distances.length < topK) :
    isLastRound params nlist queryCount topK required nprobe distances = true := by
  have hchunks : chunksExact topK distances = [] := chunksExact_of_lt h
  simp [isLastRound, hchunks]

theorem isLastRound_of_full (hk : 0 < topK) (hauto : params.searchWidth = .auto)
    (hfull : distances.length = topK)
    (h : isLastRound params nlist 1 topK required nprobe distances = true) :
    nlist ≤ nprobe ∨ required ≤ realRows distances := by
  have hchunks : chunksExact topK distances = [distances] := chunksExact_of_length hk hfull
  simp only [isLastRound, hchunks, decide_eq_true_eq, List.take_succ_cons, List.take_zero,
    List.all_cons, List.all_nil, Bool.and_true, ivfSearchResultIsComplete_iff] at h
  rcases h with h | h | h | h
  · exact absurd hauto h
  · exact .inl h
  · exact .inr (by omega)
  · exact .inr h

end Rounds

end PaimonVindex
