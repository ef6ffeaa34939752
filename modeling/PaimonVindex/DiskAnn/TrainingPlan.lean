import PaimonVindex.Ivf.Width
import Mathlib.Tactic.GCongr

/-! How many vectors the product quantizer is trained on, and with how many workers:
the largest sample whose estimated peak fits the memory budget, then the most
workers that fit for it. -/

namespace PaimonVindex

open Checked

def diskannMaxPqTrainingVectors : Nat := 50000

structure PqTrainingPlan where
  sampleCount : Nat
  parallelism : Nat

section Peak

variable (dimension pqM ksub sampleBufferCount : Nat)

/-- The estimate; `none` is an overflow of `usize`. -/
def peakFor (sampleCount parallelism : Nat) : Option Nat := do
  let maxChunkDimension := divCeil dimension (max pqM 1)
  let sampleBytes ←
    checkedMul (← checkedMul (← checkedMul sampleCount dimension) 4) sampleBufferCount
  let codebookBytes ← checkedMul (← checkedMul dimension ksub) 4
  let subvectorCopyBytes ← checkedMul (← checkedMul sampleCount maxChunkDimension) (2 * 4)
  let assignmentBytes ← checkedMul sampleCount (8 + 4)
  let scoreMatrixBytes ← checkedMul (min (← checkedMul sampleCount ksub) (4 * 1024 * 1024)) 4
  let centroidScratchBytes ← checkedMul (← checkedMul maxChunkDimension ksub) (3 * 4)
  let perTask ← [subvectorCopyBytes, assignmentBytes, scoreMatrixBytes,
    centroidScratchBytes].foldlM checkedAdd 0
  checkedAdd (← checkedAdd sampleBytes codebookBytes) (← checkedMul perTask parallelism)

/-- The same estimate in numbers without a bound. -/
def trainingPeak (sampleCount parallelism : Nat) : Nat :=
  let maxChunkDimension := divCeil dimension (max pqM 1)
  sampleCount * dimension * 4 * sampleBufferCount + dimension * ksub * 4 +
    (sampleCount * maxChunkDimension * 8 + sampleCount * 12 +
      min (sampleCount * ksub) (4 * 1024 * 1024) * 4 + maxChunkDimension * ksub * 12) * parallelism

def fitsBudget (memoryBudgetBytes sampleCount parallelism : Nat) : Bool :=
  (peakFor dimension pqM ksub sampleBufferCount sampleCount parallelism).any
    (· ≤ memoryBudgetBytes)

end Peak

def largestSample (fits : Nat → Bool) (low high : Nat) : Nat :=
  if low < high then
    let middle := low + divCeil (high - low) 2
    if fits middle then largestSample fits middle high
    else largestSample fits low (middle - 1)
  else low
termination_by high - low
decreasing_by all_goals simp only [divCeil]; omega

/-- The first of `n, …, 1` that fits, or one. -/
def mostWorkers (fits : Nat → Bool) : Nat → Nat
  | 0 => 1
  | n + 1 => if fits (n + 1) then n + 1 else mostWorkers fits n

def pqTrainingPlanWithSampleBuffers (currentNumThreads dimension pqM ksub vectorCount
    memoryBudgetBytes sampleBufferCount : Nat) : IoResult PqTrainingPlan :=
  if vectorCount = 0 then .ok ⟨0, 1⟩
  else do
    let maxSample := min vectorCount diskannMaxPqTrainingVectors
    let minSample := min vectorCount (max ksub 1)
    let currentParallelism := min (max currentNumThreads 1) (max pqM 1)
    let fits := fitsBudget dimension pqM ksub sampleBufferCount memoryBudgetBytes
    rejectIf (fits minSample 1 = false) (invalidInput
      s!"{memoryBudgetBytes} bytes is below the estimated one-worker PQ training peak")
    let sampleCount := largestSample (fits · 1) minSample maxSample
    return ⟨sampleCount, mostWorkers (fits sampleCount) currentParallelism⟩

section Search

variable {fits : Nat → Bool}

/-- The largest number of the range that fits. -/
structure LargestIn (fits : Nat → Bool) (low high found : Nat) : Prop where
  low_le : low ≤ found
  le_high : found ≤ high
  within : fits found
  no_larger : ∀ i, found < i → i ≤ high → ¬fits i

theorem largestSample_spec (hdown : ∀ i j, i ≤ j → fits j → fits i) {low high : Nat}
    (hlow : fits low) : LargestIn fits low (max low high) (largestSample fits low high) := by
  fun_induction largestSample fits low high with
  | case1 low high hlt middle hfits ih =>
    have hmiddle : low ≤ middle ∧ middle ≤ high := by simp only [middle, divCeil]; omega
    obtain ⟨hge, hlast, hfound, hnone⟩ := ih hfits
    exact ⟨by omega, by omega, hfound, fun i hi hhigh => hnone i hi (by omega)⟩
  | case2 low high hlt middle hfits ih =>
    have hmiddle : low < middle ∧ middle ≤ high := by simp only [middle, divCeil]; omega
    obtain ⟨hge, hlast, hfound, hnone⟩ := ih hlow
    refine ⟨hge, by omega, hfound, fun i hi hhigh hi' => ?_⟩
    by_cases hin : i ≤ middle - 1
    · exact hnone i hi (by omega) hi'
    · exact hfits (hdown middle i (by omega) hi')
  | case3 low high hge => exact ⟨le_rfl, by omega, hlow, fun i hi hhigh => absurd hhigh (by omega)⟩

theorem mostWorkers_spec {n : Nat} (hn : 0 < n) (hone : fits 1) :
    LargestIn fits 1 n (mostWorkers fits n) := by
  induction n with
  | zero => exact absurd hn (lt_irrefl 0)
  | succ n ih =>
    rw [mostWorkers]
    split
    · rename_i hfits
      exact ⟨hn, le_rfl, hfits, fun p hp hle => absurd hle (by omega)⟩
    · rename_i hfits
      have hpos : 0 < n := Nat.pos_of_ne_zero (by rintro rfl; exact hfits hone)
      obtain ⟨hge, hle, hfound, hnone⟩ := ih hpos
      refine ⟨hge, by omega, hfound, fun p hp hp' => ?_⟩
      rcases hp'.lt_or_eq with hlt | rfl
      · exact hnone p hp (by omega)
      · exact hfits

end Search

section Plan

variable {dimension pqM ksub sampleBufferCount memoryBudgetBytes : Nat}

theorem bind_eq_some {x : Option Nat} {f : Nat → Option Nat} {b : Nat} :
    (x >>= f) = some b ↔ ∃ a, x = some a ∧ f a = some b := Option.bind_eq_some_iff

/-- What fits does so in numbers without a bound, and a smaller sample fits as well. -/
theorem fitsBudget_spec {s p : Nat}
    (h : fitsBudget dimension pqM ksub sampleBufferCount memoryBudgetBytes s p) :
    trainingPeak dimension pqM ksub sampleBufferCount s p ≤ memoryBudgetBytes ∧
      ∀ s' ≤ s, fitsBudget dimension pqM ksub sampleBufferCount memoryBudgetBytes s' p := by
  simp only [fitsBudget, Option.any_eq_true, decide_eq_true_eq, peakFor, bind_eq_some,
    checkedMul_eq_some, checkedAdd_eq_some, List.foldlM_cons, List.foldlM_nil, Option.pure_def,
    Option.some.injEq, and_assoc, exists_eq_left', exists_and_left, Nat.zero_add] at h ⊢
  obtain ⟨h1, h2, h3, h4, h5, h6, h7, h8, h9, h10, h11, h12, h13, h14, h15, h16, h17, h18, h19,
    hle⟩ := h
  refine ⟨hle, fun s' hs => ⟨lt_of_le_of_lt ?_ h1, lt_of_le_of_lt ?_ h2, lt_of_le_of_lt ?_ h3, h4,
    h5, lt_of_le_of_lt ?_ h6, lt_of_le_of_lt ?_ h7, lt_of_le_of_lt ?_ h8, lt_of_le_of_lt ?_ h9,
    lt_of_le_of_lt ?_ h10, h11, h12, lt_of_le_of_lt ?_ h13, lt_of_le_of_lt ?_ h14,
    lt_of_le_of_lt ?_ h15, lt_of_le_of_lt ?_ h16, lt_of_le_of_lt ?_ h17, lt_of_le_of_lt ?_ h18,
    lt_of_le_of_lt ?_ h19, le_trans ?_ hle⟩⟩
  all_goals gcongr

/-- The plan exists exactly if the smallest sample fits with one worker, and what is found
cannot be enlarged. An estimate that overflows never counts as fitting. -/
theorem pq_training_plan_is_largest (currentNumThreads dimension pqM ksub vectorCount
    memoryBudgetBytes sampleBufferCount : Nat) :
    let fits := fitsBudget dimension pqM ksub sampleBufferCount memoryBudgetBytes
    let minSample := min vectorCount (max ksub 1)
    let maxSample := max minSample (min vectorCount diskannMaxPqTrainingVectors)
    let result := pqTrainingPlanWithSampleBuffers currentNumThreads dimension pqM ksub vectorCount
      memoryBudgetBytes sampleBufferCount
    (if vectorCount = 0 then result = .ok ⟨0, 1⟩
      else if fits minSample 1 then ∃ plan, result = .ok plan ∧
        LargestIn (fits · 1) minSample maxSample plan.sampleCount ∧
        LargestIn (fits plan.sampleCount) 1 (min (max currentNumThreads 1) (max pqM 1))
          plan.parallelism
      else ∃ e, result = .error e) ∧
    ∀ s p, fits s p →
      trainingPeak dimension pqM ksub sampleBufferCount s p ≤ memoryBudgetBytes := by
  intro fits minSample maxSample result
  refine ⟨?_, fun s p h => (fitsBudget_spec h).1⟩
  simp only [result, pqTrainingPlanWithSampleBuffers]
  split
  · rfl
  · split
    · rename_i hmin
      have hsample := @largestSample_spec (fits · 1) (fun i j hij h => (fitsBudget_spec h).2 i hij)
        minSample (min vectorCount diskannMaxPqTrainingVectors) hmin
      rw [rejectIf_bind (Bool.not_eq_false _ ▸ hmin)]
      exact ⟨_, rfl, hsample, mostWorkers_spec (by omega) hsample.within⟩
    · rename_i hmin
      rw [rejectIf_of (Bool.eq_false_of_not_eq_true hmin)]
      exact ⟨_, rfl⟩

end Plan

end PaimonVindex
