import PaimonVindex.DiskAnn.ValidationMemo

/-! Every call of the validation memo ends, with the page's verdict. -/

namespace PaimonVindex

open Interleaving AdjacencyValidationCache ValidationPoint

variable {point : ValidationPoint} {page : Nat}

namespace ValidationThreads

open AdjacencyValidationCache (Turn)

variable {n : Nat} {pages : Fin n → Nat} {s s' : ValidationThreads n}
  {cache : AdjacencyValidationCache n}

theorem getOrValidate_isSome {i : Fin n} (outcome : CallbackOutcome)
    (hlock : cache.waitLock ≠ none → point ≠ .lockWait ∧ ∀ verdict, point ≠ .lockClaim verdict)
    (hasleep : point ≠ .asleep) (hreturned : ∀ result, point ≠ .returned result)
    (hunwound : point ≠ .unwound) : (cache.getOrValidate i page outcome point).isSome := by
  cases point with
  | load => cases hstate : cache.states page <;> simp [getOrValidate, hstate]
  | exchange =>
    rw [getOrValidate]
    split <;> rfl
  | validate => rcases outcome with ⟨⟨error⟩ | ⟨⟩⟩ | _ <;> rfl
  | lockClaim verdict =>
    by_cases hfree : cache.waitLock = none
    · simp [getOrValidate, hfree]
    · exact absurd rfl ((hlock hfree).2 verdict)
  | lockWait =>
    by_cases hfree : cache.waitLock = none
    · simp [getOrValidate, hfree]
    · exact absurd rfl (hlock hfree).1
  | check =>
    rw [getOrValidate]
    split <;> rfl
  | asleep => exact absurd rfl hasleep
  | returned result => exact absurd rfl (hreturned result)
  | unwound => exact absurd rfl hunwound
  | _ => rfl

theorem exists_step {pageCount : Nat} (h : s.Invariant pageCount pages)
    (hrunning : ∃ i, (∀ result, s.points i ≠ .returned result) ∧ s.points i ≠ .unwound) :
    ∃ s', Step pages s s' := by
  have hmove : ∀ i, (s.cache.getOrValidate i (pages i) .unwinds (s.points i)).isSome →
      ∃ s', Step pages s s' := by
    intro i hsome
    obtain ⟨moved, hmoved⟩ := Option.isSome_iff_exists.mp hsome
    exact ⟨_, i, .unwinds, by rw [step, hmoved]⟩
  have hholder : ∀ i, (s.points i).HoldsLock → ∃ s', Step pages s s' := by
    intro i hlock
    apply hmove i
    refine getOrValidate_isSome _ (fun _ => ⟨?_, fun verdict => ?_⟩) ?_ (fun result => ?_) ?_
    all_goals
      intro heq
      rw [heq] at hlock
      exact hlock
  by_cases hlock : s.cache.waitLock = none
  · have hawake : ∀ i, (∀ result, s.points i ≠ .returned result) → s.points i ≠ .unwound →
        s.points i ≠ .asleep → ∃ s', Step pages s s' := by
      intro i hreturned hunwound hasleep
      apply hmove i
      exact getOrValidate_isSome _ (fun htaken => absurd hlock htaken) hasleep hreturned hunwound
    obtain ⟨i, hreturned, hunwound⟩ := hrunning
    by_cases hasleep : s.points i = .asleep
    · rcases h.asleep i hasleep with hstate | ⟨j, hnotifies⟩
      · obtain ⟨j, -, hclaims⟩ := (h.claimed.taken_iff (pages i)).mp hstate
        refine hawake j (fun result => ?_) ?_ ?_
        all_goals
          intro heq
          rw [heq] at hclaims
          exact hclaims
      · apply hholder j
        cases hpoint : s.points j <;> rw [hpoint] at hnotifies <;> trivial
    · exact hawake i hreturned hunwound hasleep
  · obtain ⟨i, hi⟩ := Option.ne_none_iff_exists'.mp hlock
    exact hholder i ((h.locked i).mp hi)

/-! ### Every run ends -/

end ValidationThreads

namespace ValidationPoint

/-- Changes of the shared state that a call can still make: claim, store, notify. -/
def changes : ValidationPoint → Nat
  | validate | record _ | lockClaim _ | store _ => 2
  | notify _ => 1
  | unlockClaim _ | returned _ | unwound => 0
  | _ => 3

/-- Steps a call can take before it changes the shared state, sleeps or ends,
while its page stays in the given state. -/
def distance : AdjacencyPageState → ValidationPoint → Nat
  | _, validate => 4
  | _, record _ => 3
  | _, lockClaim _ => 2
  | _, store _ => 1
  | _, notify _ => 1
  | _, unlockClaim _ => 1
  | _, readError => 1
  | _, returned _ => 0
  | _, unwound => 0
  | _, asleep => 0
  | _, sleep => 1
  | .validating, unlockWait => 7
  | .validating, exchange => 6
  | .validating, load => 5
  | .validating, lockWait => 4
  | .validating, check => 3
  | .unvalidated, lockWait => 6
  | .unvalidated, check => 5
  | .unvalidated, unlockWait => 4
  | .unvalidated, load => 3
  | .unvalidated, exchange => 2
  | _, lockWait => 8
  | _, check => 7
  | _, unlockWait => 6
  | _, exchange => 6
  | _, load => 5

@[simp] theorem wake_changes (point : ValidationPoint) : point.wake.changes = point.changes := by
  cases point <;> rfl

end ValidationPoint

namespace ValidationThreads

open AdjacencyValidationCache (Turn)

variable {n : Nat} {pages : Fin n → Nat} {s s' : ValidationThreads n}

theorem turn_decreases {cache cache' : AdjacencyValidationCache n} {i : Fin n}
    {point' : ValidationPoint} {ended : Option CallbackOutcome} {notified : Bool}
    (h : Turn cache i page point ended cache' point' notified) :
    point'.changes < point.changes ∨ (point'.changes = point.changes ∧ notified = false ∧
      cache'.states = cache.states ∧
      point'.distance (cache.states page) < point.distance (cache.states page)) := by
  cases h with
  | seeUnvalidated h | seeValidating h | seeInvalid h | checkValidating h =>
    exact .inr ⟨rfl, rfl, rfl, by rw [h]; decide⟩
  | seeValid h | claim h => exact .inl (by decide)
  | miss h =>
    refine .inr ⟨rfl, rfl, rfl, ?_⟩
    cases hstate : cache.states page with
    | unvalidated => exact absurd hstate h
    | _ => decide
  | callback verdict =>
    rcases verdict with error | ⟨⟩ <;>
      exact .inr ⟨rfl, rfl, rfl, by
        simp [afterCallback, distance]⟩
  | unwind | record _ | lockClaim _ _ | sleep =>
    exact .inr ⟨rfl, rfl, rfl, by simp [distance]⟩
  | store _ | notify _ | readError => exact .inl (by simp [changes])
  | unlockClaim verdict =>
    cases verdict <;>
      exact .inr ⟨rfl, rfl, rfl, by simp [finish, distance]⟩
  | checkSettled h =>
    refine .inr ⟨rfl, rfl, rfl, ?_⟩
    cases hstate : cache.states page with
    | validating => exact absurd hstate h
    | _ => decide
  | lockWait _ | unlockWait =>
    refine .inr ⟨rfl, rfl, rfl, ?_⟩
    cases cache.states page <;> decide

def progress (pages : Fin n → Nat) (s : ValidationThreads n) : ℕ ×ₗ ℕ ×ₗ ℕ :=
  rank (∑ i, (s.points i).changes)
    (∑ i, (s.points i).distance (s.cache.states (pages i))) 0

theorem progress_lt (hstep : Step pages s s') : s'.progress pages < s.progress pages := by
  obtain ⟨i, outcome, hstep⟩ := hstep
  obtain ⟨ended, point, notified, hturn, -, hi, hothers⟩ := step_cases hstep
  have hchanges : ∀ j, j ≠ i → (s'.points j).changes = (s.points j).changes := by
    intro j hj
    rw [hothers j hj]
    split <;> simp
  rw [progress, progress, rank_lt_iff]
  rcases turn_decreases hturn with hlt | ⟨heq, rfl, hstates, hlt⟩
  · exact .inl (sum_lt_of_one i (hi ▸ hlt) hchanges)
  · refine .inr ⟨sum_eq_of_one i (by rw [hi, heq]) hchanges, .inl (sum_lt_of_one i ?_ ?_)⟩
    · rwa [hi, hstates]
    · intro j hj
      rw [hothers j hj, hstates]
      rfl

section Reachable

variable {pageCount : Nat} (h : s.Invariant pageCount pages)

include h

theorem Invariant.no_callback {i j : Fin n} {verdict : IoResult Unit}
    (hmem : (i, .returns verdict) ∈ s.callbacks) (hj : pages j = pages i) :
    s.points j ≠ .validate ∧ (pages j < pageCount → ∀ result, s.points j = .returned result →
      result = verdict) := by
  have hfirst := h.first i verdict hmem
  have hplaced := h.placed j
  constructor
  · intro heq
    rw [heq, Placed, hj, hfirst] at hplaced
    cases hplaced
  · intro hpage result heq
    rw [heq] at hplaced
    exact Option.some.inj ((hplaced hpage).symm.trans (hj ▸ hfirst))

theorem Invariant.unvalidated_iff (page : Nat) : s.cache.states page = .unvalidated ↔
    (∀ j, pages j = page → ¬(s.points j).Claims) ∧
      ∀ i verdict, pages i = page → (i, .returns verdict) ∉ s.callbacks := by
  have hreflects := h.reflects page
  unfold Reflects at hreflects
  constructor
  · intro hstate
    rw [hstate] at hreflects
    refine ⟨fun j hj hclaims => ?_, fun i verdict hi hmem => ?_⟩
    · simp [← hj, h.claims_validating hclaims] at hstate
    · simp [← hi, h.first i verdict hmem] at hreflects
  · rintro ⟨hclaims, hcallbacks⟩
    have hnone : ∀ verdict, verdictOf pages s.callbacks page ≠ some verdict := by
      intro verdict hverdict
      obtain ⟨i, hi, hmem⟩ := exists_of_verdictOf hverdict
      exact hcallbacks i verdict hi hmem
    cases hstate : s.cache.states page with
    | unvalidated => rfl
    | validating =>
      obtain ⟨j, hj, hclaim⟩ := (h.claimed.taken_iff page).mp hstate
      exact absurd hclaim (hclaims j hj)
    | valid =>
      rw [hstate] at hreflects
      exact absurd hreflects (hnone _)
    | invalid =>
      rw [hstate] at hreflects
      obtain ⟨error, -, hverdict⟩ := hreflects
      exact absurd hverdict (hnone _)

end Reachable

/-- Calls on any pages by any number of threads, in any order of their steps. A
callback runs while its thread stands at `validate`. Once one has returned, none
runs on its page in any later state, so the calls that unwind are those whose own
callback did so before. -/
theorem validation_is_one_shot (pageCount : Nat) (pages : Fin n → Nat) :
    (∀ s, Relation.ReflTransGen (Step pages) (begin pageCount pages) s →
      (∀ i j, pages i = pages j → s.points i = .validate → s.points j = .validate → i = j) ∧
      (∀ i verdict, (i, .returns verdict) ∈ s.callbacks → ∀ j, pages j = pages i →
        s.points j ≠ .validate ∧ (pages j < pageCount → ∀ result,
          s.points j = .returned result → result = verdict)) ∧
      (∀ j, pages j < pageCount → ∀ result, s.points j = .returned result →
        ∃ i, pages i = pages j ∧ (i, .returns result) ∈ s.callbacks) ∧
      (∀ j, s.points j = .unwound → (j, .unwinds) ∈ s.callbacks) ∧
      (∀ page, s.cache.states page = .unvalidated ↔
        (∀ j, pages j = page → ¬(s.points j).Claims) ∧
          ∀ i verdict, pages i = page → (i, .returns verdict) ∉ s.callbacks) ∧
      (∀ i, s.points i = .asleep →
        (∃ j, pages j = pages i ∧ (s.points j).Claims) ∨ ∃ j, (s.points j).Notifies) ∧
      ((∃ i, (∀ result, s.points i ≠ .returned result) ∧ s.points i ≠ .unwound) →
        ∃ s', Step pages s s')) ∧
    ∀ run : ℕ → ValidationThreads n, run 0 = begin pageCount pages →
      ¬∀ k, Step pages (run k) (run (k + 1)) := by
  have hbegin := begin_invariant pageCount pages
  have hkept : ∀ s s' : ValidationThreads n, s.Invariant pageCount pages → Step pages s s' →
      s'.Invariant pageCount pages := fun s s' h => h.step
  refine ⟨fun s hreach => ?_, fun run hrun => ?_⟩
  · have h := invariant_of_reachable hkept hbegin hreach
    refine ⟨?_, fun i verdict hmem j => h.no_callback hmem, ?_, ?_, h.unvalidated_iff, ?_,
      exists_step h⟩
    · intro i j hpages hi hj
      exact h.claimed.unique ⟨rfl, by rw [hi]; trivial⟩ ⟨hpages.symm, by rw [hj]; trivial⟩
    · intro j hpage result heq
      have hplaced := h.placed j
      rw [heq] at hplaced
      exact exists_of_verdictOf (hplaced hpage)
    · intro j heq
      have hplaced := h.placed j
      rwa [heq] at hplaced
    · intro i hasleep
      rcases h.asleep i hasleep with hstate | hnotifies
      · exact .inl ((h.claimed.taken_iff (pages i)).mp hstate)
      · exact .inr hnotifies
  · apply no_infinite_run (progress pages) hkept (fun s s' _ => progress_lt)
    rw [hrun]
    exact hbegin

def corrupt : IoResult Unit := .error (invalidData "DiskANN adjacency page is corrupt")

/-- The callback of the first thread unwinds, that of the second finds an error. -/
def rivalOutcome : Fin 3 → CallbackOutcome
  | 1 => .returns corrupt
  | _ => .unwinds

/-- The third thread sleeps while the others have the page, and is woken by both. -/
def rivalSchedule : List (Fin 3) :=
  [0, 0, 2, 2, 2, 2, 0, 0, 0, 0, 0, 1, 1, 2, 2, 2, 1, 1, 1, 1, 1, 1, 2, 2, 2, 2, 2]

theorem validation_is_one_shot_three :
    ∃ s : ValidationThreads 3, Relation.ReflTransGen (Step fun _ => 0) (begin 1 fun _ => 0) s ∧
      s.points 0 = .unwound ∧ s.points 1 = .returned corrupt ∧ s.points 2 = .returned corrupt ∧
      s.callbacks = [(0, .unwinds), (1, .returns corrupt)] ∧
      ∀ j, s.points j ≠ .validate ∧ ∀ result, s.points j = .returned result → result = corrupt := by
  obtain ⟨s, hrun, h0, h1, h2, hcallbacks⟩ : ∃ s, rivalSchedule.foldlM
      (fun s i => s.step (fun _ => 0) i (rivalOutcome i)) (begin 1 fun _ => 0) = some s ∧
      s.points 0 = .unwound ∧ s.points 1 = .returned corrupt ∧ s.points 2 = .returned corrupt ∧
      s.callbacks = [(0, .unwinds), (1, .returns corrupt)] := ⟨_, rfl, rfl, rfl, rfl, rfl⟩
  have hreach : Relation.ReflTransGen (Step fun _ => 0) (begin 1 fun _ => 0) s :=
    reachable_of_schedule (fun s i s' hstep => ⟨i, rivalOutcome i, hstep⟩) hrun
  obtain ⟨-, hone, -⟩ := (validation_is_one_shot 1 fun _ => 0).1 s hreach
  refine ⟨s, hreach, h0, h1, h2, hcallbacks, fun j => ?_⟩
  have hj := hone 1 corrupt (by simp [hcallbacks]) j rfl
  exact ⟨hj.1, hj.2 Nat.one_pos⟩

end ValidationThreads

end PaimonVindex
