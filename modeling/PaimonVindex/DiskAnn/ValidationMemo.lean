import PaimonVindex.DiskAnn.ValidationCache

/-! One page, one verdict: whatever the order of the threads' steps, a page has
one claim at a time, keeps the first verdict found, and no thread is left
asleep. -/

namespace PaimonVindex

open Interleaving Function

variable {verdict : IoResult Unit}

namespace ValidationPoint

/-- Between the exchange that claims the page and the store that settles it. -/
def Claims : ValidationPoint → Prop
  | validate | record _ | lockClaim _ | store _ => True
  | _ => False

def HoldsLock : ValidationPoint → Prop
  | store _ | notify _ | unlockClaim _ | check | sleep | unlockWait => True
  | _ => False

def Notifies : ValidationPoint → Prop
  | notify _ => True
  | _ => False

section Wake

variable (point : ValidationPoint)

@[simp] theorem wake_claims : point.wake.Claims ↔ point.Claims := by
  cases point <;> simp [wake, Claims]

@[simp] theorem wake_holdsLock : point.wake.HoldsLock ↔ point.HoldsLock := by
  cases point <;> simp [wake, HoldsLock]

@[simp] theorem wake_notifies : point.wake.Notifies ↔ point.Notifies := by
  cases point <;> simp [wake, Notifies]

@[simp] theorem wake_ne_asleep : point.wake ≠ asleep := by
  cases point <;> simp [wake]

end Wake

end ValidationPoint

namespace AdjacencyValidationCache

variable {n : Nat} {cache cache' : AdjacencyValidationCache n} {i : Fin n} {page : Nat}
  {point point' : ValidationPoint} {ended : Option CallbackOutcome} {notified : Bool}

def afterCallback : IoResult Unit → ValidationPoint
  | .ok () => .lockClaim (some (.ok ()))
  | .error error => .record error

/-- The steps of a call, each with the condition it is taken under and the callback
that it ends. -/
inductive Turn (cache : AdjacencyValidationCache n) (i : Fin n) (page : Nat) :
    ValidationPoint → Option CallbackOutcome → AdjacencyValidationCache n → ValidationPoint →
      Bool → Prop
  | seeUnvalidated (h : cache.states page = .unvalidated) :
      Turn cache i page .load none cache .exchange false
  | seeValidating (h : cache.states page = .validating) :
      Turn cache i page .load none cache .lockWait false
  | seeValid (h : cache.states page = .valid) :
      Turn cache i page .load none cache (.returned (.ok ())) false
  | seeInvalid (h : cache.states page = .invalid) :
      Turn cache i page .load none cache .readError false
  | claim (h : cache.states page = .unvalidated) :
      Turn cache i page .exchange none
        { cache with states := update cache.states page .validating } .validate false
  | miss (h : cache.states page ≠ .unvalidated) : Turn cache i page .exchange none cache .load false
  | callback (verdict : IoResult Unit) :
      Turn cache i page .validate (some (.returns verdict)) cache (afterCallback verdict) false
  | unwind : Turn cache i page .validate (some .unwinds) cache (.lockClaim none) false
  | record (error : IoError) :
      Turn cache i page (.record error) none
        { cache with errors := update cache.errors page (some error) }
        (.lockClaim (some (.error error))) false
  | lockClaim (verdict : Option (IoResult Unit)) (h : cache.waitLock = none) :
      Turn cache i page (.lockClaim verdict) none { cache with waitLock := some i }
        (.store verdict) false
  | store (verdict : Option (IoResult Unit)) :
      Turn cache i page (.store verdict) none
        { cache with states := update cache.states page (settledState verdict) }
        (.notify verdict) false
  | notify (verdict : Option (IoResult Unit)) :
      Turn cache i page (.notify verdict) none cache (.unlockClaim verdict) true
  | unlockClaim (verdict : Option (IoResult Unit)) :
      Turn cache i page (.unlockClaim verdict) none { cache with waitLock := none }
        (.finish verdict) false
  | lockWait (h : cache.waitLock = none) :
      Turn cache i page .lockWait none { cache with waitLock := some i } .check false
  | checkValidating (h : cache.states page = .validating) :
      Turn cache i page .check none cache .sleep false
  | checkSettled (h : cache.states page ≠ .validating) :
      Turn cache i page .check none cache .unlockWait false
  | sleep : Turn cache i page .sleep none { cache with waitLock := none } .asleep false
  | unlockWait : Turn cache i page .unlockWait none { cache with waitLock := none } .load false
  | readError :
      Turn cache i page .readError none cache
        (.returned (.error ((cache.errors page).getD
          (invalidData "DiskANN adjacency page failed validation")))) false

theorem turn_of_getOrValidate {outcome : CallbackOutcome}
    (h : cache.getOrValidate i page outcome point = some (cache', point', notified)) :
    Turn cache i page point (point.ended outcome) cache' point' notified := by
  cases point with
  | load =>
    cases hstate : cache.states page <;> simp only [getOrValidate, hstate, Option.some.injEq,
      Prod.mk.injEq] at h <;> obtain ⟨rfl, rfl, rfl⟩ := h
    · exact .seeUnvalidated hstate
    · exact .seeValidating hstate
    · exact .seeValid hstate
    · exact .seeInvalid hstate
  | exchange =>
    simp only [getOrValidate] at h
    split at h
    · cases h
      exact .claim ‹_›
    · cases h
      exact .miss ‹_›
  | validate =>
    rcases outcome with ⟨⟨error⟩ | ⟨⟩⟩ | _ <;> cases h
    · exact .callback (.error error)
    · exact .callback (.ok ())
    · exact .unwind
  | lockClaim _ | lockWait =>
    simp only [getOrValidate] at h
    split at h
    · cases h
      constructor
      assumption
    · cases h
  | check =>
    simp only [getOrValidate] at h
    split at h
    · cases h
      exact .checkValidating ‹_›
    · cases h
      exact .checkSettled ‹_›
  | asleep | returned _ | unwound => simp [getOrValidate] at h
  | record _ | store _ | notify _ | unlockClaim _ | sleep | unlockWait | readError =>
    cases h
    constructor

theorem Turn.notified_point (h : Turn cache i page point ended cache' point' true) :
    ∃ verdict, point = .notify verdict ∧ point' = .unlockClaim verdict := by
  cases h with
  | notify verdict => exact ⟨verdict, rfl, rfl⟩

variable (h : Turn cache i page point ended cache' point' notified)

include h

theorem Turn.claims :
    (¬point.Claims ∧ point'.Claims ∧ cache.states page = .unvalidated ∧
      cache'.states = update cache.states page .validating) ∨
    (point.Claims ∧ ¬point'.Claims ∧ ∃ verdict, point = .store verdict ∧ point' = .notify verdict ∧
      cache'.states = update cache.states page (settledState verdict)) ∨
    ((point.Claims ↔ point'.Claims) ∧ cache'.states = cache.states) := by
  cases h with
  | claim h => exact .inl ⟨id, trivial, h, rfl⟩
  | store verdict => exact .inr (.inl ⟨trivial, id, verdict, rfl, rfl, rfl⟩)
  | callback verdict =>
    rcases verdict with error | ⟨⟩ <;> exact .inr (.inr ⟨Iff.rfl, rfl⟩)
  | unlockClaim verdict => cases verdict <;> exact .inr (.inr ⟨Iff.rfl, rfl⟩)
  | _ => exact .inr (.inr ⟨Iff.rfl, rfl⟩)

theorem Turn.locks :
    (cache.waitLock = none ∧ cache'.waitLock = some i ∧ point'.HoldsLock) ∨
    (point.HoldsLock ∧ ¬point'.HoldsLock ∧ cache'.waitLock = none) ∨
    ((point.HoldsLock ↔ point'.HoldsLock) ∧ cache'.waitLock = cache.waitLock) := by
  cases h with
  | lockClaim verdict h => exact .inl ⟨h, rfl, trivial⟩
  | lockWait h => exact .inl ⟨h, rfl, trivial⟩
  | unlockClaim verdict => cases verdict <;> exact .inr (.inl ⟨trivial, id, rfl⟩)
  | sleep => exact .inr (.inl ⟨trivial, id, rfl⟩)
  | unlockWait => exact .inr (.inl ⟨trivial, id, rfl⟩)
  | callback verdict =>
    rcases verdict with error | ⟨⟩ <;> exact .inr (.inr ⟨Iff.rfl, rfl⟩)
  | _ => exact .inr (.inr ⟨Iff.rfl, rfl⟩)

/-- On a page that its caller does not claim, a step may only claim it. -/
theorem Turn.frame {p : Nat} (hp : p = page → ¬point.Claims ∧ cache.states p ≠ .unvalidated) :
    cache'.states p = cache.states p ∧ cache'.errors p = cache.errors p ∧
      (p = page → ended = none) := by
  by_cases hpage : p = page
  · obtain ⟨hclaims, hstate⟩ := hp hpage
    subst hpage
    cases h with
    | claim h => exact absurd h hstate
    | callback | unwind | record | store => exact absurd trivial hclaims
    | _ => exact ⟨rfl, rfl, fun _ => rfl⟩
  · cases h <;> simp [hpage]

/-- A page stops being validated only under the lock, by one who then notifies. -/
theorem Turn.validating {p : Nat} (hstate : cache.states p = .validating) :
    cache'.states p = .validating ∨ (point.HoldsLock ∧ point'.Notifies) := by
  cases h with
  | claim h => by_cases hpage : p = page <;> simp [hpage, hstate]
  | store verdict => exact .inr ⟨trivial, trivial⟩
  | _ => exact .inl hstate

theorem Turn.notified_of_notifies (hnotifies : point.Notifies) : notified = true := by
  cases h with
  | notify verdict => rfl
  | _ => cases hnotifies

theorem Turn.from_sleep (hasleep : point' = .asleep) :
    point = .sleep ∧ cache'.states = cache.states := by
  cases h with
  | callback verdict => rcases verdict with error | ⟨⟩ <;> cases hasleep
  | unlockClaim verdict => cases verdict <;> cases hasleep
  | sleep => exact ⟨rfl, rfl⟩
  | _ => cases hasleep

theorem Turn.validates (hended : ended ≠ none) : point = .validate := by
  cases h with
  | callback | unwind => rfl
  | _ => exact absurd rfl hended

end AdjacencyValidationCache

namespace ValidationThreads

open AdjacencyValidationCache (Turn)
open ValidationPoint

variable {n : Nat} {pages : Fin n → Nat} {s s' : ValidationThreads n}

section Places

variable (pages : Fin n → Nat) (callbacks : List (Fin n × CallbackOutcome))

/-- What the first callback on the page to return said. -/
def verdictOf (page : Nat) : Option (IoResult Unit) :=
  callbacks.findSome? fun call => if pages call.1 = page then call.2.verdict else none

variable (cache : AdjacencyValidationCache n)

/-- The state and the error of a page against its verdict. -/
def Reflects (page : Nat) : Prop :=
  match cache.states page with
  | .unvalidated => verdictOf pages callbacks page = none
  | .validating => True
  | .valid => verdictOf pages callbacks page = some (.ok ())
  | .invalid => ∃ error, cache.errors page = some error ∧
      verdictOf pages callbacks page = some (.error error)

/-- What holds where thread `i` stands. -/
def Placed (pageCount : Nat) (i : Fin n) : ValidationPoint → Prop
  | validate => verdictOf pages callbacks (pages i) = none
  | record error => verdictOf pages callbacks (pages i) = some (.error error)
  | lockClaim brought | store brought => verdictOf pages callbacks (pages i) = brought ∧
      (brought = none → (i, .unwinds) ∈ callbacks) ∧
      ∀ error, brought = some (.error error) → cache.errors (pages i) = some error
  | notify brought | unlockClaim brought => (brought = none → (i, .unwinds) ∈ callbacks) ∧
      ∀ verdict, brought = some verdict → verdictOf pages callbacks (pages i) = some verdict
  | sleep => cache.states (pages i) = .validating
  | readError => cache.states (pages i) = .invalid
  | returned result =>
    pages i < pageCount → verdictOf pages callbacks (pages i) = some result
  | unwound => (i, .unwinds) ∈ callbacks
  | _ => True

end Places

structure Invariant (pageCount : Nat) (pages : Fin n → Nat) (s : ValidationThreads n) : Prop where
  claimed : Leased (fun page => s.cache.states page = .validating)
    fun i page => pages i = page ∧ (s.points i).Claims
  locked : ∀ i, s.cache.waitLock = some i ↔ (s.points i).HoldsLock
  asleep : ∀ i, s.points i = .asleep →
    s.cache.states (pages i) = .validating ∨ ∃ j, (s.points j).Notifies
  reflects : ∀ page, Reflects pages s.callbacks s.cache page
  placed : ∀ i, Placed pages s.callbacks s.cache pageCount i (s.points i)
  first : ∀ i verdict, (i, .returns verdict) ∈ s.callbacks →
    verdictOf pages s.callbacks (pages i) = some verdict

section Callbacks

variable {callbacks : List (Fin n × CallbackOutcome)} {page : Nat}

theorem exists_of_verdictOf (h : verdictOf pages callbacks page = some verdict) :
    ∃ i, pages i = page ∧ (i, .returns verdict) ∈ callbacks := by
  obtain ⟨⟨i, outcome⟩, hmem, hfound⟩ := List.exists_of_findSome?_eq_some h
  split at hfound
  · rcases outcome with result | _ <;> cases hfound
    exact ⟨i, ‹_›, hmem⟩
  · cases hfound

theorem verdictOf_append (ended : Option CallbackOutcome) (i : Fin n) :
    verdictOf pages (callbacks ++ ended.toList.map (i, ·)) page =
      (verdictOf pages callbacks page).or
        (if pages i = page then ended.bind CallbackOutcome.verdict else none) := by
  rw [verdictOf, List.findSome?_append]
  cases ended with
  | none => simp [verdictOf]
  | some outcome =>
    simp only [Option.toList_some, List.map_cons, List.map_nil, List.findSome?_cons,
      List.findSome?_nil]
    split <;> simp_all [verdictOf]

theorem verdictOf_frame {ended : Option CallbackOutcome} {i : Fin n}
    (h : page = pages i → ended = none) :
    verdictOf pages (callbacks ++ ended.toList.map (i, ·)) page =
      verdictOf pages callbacks page := by
  rw [verdictOf_append]
  split
  · simp [h (Eq.symm ‹_›)]
  · simp

theorem verdictOf_mono (h : verdictOf pages callbacks page = some verdict)
    (ended : Option CallbackOutcome) (i : Fin n) :
    verdictOf pages (callbacks ++ ended.toList.map (i, ·)) page = some verdict := by
  rw [verdictOf_append, h, Option.some_or]

theorem verdictOf_ended {i : Fin n} (h : verdictOf pages callbacks (pages i) = none)
    (outcome : CallbackOutcome) :
    verdictOf pages (callbacks ++ (some outcome).toList.map (i, ·)) (pages i) =
      outcome.verdict := by
  rw [verdictOf_append, h, if_pos rfl, Option.none_or, Option.bind_some]

end Callbacks

theorem step_cases {i : Fin n} {outcome : CallbackOutcome}
    (h : s.step pages i outcome = some s') :
    ∃ ended point notified, Turn s.cache i (pages i) (s.points i) ended s'.cache point notified ∧
      s'.callbacks = s.callbacks ++ ended.toList.map (i, ·) ∧ s'.points i = point ∧
      ∀ j, j ≠ i → s'.points j = if notified then (s.points j).wake else s.points j := by
  rw [step] at h
  split at h
  · cases h
  · rename_i cache point notified hstep
    have hturn := AdjacencyValidationCache.turn_of_getOrValidate hstep
    cases h
    refine ⟨_, point, notified, hturn, rfl, ?_, ?_⟩
    · cases notified with
      | false => simp
      | true =>
        obtain ⟨verdict, -, rfl⟩ := hturn.notified_point
        simp [ValidationPoint.wake]
    · intro j hj
      cases notified <;> simp [hj]

theorem others_iff {i : Fin n} {notified : Bool} {Q : ValidationPoint → Prop}
    (hothers : ∀ j, j ≠ i → s'.points j = if notified then (s.points j).wake else s.points j)
    (hwake : ∀ point : ValidationPoint, Q point.wake ↔ Q point) {j : Fin n} (hj : j ≠ i) :
    Q (s'.points j) ↔ Q (s.points j) := by
  rw [hothers j hj]
  split
  · exact hwake _
  · rfl

section Turns

variable {pageCount : Nat} {i : Fin n} {point : ValidationPoint} {notified : Bool}
  {ended : Option CallbackOutcome} {cache' : AdjacencyValidationCache n}

theorem Invariant.claims_validating (h : s.Invariant pageCount pages)
    (hclaims : (s.points i).Claims) : s.cache.states (pages i) = .validating :=
  (h.claimed.taken_iff (pages i)).mpr ⟨i, rfl, hclaims⟩

variable (h : s.Invariant pageCount pages)
  (hturn : Turn s.cache i (pages i) (s.points i) ended cache' point notified)

include h hturn

theorem Invariant.reflects_turn (page : Nat) :
    Reflects pages (s.callbacks ++ ended.toList.map (i, ·)) cache' page := by
  have hreflects := h.reflects page
  by_cases hp : page = pages i → ¬(s.points i).Claims ∧ s.cache.states page ≠ .unvalidated
  · obtain ⟨hstates, herrors, hended⟩ := hturn.frame hp
    unfold Reflects at hreflects ⊢
    rwa [hstates, herrors, verdictOf_frame hended]
  · -- the mover's own page, which it claims or may claim
    obtain ⟨rfl, -⟩ := Classical.not_imp.mp hp
    have hclaims : (s.points i).Claims → _ := h.claims_validating
    have hplaced := h.placed i
    generalize s.points i = before at hturn hclaims hplaced
    unfold Reflects at hreflects ⊢
    cases hturn with
    | callback | unwind | record => simp [hclaims trivial]
    | claim => simp
    | store brought =>
      obtain ⟨hverdict, -, herror⟩ := hplaced
      rcases brought with _ | ⟨error⟩ | ⟨⟩ <;> simp [settledState, hverdict, herror]
    | _ => simpa using hreflects

theorem Invariant.placed_turn :
    Placed pages (s.callbacks ++ ended.toList.map (i, ·)) cache' pageCount i point := by
  have hreflects := h.reflects (pages i)
  have hplaced := h.placed i
  generalize s.points i = before at hturn hplaced
  unfold Reflects at hreflects
  cases hturn with
  | seeValid hstate =>
    rw [hstate] at hreflects
    simpa [Placed] using fun _ => hreflects
  | seeInvalid hstate => exact hstate
  | claim hstate =>
    rw [hstate] at hreflects
    simpa [Placed] using hreflects
  | callback verdict =>
    have hnew := verdictOf_ended hplaced (.returns verdict)
    rcases verdict with error | ⟨⟩
    · exact hnew
    · exact ⟨hnew, by simp, by simp⟩
  | unwind => exact ⟨verdictOf_ended hplaced .unwinds, by simp, by simp⟩
  | record error =>
    have hverdict : verdictOf pages s.callbacks (pages i) = some (.error error) := hplaced
    simp [Placed, hverdict]
  | store brought => simpa [Placed] using ⟨hplaced.2.1, fun verdict => hplaced.1.trans⟩
  | unlockClaim brought =>
    cases brought with
    | none => simpa [Placed, finish] using hplaced.1 rfl
    | some brought => simpa [Placed, finish] using fun _ => hplaced.2 brought rfl
  | checkValidating hstate => exact hstate
  | readError =>
    have hstate : s.cache.states (pages i) = .invalid := hplaced
    rw [hstate] at hreflects
    obtain ⟨error, herror, hverdict⟩ := hreflects
    simp [Placed, herror, hverdict]
  | lockClaim | notify => simpa [Placed] using hplaced
  | _ => trivial

theorem Invariant.placed_others {j : Fin n} (hj : j ≠ i) :
    Placed pages (s.callbacks ++ ended.toList.map (i, ·)) cache' pageCount j (s.points j) := by
  have hplaced := h.placed j
  have hclaimed : (s.points j).Claims → cache'.errors (pages j) = s.cache.errors (pages j) ∧
      (pages j = pages i → ended = none) := by
    intro hclaims
    have hstate := h.claims_validating hclaims
    refine (hturn.frame fun heq => ⟨fun hmover => hj ?_, by simp [hstate]⟩).2
    exact h.claimed.unique ⟨rfl, hclaims⟩ ⟨heq.symm, hmover⟩
  have hlocked := h.locked j
  generalize s.points j = point' at hplaced hclaimed hlocked
  cases point' with
  | validate | record error =>
    rw [Placed, verdictOf_frame (hclaimed trivial).2]
    exact hplaced
  | lockClaim brought | store brought =>
    rw [Placed, verdictOf_frame (hclaimed trivial).2, (hclaimed trivial).1]
    exact ⟨hplaced.1, fun hnone => List.mem_append_left _ (hplaced.2.1 hnone), hplaced.2.2⟩
  | notify brought | unlockClaim brought =>
    exact ⟨fun hnone => List.mem_append_left _ (hplaced.1 hnone),
      fun verdict hsome => verdictOf_mono (hplaced.2 verdict hsome) ended i⟩
  | sleep =>
    -- the sleeper-to-be has the lock, so nobody else stores
    rcases hturn.validating hplaced with hstate | ⟨hlock, -⟩
    · exact hstate
    · have hmover := (h.locked i).mpr hlock
      rw [hlocked.mpr trivial] at hmover
      exact absurd (Option.some.inj hmover) hj
  | readError =>
    have hstate : s.cache.states (pages j) = .invalid := hplaced
    refine (hturn.frame fun heq => ⟨fun hmover => ?_, by simp [hstate]⟩).1.trans hstate
    simp [heq, h.claims_validating hmover] at hstate
  | returned result => exact fun hpage => verdictOf_mono (hplaced hpage) ended i
  | unwound => exact List.mem_append_left _ hplaced
  | _ => trivial

theorem Invariant.first_turn {j : Fin n}
    (hmem : (j, .returns verdict) ∈ s.callbacks ++ ended.toList.map (i, ·)) :
    verdictOf pages (s.callbacks ++ ended.toList.map (i, ·)) (pages j) = some verdict := by
  rcases List.mem_append.mp hmem with hold | hnew
  · exact verdictOf_mono (h.first j verdict hold) ended i
  · obtain ⟨outcome, hended, heq⟩ := List.mem_map.mp hnew
    cases heq
    rw [Option.mem_toList.mp hended] at hturn ⊢
    have hplaced := h.placed i
    rw [hturn.validates (by simp)] at hplaced
    exact verdictOf_ended hplaced (.returns verdict)

end Turns

section Steps

variable {pageCount : Nat} {i : Fin n} {point : ValidationPoint} {notified : Bool}
  {ended : Option CallbackOutcome} (h : s.Invariant pageCount pages)
  (hturn : Turn s.cache i (pages i) (s.points i) ended s'.cache point notified)
  (hi : s'.points i = point)
  (hothers : ∀ j, j ≠ i → s'.points j = if notified then (s.points j).wake else s.points j)

include h hturn hi hothers

theorem Invariant.claimed_step : Leased (fun page => s'.cache.states page = .validating)
    fun i page => pages i = page ∧ (s'.points i).Claims := by
  have hothers' : ∀ j, j ≠ i → ∀ page, (pages j = page ∧ (s'.points j).Claims) ↔
      (pages j = page ∧ (s.points j).Claims) :=
    fun j hj page => and_congr_right fun _ => others_iff hothers wake_claims hj
  rcases hturn.claims with ⟨hfree, htaken, hstate, hstates⟩ |
    ⟨hclaim, hgiven, verdict, -, -, hstates⟩ | ⟨hsame, hstates⟩
  · refine h.claimed.acquire (x := pages i) (by simp [hstate]) ?_ ?_ hothers'
    · intro page
      rw [hstates]
      by_cases hpage : page = pages i
      · simp [hpage]
      · simp [hpage]
    · intro page
      rw [hi]
      simp [htaken, hfree, eq_comm]
  · refine h.claimed.release (fun page => page = pages i) ?_ ?_ ?_ hothers'
    · rintro page - rfl
      exact ⟨rfl, hclaim⟩
    · intro page
      rw [hstates]
      by_cases hpage : page = pages i
      · rcases verdict with _ | ⟨error⟩ | ⟨⟩ <;> simp [hpage, settledState]
      · simp [hpage]
    · intro page
      rw [hi]
      simp only [hgiven, and_false, false_iff, not_and, not_not]
      exact fun hpage => hpage.1.symm
  · refine h.claimed.congr (fun page => by rw [hstates]) fun j page => ?_
    by_cases hj : j = i
    · rw [hj, hi, hsame]
    · exact hothers' j hj page

theorem Invariant.locked_step (j : Fin n) :
    s'.cache.waitLock = some j ↔ (s'.points j).HoldsLock := by
  have hholds : j ≠ i → ((s'.points j).HoldsLock ↔ (s.points j).HoldsLock) :=
    others_iff hothers wake_holdsLock
  rcases hturn.locks with ⟨hfree, htaken, hholder⟩ | ⟨hholder, hreleased, hfree⟩ | ⟨hsame, hlock⟩
  · by_cases hj : j = i
    · rw [hj, hi, htaken]
      simp [hholder]
    · have hnot : ¬(s.points j).HoldsLock := by
        rw [← h.locked, hfree]
        simp
      rw [htaken, hholds hj]
      simp [hnot, Ne.symm hj]
  · by_cases hj : j = i
    · rw [hj, hi, hfree]
      simp [hreleased]
    · have hnot : ¬(s.points j).HoldsLock := by
        rw [← h.locked, (h.locked i).mpr hholder]
        simpa using Ne.symm hj
      rw [hfree, hholds hj]
      simp [hnot]
  · rw [hlock]
    by_cases hj : j = i
    · rw [hj, hi, ← hsame]
      exact h.locked i
    · rw [hholds hj]
      exact h.locked j

theorem Invariant.asleep_step (j : Fin n) (hj' : s'.points j = .asleep) :
    s'.cache.states (pages j) = .validating ∨ ∃ k, (s'.points k).Notifies := by
  by_cases hj : j = i
  · subst hj
    obtain ⟨hsleep, hstates⟩ := hturn.from_sleep (hi.symm.trans hj')
    have hplaced := h.placed j
    rw [hsleep] at hplaced
    rw [hstates]
    exact .inl hplaced
  · -- a notification would have woken the sleeper
    have hquiet : notified = false := by
      cases notified with
      | false => rfl
      | true =>
        rw [hothers j hj] at hj'
        simp at hj'
    rw [hothers j hj, hquiet] at hj'
    rcases h.asleep j hj' with hstate | ⟨k, hk⟩
    · rcases hturn.validating hstate with hstate' | ⟨-, hnotifies⟩
      · exact .inl hstate'
      · exact .inr ⟨i, by rwa [hi]⟩
    · have hki : k ≠ i := by
        rintro rfl
        rw [hturn.notified_of_notifies hk] at hquiet
        cases hquiet
      exact .inr ⟨k, (others_iff hothers wake_notifies hki).mpr hk⟩

end Steps

theorem Invariant.step {pageCount : Nat} (h : s.Invariant pageCount pages)
    (hstep : Step pages s s') : s'.Invariant pageCount pages := by
  obtain ⟨i, outcome, hstep⟩ := hstep
  obtain ⟨ended, point, notified, hturn, hcallbacks, hi, hothers⟩ := step_cases hstep
  refine ⟨h.claimed_step hturn hi hothers, h.locked_step hturn hi hothers,
    h.asleep_step hturn hi hothers, ?_, fun j => ?_, ?_⟩
  · rw [hcallbacks]
    exact h.reflects_turn hturn
  · rw [hcallbacks]
    by_cases hj : j = i
    · rw [hj, hi]
      exact h.placed_turn hturn
    · exact (others_iff hothers (fun point => by cases point <;> rfl) hj).mpr
        (h.placed_others hturn hj)
  · rw [hcallbacks]
    exact fun j verdict => h.first_turn hturn

theorem begin_invariant (pageCount : Nat) (pages : Fin n → Nat) :
    (begin pageCount pages).Invariant pageCount pages := by
  have hpoint : ∀ i, (begin pageCount pages).points i = .load ∨ ¬pages i < pageCount ∧
      ∃ result, (begin pageCount pages).points i = .returned result := by
    intro i
    by_cases hpage : pages i < pageCount
    · exact .inl (if_pos hpage)
    · exact .inr ⟨hpage, _, if_neg hpage⟩
  have hnot : ∀ {Q : ValidationPoint → Prop}, ¬Q .load → (∀ result, ¬Q (.returned result)) →
      ∀ i, ¬Q ((begin pageCount pages).points i) := by
    intro Q hload hreturned i
    rcases hpoint i with heq | ⟨-, result, heq⟩
    · rwa [heq]
    · rw [heq]
      exact hreturned result
  have hclaims := hnot (Q := Claims) id fun _ => id
  constructor
  case claimed =>
    refine ⟨fun page => ⟨by simp [begin], ?_⟩, fun hi _ => absurd hi.2 (hclaims _)⟩
    rintro ⟨i, -, hi⟩
    exact absurd hi (hclaims i)
  case locked => exact fun i => ⟨by simp [begin], fun hi => absurd hi (hnot id (fun _ => id) i)⟩
  case asleep => exact fun i hi => absurd hi (hnot (Q := (· = .asleep)) (by simp) (by simp) i)
  case reflects => exact fun _ => rfl
  case placed =>
    intro i
    rcases hpoint i with heq | ⟨hpage, result, heq⟩
    · rw [heq]
      trivial
    · rw [heq]
      exact fun hlt => absurd hlt hpage
  case first => exact fun i verdict hmem => absurd hmem List.not_mem_nil

end ValidationThreads

end PaimonVindex
