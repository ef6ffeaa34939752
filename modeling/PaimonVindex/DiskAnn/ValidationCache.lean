import PaimonVindex.Io
import PaimonVindex.Lib.Interleaving

/-! The memo of page validations that threads share: an atomic state per page,
the errors found, and a lock with a condition variable for those that wait. -/

namespace PaimonVindex

open Interleaving

inductive AdjacencyPageState where
  | unvalidated
  | validating
  | valid
  | invalid
  deriving DecidableEq, Repr

inductive CallbackOutcome where
  | returns (verdict : IoResult Unit)
  | unwinds

def CallbackOutcome.verdict : CallbackOutcome → Option (IoResult Unit)
  | returns verdict => some verdict
  | unwinds => none

/-- Where a call of `get_or_validate` stands: before an atomic access, a lock or
an unlock, in its callback, asleep or at its end. A claim that ends carries the
verdict to publish, or none if the callback unwound. -/
inductive ValidationPoint where
  | load
  | exchange
  | validate
  | record (error : IoError)
  | lockClaim (verdict : Option (IoResult Unit))
  | store (verdict : Option (IoResult Unit))
  | notify (verdict : Option (IoResult Unit))
  | unlockClaim (verdict : Option (IoResult Unit))
  | lockWait
  | check
  | sleep
  | asleep
  | unlockWait
  | readError
  | returned (result : IoResult Unit)
  | unwound

/-- The page state that a claim leaves: the verdict's, or the one it found. -/
def settledState : Option (IoResult Unit) → AdjacencyPageState
  | some (.ok ()) => .valid
  | some (.error _) => .invalid
  | none => .unvalidated

namespace ValidationPoint

def wake : ValidationPoint → ValidationPoint
  | asleep => lockWait
  | point => point

def finish : Option (IoResult Unit) → ValidationPoint
  | some verdict => returned verdict
  | none => unwound

/-- The callback that a step ends. -/
def ended (outcome : CallbackOutcome) : ValidationPoint → Option CallbackOutcome
  | validate => some outcome
  | _ => none

end ValidationPoint

structure AdjacencyValidationCache (n : Nat) where
  states : Nat → AdjacencyPageState
  errors : Nat → Option IoError
  waitLock : Option (Fin n)

namespace AdjacencyValidationCache

variable {n : Nat}

/-- One atomic or lock step of thread `i` on `page`: the cache and the thread's
place after it, and whether the sleepers are notified. Nothing while the lock is
taken, asleep, or at the end. -/
def getOrValidate (cache : AdjacencyValidationCache n) (i : Fin n) (page : Nat)
    (outcome : CallbackOutcome) :
    ValidationPoint → Option (AdjacencyValidationCache n × ValidationPoint × Bool)
  | .load =>
    match cache.states page with
    | .unvalidated => some (cache, .exchange, false)
    | .validating => some (cache, .lockWait, false)
    | .valid => some (cache, .returned (.ok ()), false)
    | .invalid => some (cache, .readError, false)
  | .exchange =>
    if cache.states page = .unvalidated then
      some ({ cache with states := Function.update cache.states page .validating }, .validate,
        false)
    else some (cache, .load, false)
  | .validate =>
    match outcome with
    | .returns (.ok ()) => some (cache, .lockClaim (some (.ok ())), false)
    | .returns (.error error) => some (cache, .record error, false)
    | .unwinds => some (cache, .lockClaim none, false)
  | .record error =>
    some ({ cache with errors := Function.update cache.errors page (some error) },
      .lockClaim (some (.error error)), false)
  | .lockClaim verdict =>
    if cache.waitLock = none then
      some ({ cache with waitLock := some i }, .store verdict, false)
    else none
  | .store verdict =>
    some ({ cache with states := Function.update cache.states page (settledState verdict) },
      .notify verdict, false)
  | .notify verdict => some (cache, .unlockClaim verdict, true)
  | .unlockClaim verdict => some ({ cache with waitLock := none }, .finish verdict, false)
  | .lockWait =>
    if cache.waitLock = none then some ({ cache with waitLock := some i }, .check, false)
    else none
  | .check =>
    if cache.states page = .validating then some (cache, .sleep, false)
    else some (cache, .unlockWait, false)
  | .sleep => some ({ cache with waitLock := none }, .asleep, false)
  | .asleep => none
  | .unlockWait => some ({ cache with waitLock := none }, .load, false)
  | .readError =>
    let error := (cache.errors page).getD (invalidData "DiskANN adjacency page failed validation")
    some (cache, .returned (.error error), false)
  | .returned _ => none
  | .unwound => none

end AdjacencyValidationCache

/-- The threads on their cache, with the callbacks that have ended, in order, and
how each one did. -/
structure ValidationThreads (n : Nat) where
  cache : AdjacencyValidationCache n
  points : Fin n → ValidationPoint
  callbacks : List (Fin n × CallbackOutcome)

namespace ValidationThreads

variable {n : Nat}

def step (pages : Fin n → Nat) (i : Fin n) (outcome : CallbackOutcome) (s : ValidationThreads n) :
    Option (ValidationThreads n) :=
  match s.cache.getOrValidate i (pages i) outcome (s.points i) with
  | none => none
  | some (cache, point, notified) =>
    let points := Function.update s.points i point
    some ⟨cache, if notified then fun j => (points j).wake else points,
      s.callbacks ++ ((s.points i).ended outcome).toList.map (i, ·)⟩

def Step (pages : Fin n → Nat) (s s' : ValidationThreads n) : Prop :=
  ∃ i outcome, s.step pages i outcome = some s'

/-- All threads about to call on a new cache; a page out of range is refused. -/
def begin (pageCount : Nat) (pages : Fin n → Nat) : ValidationThreads n where
  cache := ⟨fun _ => .unvalidated, fun _ => none, none⟩
  points i :=
    if pages i < pageCount then .load
    else .returned (.error (invalidData "DiskANN adjacency page is out of range"))
  callbacks := []

end ValidationThreads

end PaimonVindex
