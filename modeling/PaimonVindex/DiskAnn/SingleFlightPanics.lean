import PaimonVindex.DiskAnn.SingleFlightProgress

/-! Window loads whose reads may unwind. Nothing catches a panic between a
reservation and its `publish` or `cancel`, and no lock is held while reading, so
an unwound load leaves the cache as it is and takes no further step. -/

namespace PaimonVindex

open Checked Interleaving WindowLoads SharedWindowCache

structure PanickyLoads (n others : Nat) where
  base : WindowLoads n others
  unwound : Fin n → Bool

namespace PanickyLoads

variable {n others : Nat} {content : Nat → UInt8}

def begin (cache : SharedWindowCache others) (requests : Fin n → Request) :
    PanickyLoads n others where
  base := .begin cache requests
  unwound _ := false

/-- Loads call `pread` in these phases only. -/
def Reading (load : WindowLoad others) : Prop :=
  match load.phase with
  | .read => True
  | .readUnshared => True
  | _ => False

instance (load : WindowLoad others) : Decidable (Reading load) := by
  unfold Reading
  split <;> infer_instance

inductive Event (n : Nat) where
  | runs (i : Fin n) (outcome : IoResult (ReadWindow → Nat))
  | unwinds (i : Fin n)

def next (content : Nat → UInt8) (s : PanickyLoads n others) :
    Event n → Option (PanickyLoads n others)
  | .runs i outcome =>
    if s.unwound i then none
    else (s.base.step content i outcome).map fun base => { s with base := base }
  | .unwinds i =>
    if s.unwound i = false ∧ Reading (s.base.loads i) then
      some { s with unwound := Function.update s.unwound i true }
    else none

def Step (content : Nat → UInt8) (s s' : PanickyLoads n others) : Prop :=
  ∃ event, s.next content event = some s'

/-- No load that is still on its way can move. -/
def Complete (content : Nat → UInt8) (s : PanickyLoads n others) : Prop :=
  ∀ event, s.next content event = none

def AllProceeded (s : PanickyLoads n others) : Prop :=
  (∀ k, (s.base.cache.shards k).loading = ∅) ∧
    ∀ i, s.unwound i = false → ∃ result, (s.base.loads i).phase = .returned result

variable {s : PanickyLoads n others} {s' : PanickyLoads n others}

theorem next_cases {event : Event n} (h : s.next content event = some s') :
    (∃ i outcome base, event = .runs i outcome ∧ s.unwound i = false ∧
      s.base.step content i outcome = some base ∧ s' = { s with base := base }) ∨
    ∃ i, event = .unwinds i ∧ s.unwound i = false ∧ Reading (s.base.loads i) ∧
      s' = { s with unwound := Function.update s.unwound i true } := by
  cases event with
  | runs i outcome =>
    simp only [next] at h
    split at h
    · cases h
    · rename_i hlive
      obtain ⟨base, hbase, rfl⟩ := Option.map_eq_some_iff.mp h
      exact .inl ⟨i, outcome, base, rfl, by simpa using hlive, hbase, rfl⟩
  | unwinds i =>
    simp only [next] at h
    split at h
    · rename_i hreading
      exact .inr ⟨i, rfl, hreading.1, hreading.2, (Option.some.inj h).symm⟩
    · cases h

/-! ### Invariants -/

structure Invariant (content : Nat → UInt8) (s : PanickyLoads n others) : Prop where
  base : s.base.Invariant content
  reading : ∀ i, s.unwound i = true → Reading (s.base.loads i)

theorem reading_wake {load : WindowLoad others} (h : Reading load) (index : Fin (others + 1)) :
    load.wake index = load := by
  rcases load.wake_cases index with heq | ⟨hphase, -⟩
  · exact heq
  · rw [Reading, hphase] at h
    exact h.elim

variable {i : Fin n}

theorem reading_kept {s s' : WindowLoads n others} {j : Fin n}
    {outcome : IoResult (ReadWindow → Nat)} (h : s.step content i outcome = some s') (hj : j ≠ i)
    (hreading : Reading (s.loads j)) : s'.loads j = s.loads j := by
  obtain ⟨load, notified, -, -, hothers⟩ := step_cases h
  rw [hothers j hj]
  cases notified with
  | none => rfl
  | some index => exact reading_wake hreading index

/-- Steps of the loads count as before; unwinding takes a load out for good. -/
def progress (s : PanickyLoads n others) : ℕ ×ₗ (ℕ ×ₗ ℕ ×ₗ ℕ) :=
  toLex (∑ i, (!s.unwound i).toNat, s.base.progress)

section

variable (h : s.Invariant content)

include h

theorem unwound_kept (hstep : Step content s s') (hunwound : s.unwound i = true) :
    s'.unwound i = true ∧ s'.base.loads i = s.base.loads i := by
  obtain ⟨event, hnext⟩ := hstep
  obtain ⟨j, outcome, base, rfl, hlive, hbase, rfl⟩ | ⟨j, rfl, hlive, -, rfl⟩ := next_cases hnext
  · have hij : i ≠ j := by
      rintro rfl
      rw [hlive] at hunwound
      cases hunwound
    exact ⟨hunwound, reading_kept hbase hij (h.reading i hunwound)⟩
  · refine ⟨?_, rfl⟩
    by_cases hij : i = j
    · simp [hij]
    · simpa [hij] using hunwound

theorem Invariant.step (hstep : Step content s s') :
    s'.Invariant content := by
  obtain ⟨event, hnext⟩ := id hstep
  obtain ⟨i, outcome, base, rfl, hlive, hbase, rfl⟩ | ⟨i, rfl, hlive, hreading, rfl⟩ :=
    next_cases hnext
  · refine ⟨h.base.step ⟨i, outcome, hbase⟩, fun j hj => ?_⟩
    rw [(unwound_kept h hstep hj).2]
    exact h.reading j hj
  · refine ⟨h.base, fun j hj => ?_⟩
    by_cases hji : j = i
    · exact hji ▸ hreading
    · apply h.reading j
      simpa [hji] using hj

theorem progress_lt (hstep : Step content s s') :
    s'.progress < s.progress := by
  obtain ⟨event, hnext⟩ := hstep
  rw [progress, progress, Prod.Lex.toLex_lt_toLex]
  obtain ⟨i, outcome, base, rfl, hlive, hbase, rfl⟩ | ⟨i, rfl, hlive, hreading, rfl⟩ :=
    next_cases hnext
  · exact .inr ⟨rfl, WindowLoads.progress_lt h.base ⟨i, outcome, hbase⟩⟩
  · refine .inl (sum_lt_of_one i ?_ fun j hj => ?_)
    · simp [hlive]
    · simp [hj]

/-! ### Where runs end -/

theorem abandoned_loading {t : PanickyLoads n others}
    (hreach : Relation.ReflTransGen (Step content) s t) (hunwound : s.unwound i = true)
    {offset : Nat} (hholds : (s.base.loads i).Holds offset) : t.base.cache.Loading offset := by
  have hkept : t.Invariant content ∧ t.unwound i = true ∧ t.base.loads i = s.base.loads i := by
    induction hreach with
    | refl => exact ⟨h, hunwound, rfl⟩
    | tail _ hlast ih =>
      obtain ⟨hinv, hout, hload⟩ := ih
      obtain ⟨hout', hload'⟩ := unwound_kept hinv hlast hout
      exact ⟨hinv.step hlast, hout', hload'.trans hload⟩
  apply (hkept.1.base.leased.taken_iff offset).mpr
  exact ⟨i, hkept.2.2 ▸ hholds⟩

theorem Complete.phase (hcomplete : s.Complete content) (hlive : s.unwound i = false) :
    (∃ result, (s.base.loads i).phase = .returned result) ∨
      (s.base.loads i).phase = .wait true := by
  by_contra hmoving
  obtain ⟨hreturned, hawake⟩ := not_or.mp hmoving
  obtain ⟨moved, hmoved⟩ := Option.isSome_iff_exists.mp (WindowLoad.step_isSome (h.base.sound i)
    (fun result hphase => hreturned ⟨result, hphase⟩) hawake (.ok fun _ => 0) s.base.cache)
  have hnone := hcomplete (.runs i (.ok fun _ => 0))
  simp [next, hlive, step, hmoved] at hnone

theorem Complete.holder (hcomplete : s.Complete content) {offset : Nat}
    (hloading : s.base.cache.Loading offset) :
    ∃ i, s.unwound i = true ∧ (s.base.loads i).Holds offset := by
  obtain ⟨i, hholds⟩ := (h.base.leased.taken_iff offset).mp hloading
  refine ⟨i, ?_, hholds⟩
  by_contra hunwound
  have hnone : (s.base.loads i).reserved = [] := by
    rcases hcomplete.phase h (by simpa using hunwound) with ⟨result, hphase⟩ | hphase
    · exact ((h.base.sound i).of_returned hphase).1
    · exact ((h.base.sound i).of_wait hphase).2
  rw [WindowLoad.Holds, hnone] at hholds
  cases hholds

theorem Complete.allProceeded_iff (hcomplete : s.Complete content) :
    s.AllProceeded ↔ ∀ i, s.unwound i = true → (s.base.loads i).reserved = [] := by
  constructor
  · intro hproceeded i _
    apply List.eq_nil_iff_forall_not_mem.mpr
    intro window hwindow
    have hloading : s.base.cache.Loading window.offset :=
      (h.base.leased.taken_iff _).mpr ⟨i, List.mem_map_of_mem hwindow⟩
    rw [Loading, shard, hproceeded.1] at hloading
    cases hloading
  · intro hnone
    have hidle : ∀ offset, ¬s.base.cache.Loading offset := by
      intro offset hloading
      obtain ⟨i, hunwound, hholds⟩ := hcomplete.holder h hloading
      rw [WindowLoad.Holds, hnone i hunwound] at hholds
      cases hholds
    constructor
    · intro k
      refine Finset.eq_empty_of_forall_notMem fun offset hoffset => hidle offset ?_
      rw [Loading, shard, h.base.placed k offset hoffset]
      exact hoffset
    · intro i hlive
      rcases hcomplete.phase h hlive with hreturned | hasleep
      · exact hreturned
      · obtain ⟨window, rest, hwaiting⟩ :=
          List.exists_cons_of_ne_nil ((h.base.sound i).of_wait hasleep).1
        exact absurd (h.base.asleep i window ⟨hasleep, by rw [hwaiting]; rfl⟩) (hidle _)

end

/-- Every run comes to an end; all loads have got through there exactly if
none unwound with reservations, and the reservations of one that did are never
released. -/
theorem panic_safety_iff (content : Nat → UInt8) (cache : SharedWindowCache others)
    (hidle : ∀ k, (cache.shards k).loading = ∅)
    (hfaithful : cache.AllShards fun _ shard => shard.Faithful content)
    (requests : Fin n → Request)
    (hdistinct : ∀ i, ((requests i).windows.map ReadWindow.offset).Nodup) :
    (∀ run : ℕ → PanickyLoads n others, run 0 = begin cache requests →
      ¬∀ k, Step content (run k) (run (k + 1))) ∧
    ∀ s, Relation.ReflTransGen (Step content) (begin cache requests) s →
      (s.Complete content →
        (s.AllProceeded ↔ ∀ i, s.unwound i = true → (s.base.loads i).reserved = [])) ∧
      ∀ i, s.unwound i = true → ∀ offset, (s.base.loads i).Holds offset →
        ∀ t, Relation.ReflTransGen (Step content) s t → t.base.cache.Loading offset := by
  have hbegin : (begin cache requests).Invariant content :=
    ⟨begin_invariant hidle hfaithful hdistinct, nofun⟩
  have hstep : ∀ s s' : PanickyLoads n others, s.Invariant content → Step content s s' →
      s'.Invariant content := fun s s' h => h.step
  refine ⟨fun run hrun => ?_, fun s hreach => ?_⟩
  · apply no_infinite_run progress hstep (fun s s' h => progress_lt h)
    rw [hrun]
    exact hbegin
  · have h := invariant_of_reachable hstep hbegin hreach
    exact ⟨fun hcomplete => hcomplete.allProceeded_iff h,
      fun i hunwound offset hholds t ht => abandoned_loading h ht hunwound hholds⟩

theorem rivalSchedule_proceeds : ∃ s,
    (rivalSchedule.map fun i => .runs (Fin.ofNat 2 i) (.ok fun _ => 0)).foldlM
        (next fun _ => 7) (begin (new 4) rivalRequests) = some s ∧
      (∀ i, s.unwound i = false) ∧ ∀ i, (s.base.loads i).phase = .returned (.ok ()) :=
  ⟨_, rfl, fun _ => rfl, Fin.forall_fin_two.mpr ⟨rfl, rfl⟩⟩

theorem panic_safety_iff_rivals :
    (∃ s : PanickyLoads 2 _, Relation.ReflTransGen (Step fun _ => 7)
      (begin (new 4) rivalRequests) s ∧ s.Complete (fun _ => 7) ∧ s.AllProceeded) ∧
    ¬∃ run : ℕ → PanickyLoads 2 _, run 0 = begin (new 4) rivalRequests ∧
      ∀ k, Step (fun _ => 7) (run k) (run (k + 1)) := by
  obtain ⟨hends, hreachable⟩ := panic_safety_iff (fun _ => 7) (new 4)
    (fun _ => rfl) (fun _ _ _ h => by cases h) rivalRequests (by decide)
  refine ⟨?_, not_exists.mpr fun run hrun => hends run hrun.1 hrun.2⟩
  obtain ⟨s, hrun, hlive, hreturned⟩ := rivalSchedule_proceeds
  have hreach : Relation.ReflTransGen (Step fun _ => 7) (begin (new 4) rivalRequests) s :=
    reachable_of_schedule (fun s event s' hnext => ⟨event, hnext⟩) hrun
  have hcomplete : s.Complete fun _ => 7 := by
    intro event
    cases event with
    | runs i outcome => simp [next, hlive, step, WindowLoad.step, hreturned]
    | unwinds i => simp [next, Reading, hreturned]
  refine ⟨s, hreach, hcomplete, ((hreachable s hreach).1 hcomplete).mpr fun i hunwound => ?_⟩
  rw [hlive i] at hunwound
  cases hunwound

/-! ### One read that unwinds -/

/-- Both queries want these windows; the first has reserved them and panics in
its read, then the second looks them up and waits. -/
def panickedRead : List (Event 2) :=
  let first : Fin 2 := ⟨0, Nat.two_pos⟩
  let second : Fin 2 := ⟨1, Nat.one_lt_two⟩
  [.runs first (.ok fun _ => 0), .runs first (.ok fun _ => 0), .unwinds first,
    .runs second (.ok fun _ => 0), .runs second (.ok fun _ => 0), .runs second (.ok fun _ => 0)]

def isAsleep (load : WindowLoad others) : Bool :=
  match load.phase with
  | .wait true => true
  | _ => false

theorem isAsleep_iff {load : WindowLoad others} :
    isAsleep load = true ↔ load.phase = .wait true := by
  rw [isAsleep]
  split
  · rename_i hphase
    simp [hphase]
  · rename_i hphase
    simp only [Bool.false_eq_true, false_iff]
    exact hphase

/-- The second query sleeps, and nobody is left to wake it. -/
theorem panicked_read_strands_waiter :
    ∃ s, Relation.ReflTransGen (Step fun _ => 7)
        (begin (new 4) rivalRequests) s ∧
      s.Complete (fun _ => 7) ∧ s.unwound 0 = true ∧ s.unwound 1 = false ∧
      (s.base.loads 1).phase = .wait true ∧ s.base.cache.Loading 0 ∧ ¬s.AllProceeded := by
  obtain ⟨s, hrun, hend⟩ : ∃ s, panickedRead.foldlM (next fun _ => 7)
      (begin (new 4) rivalRequests) = some s ∧ s.unwound 0 = true ∧ s.unwound 1 = false ∧
        isAsleep (s.base.loads 1) = true ∧ s.base.cache.Loading 0 := by
    refine ⟨_, rfl, ?_, ?_, ?_, ?_⟩
    · decide
    · decide
    · decide
    · decide
  obtain ⟨hout, hlive, hsleeps, hloading⟩ := hend
  have hasleep := isAsleep_iff.mp hsleeps
  refine ⟨s, reachable_of_schedule (fun s event s' hnext => ⟨event, hnext⟩) hrun, fun event => ?_,
    hout, hlive, hasleep, hloading, ?_⟩
  · cases event with
    | runs i outcome =>
      match i with
      | 0 => simp [next, hout]
      | 1 => simp [next, hlive, step, WindowLoad.step, hasleep]
    | unwinds i =>
      match i with
      | 0 => simp [next, hout]
      | 1 => simp [next, Reading, hasleep]
  · intro hproceeded
    obtain ⟨result, hphase⟩ := hproceeded.2 1 hlive
    rw [hasleep] at hphase
    cases hphase

end PanickyLoads

end PaimonVindex
