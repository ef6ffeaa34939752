import Mathlib.Data.List.Basic

/-! Computations that may fail and keep the state they had reached. -/

/-- A step on `σ` that returns `α` or fails with `ε`; the state survives a
failure. -/
def Effect (ε σ α : Type) : Type := σ → Except ε α × σ

namespace Effect

variable {ε σ α β : Type}

def run (x : Effect ε σ α) (s : σ) : Except ε α × σ := x s

instance : Monad (Effect ε σ) where
  pure a := fun s => (.ok a, s)
  bind x f := fun s =>
    match x s with
    | (.ok a, s') => f a s'
    | (.error e, s') => (.error e, s')

/-- A check that leaves the state alone. -/
def lift (x : Except ε α) : Effect ε σ α := fun s => (x, s)

def get : Effect ε σ σ := fun s => (.ok s, s)

def fail (e : ε) : Effect ε σ α := fun s => (.error e, s)

def modify (f : σ → σ) : Effect ε σ Unit := fun s => (.ok (), f s)

/-- The outcome as a value, for a caller that handles the failure. -/
def attempt (x : Effect ε σ α) : Effect ε σ (Except ε α) := fun s => (.ok (x s).1, (x s).2)

@[simp] theorem run_pure (a : α) (s : σ) : run (pure a : Effect ε σ α) s = (.ok a, s) := rfl

@[simp] theorem run_lift (x : Except ε α) (s : σ) : run (lift x) s = (x, s) := rfl

@[simp] theorem run_get (s : σ) : run (get : Effect ε σ σ) s = (.ok s, s) := rfl

@[simp] theorem run_fail (e : ε) (s : σ) : run (fail e : Effect ε σ α) s = (.error e, s) := rfl

@[simp] theorem run_modify (f : σ → σ) (s : σ) :
    run (modify f : Effect ε σ Unit) s = (.ok (), f s) := rfl

@[simp] theorem run_attempt (x : Effect ε σ α) (s : σ) :
    run (attempt x) s = (.ok (run x s).1, (run x s).2) := rfl

variable {a : α} {S : β → σ → Prop} {x : Effect ε σ α} {f : α → Effect ε σ β} {s' s : σ}

theorem run_bind_ok (h : run x s = (.ok a, s')) : run (x >>= f) s = run (f a) s' := by
  have h' : x s = (.ok a, s') := h
  change (match x s with
    | (.ok a, s') => f a s'
    | (.error e, s') => (.error e, s')) = f a s'
  rw [h']

theorem run_bind_error {e : ε} (h : run x s = (.error e, s')) :
    run (x >>= f) s = (.error e, s') := by
  have h' : x s = (.error e, s') := h
  change (match x s with
    | (.ok a, s') => f a s'
    | (.error e, s') => (.error e, s')) = _
  rw [h']

theorem run_bind_eq_ok {b : β} :
    run (x >>= f) s = (.ok b, s') ↔
      ∃ a s₁, run x s = (.ok a, s₁) ∧ run (f a) s₁ = (.ok b, s') := by
  cases hx : run x s with
  | mk r s₁ =>
    cases r with
    | error e => simp [run_bind_error hx]
    | ok a => simp [run_bind_ok hx]

/-- Whatever the outcome, the step only moves along `R`. -/
def Moves (R : σ → σ → Prop) (x : Effect ε σ α) : Prop := ∀ s, R s (run x s).2

def Yields (P : α → Prop) (x : Effect ε σ α) : Prop := ∀ s a s', run x s = (.ok a, s') → P a

/-- Where a step moves, and what it returns. -/
def Spec (R : σ → σ → Prop) (P : α → Prop) (x : Effect ε σ α) : Prop := x.Moves R ∧ x.Yields P

section Moves

variable {R : σ → σ → Prop} {x : Effect ε σ α} {P : α → Prop} {Q : β → Prop}
  {f : α → Effect ε σ β}

theorem Moves.of_run (h : x.Moves R) {r : Except ε α} (hrun : run x s = (r, s')) : R s s' := by
  have := h s
  rwa [hrun] at this

theorem Moves.mono {R' : σ → σ → Prop} (h : x.Moves R) (hsub : ∀ s s', R s s' → R' s s') :
    x.Moves R' := fun s => hsub _ _ (h s)

theorem Moves.spec (h : x.Moves R) : x.Spec R fun _ => True := ⟨h, fun _ _ _ _ => trivial⟩

theorem Spec.mono {R' : σ → σ → Prop} (h : x.Spec R P) (hsub : ∀ s s', R s s' → R' s s') :
    x.Spec R' P := ⟨h.1.mono hsub, h.2⟩

theorem moves_attempt (h : x.Moves R) : (attempt x).Moves R := h

theorem spec_attempt (h : x.Spec R P) : (attempt x).Spec R fun r => ∀ a, r = .ok a → P a := by
  refine ⟨h.1, fun s r s' hrun a hr => ?_⟩
  rw [run_attempt, Prod.mk.injEq, Except.ok.injEq] at hrun
  exact h.2 s a (run x s).2 (Prod.ext (hrun.1.trans hr) rfl)

variable [IsPreorder σ R]

theorem moves_of_same (h : ∀ s, (run x s).2 = s) : x.Moves R := by
  intro s
  rw [h s]
  exact refl_of R s

theorem moves_pure (a : α) : (pure a : Effect ε σ α).Moves R := moves_of_same fun _ => rfl

theorem moves_lift (x : Except ε α) : (lift x : Effect ε σ α).Moves R := moves_of_same fun _ => rfl

theorem moves_get : (get : Effect ε σ σ).Moves R := moves_of_same fun _ => rfl

theorem moves_fail (e : ε) : (fail e : Effect ε σ α).Moves R := moves_of_same fun _ => rfl

theorem spec_pure (h : P a) : (pure a : Effect ε σ α).Spec R P := by
  refine ⟨moves_pure a, fun s b s' hrun => ?_⟩
  rw [run_pure] at hrun
  cases hrun
  exact h

theorem spec_fail (e : ε) : (fail e : Effect ε σ α).Spec R P := by
  refine ⟨moves_fail e, fun s a s' hrun => ?_⟩
  rw [run_fail] at hrun
  cases hrun

/-- The second step may rely on what the first one returned. -/
theorem spec_bind (hx : x.Spec R P) (hf : ∀ a, P a → (f a).Spec R Q) : (x >>= f).Spec R Q := by
  constructor
  · intro s
    cases hrun : run x s with
    | mk r s₁ =>
      have h1 := hx.1.of_run hrun
      cases r with
      | error e =>
        rw [run_bind_error hrun]
        exact h1
      | ok a =>
        rw [run_bind_ok hrun]
        exact trans_of R h1 ((hf a (hx.2 s a s₁ hrun)).1 s₁)
  · intro s b s' hrun
    obtain ⟨a, s₁, hfirst, hrest⟩ := run_bind_eq_ok.mp hrun
    exact (hf a (hx.2 s a s₁ hfirst)).2 s₁ b s' hrest

theorem moves_bind_spec (hx : x.Spec R P) (hf : ∀ a, P a → (f a).Moves R) : (x >>= f).Moves R :=
  (spec_bind hx fun a ha => (hf a ha).spec).1

theorem moves_bind (hx : x.Moves R) (hf : ∀ a, (f a).Moves R) : (x >>= f).Moves R :=
  moves_bind_spec hx.spec fun a _ => hf a

end Moves

/-- Each element in turn, stopping at the first failure. -/
def forEach (l : List α) (f : α → Effect ε σ Unit) : Effect ε σ Unit :=
  match l with
  | [] => pure ()
  | x :: xs => do
    f x
    forEach xs f

section Loop

variable {R : σ → σ → Prop} [IsPreorder σ R] {l : List α} {f : α → Effect ε σ Unit}

theorem moves_forEach (hf : ∀ x ∈ l, (f x).Moves R) : (forEach l f).Moves R := by
  induction l with
  | nil => exact moves_pure ()
  | cons x xs ih =>
    exact moves_bind (hf x List.mem_cons_self)
      fun _ => ih fun y hy => hf y (List.mem_cons_of_mem _ hy)

/-- A loop that only adds: every element leaves its mark, and marks stay. -/
theorem forEach_marks (mark : α → σ → Prop) (hstay : ∀ x s s', R s s' → mark x s → mark x s')
    (hf : ∀ x ∈ l, (f x).Moves R) (hmark : ∀ x ∈ l, ∀ s s', run (f x) s = (.ok (), s') → mark x s')
    (h : run (forEach l f) s = (.ok (), s')) : ∀ x ∈ l, mark x s' := by
  induction l generalizing s with
  | nil => simp
  | cons x xs ih =>
    have hrest : ∀ y ∈ xs, (f y).Moves R := fun y hy => hf y (List.mem_cons_of_mem _ hy)
    obtain ⟨_, s₁, hx, hxs⟩ := run_bind_eq_ok.mp h
    have hmoves := (moves_forEach hrest).of_run hxs
    intro y hy
    rcases List.mem_cons.mp hy with rfl | hmem
    · exact hstay y _ _ hmoves (hmark y List.mem_cons_self _ _ hx)
    · exact ih hrest (fun z hz => hmark z (List.mem_cons_of_mem _ hz)) hxs y hmem

end Loop

/-- Total correctness: from a state with `P` the step succeeds and reaches `Q`. -/
def Total (P : σ → Prop) (x : Effect ε σ α) (Q : α → σ → Prop) : Prop :=
  ∀ s, P s → ∃ a s', run x s = (.ok a, s') ∧ Q a s'

section Total

variable {P : σ → Prop} {Q : α → σ → Prop}

theorem total_pure (h : ∀ s, P s → Q a s) : (pure a : Effect ε σ α).Total P Q :=
  fun s hs => ⟨a, s, rfl, h s hs⟩

theorem total_modify {f : σ → σ} {Q : Unit → σ → Prop} (h : ∀ s, P s → Q () (f s)) :
    (modify f : Effect ε σ Unit).Total P Q := fun s hs => ⟨(), f s, rfl, h s hs⟩

theorem total_bind (hx : x.Total P Q) (hf : ∀ a, (f a).Total (Q a) S) : (x >>= f).Total P S := by
  intro s hs
  obtain ⟨a, s₁, hrun, hq⟩ := hx s hs
  rw [run_bind_ok hrun]
  exact hf a s₁ hq

theorem Total.imp {Q' : α → σ → Prop} (h : x.Total P Q) (hsub : ∀ a s, Q a s → Q' a s) :
    x.Total P Q' := by
  intro s hs
  obtain ⟨a, s', hrun, hq⟩ := h s hs
  exact ⟨a, s', hrun, hsub a s' hq⟩

/-- A step whose value is known. -/
theorem total_bind_eq {P' : σ → Prop} (hx : x.Total P fun r s => r = a ∧ P' s)
    (hf : (f a).Total P' S) : (x >>= f).Total P S := by
  refine total_bind hx fun r => ?_
  rintro s ⟨rfl, hs⟩
  exact hf s hs

theorem total_lift {x : Except ε α} (h : x = .ok a) :
    (lift x : Effect ε σ α).Total P fun r s => r = a ∧ P s := by
  intro s hs
  exact ⟨a, s, by rw [run_lift, h], rfl, hs⟩

theorem total_forEach {l : List α} {f : α → Effect ε σ Unit}
    (hf : ∀ x ∈ l, (f x).Total P fun _ => P) : (forEach l f).Total P fun _ => P := by
  induction l with
  | nil => exact total_pure fun _ => id
  | cons x xs ih =>
    exact total_bind (hf x List.mem_cons_self)
      fun _ => ih fun y hy => hf y (List.mem_cons_of_mem _ hy)

end Total

/-- From a state with `P` a success reaches `Q` and a failure leaves `E`. -/
def Ensures (P : σ → Prop) (x : Effect ε σ α) (Q : α → σ → Prop) (E : σ → Prop) : Prop :=
  ∀ s, P s → (∀ a s', run x s = (.ok a, s') → Q a s') ∧ ∀ e s', run x s = (.error e, s') → E s'

section Ensures

variable {P : σ → Prop} {Q : α → σ → Prop} {E : σ → Prop}

theorem Ensures.state (h : x.Ensures P (fun _ => E) E) (hs : P s) : E (run x s).2 := by
  cases hrun : run x s with
  | mk r s' =>
    cases r with
    | ok a => exact (h s hs).1 a s' hrun
    | error e => exact (h s hs).2 e s' hrun

theorem Ensures.imp {Q' : α → σ → Prop} (h : x.Ensures P Q E) (hsub : ∀ a s, Q a s → Q' a s) :
    x.Ensures P Q' E :=
  fun s hs => ⟨fun a s' hrun => hsub a s' ((h s hs).1 a s' hrun), (h s hs).2⟩

theorem ensures_pure (h : ∀ s, P s → Q a s) : (pure a : Effect ε σ α).Ensures P Q E := by
  intro s hs
  constructor
  · rintro _ _ ⟨⟩
    exact h s hs
  · rintro _ _ ⟨⟩

theorem ensures_modify {f : σ → σ} {Q : Unit → σ → Prop} (h : ∀ s, P s → Q () (f s)) :
    (modify f : Effect ε σ Unit).Ensures P Q E := by
  intro s hs
  constructor
  · rintro _ _ ⟨⟩
    exact h s hs
  · rintro _ _ ⟨⟩

theorem ensures_bind (hx : x.Ensures P Q E) (hf : ∀ a, (f a).Ensures (Q a) S E) :
    (x >>= f).Ensures P S E := by
  intro s hs
  cases hrun : run x s with
  | mk r s₁ =>
    cases r with
    | error e =>
      rw [run_bind_error hrun]
      constructor
      · rintro _ _ ⟨⟩
      · rintro _ _ ⟨⟩
        exact (hx s hs).2 e s₁ hrun
    | ok a =>
      rw [run_bind_ok hrun]
      exact hf a s₁ ((hx s hs).1 a s₁ hrun)

/-- A check may be used afterwards; if it fails, the state is the one before. -/
theorem ensures_bind_lift {x : Except ε α} (herror : ∀ s, P s → E s)
    (hf : ∀ a, x = .ok a → (f a).Ensures P S E) : (lift x >>= f).Ensures P S E := by
  cases x with
  | error e =>
    intro s hs
    constructor
    · rintro _ _ ⟨⟩
    · rintro _ _ ⟨⟩
      exact herror s hs
  | ok a => exact hf a rfl

/-- A step whose outcome is known. -/
theorem ensures_bind_of_run (h : run x s = (.ok a, s')) (hf : (f a).Ensures (· = s') S E) :
    (x >>= f).Ensures (· = s) S E := by
  rintro _ rfl
  rw [run_bind_ok h]
  exact hf s' rfl

theorem Moves.ensures {R : σ → σ → Prop} [IsPreorder σ R] (h : x.Moves R) {s₀ : σ}
    (hfail : ∀ s, R s₀ s → E s) : x.Ensures (R s₀) (fun _ => R s₀) E :=
  fun _ hs => ⟨fun _ _ hrun => trans_of R hs (h.of_run hrun),
    fun _ s' hrun => hfail s' (trans_of R hs (h.of_run hrun))⟩

theorem ensures_bind_get {f : σ → Effect ε σ β} (hf : ∀ s, P s → (f s).Ensures (· = s) S E) :
    (get >>= f).Ensures P S E :=
  fun s hs => hf s hs s rfl

end Ensures

end Effect
