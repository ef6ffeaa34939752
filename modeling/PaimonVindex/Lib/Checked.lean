import Mathlib.Algebra.Ring.Nat
import Mathlib.Data.List.Forall2

/-! Checked steps of a fallible program: early returns, overflow-checked
machine arithmetic and bounds-checked slices, each with its acceptance. -/

namespace Checked

open List

variable {ε α β : Type}
variable {x : Except ε α} {f : α → Except ε β}

theorem bind_eq_ok {b : β} :
    (x >>= f) = .ok b ↔ ∃ a, x = .ok a ∧ f a = .ok b := by
  cases x with
  | error e => simp [bind, Except.bind]
  | ok a => simp [bind, Except.bind]

@[simp] theorem ok_bind (a : α) (f : α → Except ε β) : ((Except.ok a : Except ε α) >>= f) = f a :=
  rfl

@[simp] theorem error_bind (e : ε) (f : α → Except ε β) :
    ((Except.error e : Except ε α) >>= f) = .error e := rfl

@[simp] theorem pure_eq_ok (a : α) : (pure a : Except ε α) = .ok a := rfl

theorem pure_ok_iff {a a' : α} : (pure a : Except ε α) = .ok a' ↔ a = a' := by
  rw [pure_eq_ok, Except.ok.injEq]

theorem exists_ok_of_isOk (h : x.isOk = true) : ∃ a, x = .ok a := by
  cases x with
  | error e => cases h
  | ok a => exact ⟨a, rfl⟩

/-- An early return with `e` when `c` holds. -/
def rejectIf (c : Prop) [Decidable c] (e : ε) : Except ε Unit :=
  if c then .error e else .ok ()

variable {c : Prop} {e : ε} {a b : Nat}

theorem rejectIf_eq_ok [Decidable c] {u : Unit} : rejectIf c e = .ok u ↔ ¬c := by
  unfold rejectIf
  split <;> simp [*]

theorem rejectIf_of_not [Decidable c] (h : ¬c) : rejectIf c e = .ok () :=
  rejectIf_eq_ok.mpr h

theorem rejectIf_ne_self {α : Type} (a : α) [Decidable (a ≠ a)] (e : ε) :
    rejectIf (a ≠ a) e = .ok () :=
  rejectIf_of_not (not_not.mpr rfl)

theorem rejectIf_bind [Decidable c] {f : Unit → Except ε β} (h : ¬c) :
    (rejectIf c e >>= f) = f () := by
  rw [rejectIf_of_not h, ok_bind]

theorem rejectIf_of [Decidable c] (h : c) : rejectIf c e = .error e := by
  simp [rejectIf, h]

def okOr (o : Option α) (e : ε) : Except ε α :=
  match o with
  | some a => .ok a
  | none => .error e

@[simp] theorem okOr_some (a : α) (e : ε) : okOr (some a) e = .ok a := rfl

theorem okOr_eq_ok {o : Option α} {a : α} : okOr o e = .ok a ↔ o = some a := by
  cases o <;> simp [okOr]

theorem mapError_eq_ok {δ : Type} {f : ε → δ} {a : α} :
    x.mapError f = .ok a ↔ x = .ok a := by
  cases x with
  | error e => simp [Except.mapError]
  | ok b => simp [Except.mapError]

/-- Every error of `x` satisfies `P`. -/
def Fails (P : ε → Prop) (x : Except ε α) : Prop := ∀ e, x = .error e → P e

section Fails

variable {P : ε → Prop}

theorem fails_ok (a : α) : Fails P (.ok a : Except ε α) := fun _ h => nomatch h

theorem fails_error (h : P e) : Fails P (.error e : Except ε α) := by
  rintro _ ⟨⟩
  exact h

theorem fails_bind {x : Except ε α} {f : α → Except ε β} (hx : Fails P x)
    (hf : ∀ a, x = .ok a → Fails P (f a)) : Fails P (x >>= f) := by
  cases x with
  | error e => exact fails_error (hx e rfl)
  | ok a => exact hf a rfl

theorem fails_rejectIf [Decidable c] (h : P e) : Fails P (rejectIf c e) := by
  by_cases hc : c
  · rw [rejectIf_of hc]
    exact fails_error h
  · rw [rejectIf_of_not hc]
    exact fails_ok ()

theorem fails_okOr {o : Option α} (h : P e) : Fails P (okOr o e) := by
  cases o with
  | none => exact fails_error h
  | some a => exact fails_ok a

end Fails

/-- Every result of `x` satisfies `P`. -/
def Returns (P : α → Prop) (x : Except ε α) : Prop := ∀ a, x = .ok a → P a

theorem returns_ok {P : α → Prop} {a : α} (h : P a) : Returns P (.ok a : Except ε α) := by
  rintro _ ⟨⟩
  exact h

theorem returns_bind {P : β → Prop} (h : ∀ a, Returns P (f a)) : Returns P (x >>= f) := by
  intro b hb
  obtain ⟨a, -, hf⟩ := bind_eq_ok.mp hb
  exact h a b hf

variable {l : List α}

theorem mapM_eq_ok {ys : List β} :
    l.mapM f = .ok ys ↔ List.Forall₂ (fun x y => f x = .ok y) l ys := by
  induction l generalizing ys with
  | nil => simp [eq_comm]
  | cons x xs ih =>
    simp only [mapM_cons, bind_eq_ok, pure_eq_ok, Except.ok.injEq, forall₂_cons_left_iff]
    constructor
    · rintro ⟨y, hy, zs, hzs, rfl⟩
      exact ⟨y, zs, hy, ih.mp hzs, rfl⟩
    · rintro ⟨y, zs, hy, hzs, rfl⟩
      exact ⟨y, hy, zs, ih.mpr hzs, rfl⟩

theorem of_mapM_range {f : Nat → Except ε β} {n : Nat} {ys : List β}
    (h : (List.range n).mapM f = .ok ys) {i : Nat} (hi : i < n) :
    ∃ y, f i = .ok y ∧ ys[i]? = some y := by
  obtain ⟨hlen, hget⟩ := forall₂_iff_get.mp (mapM_eq_ok.mp h)
  rw [length_range] at hlen
  have hy : i < ys.length := by omega
  have hok := hget i (by simpa using hi) hy
  rw [get_eq_getElem, getElem_range] at hok
  exact ⟨_, hok, List.getElem?_eq_getElem hy⟩

theorem mapM_eq_ok_map {g : α → β} (h : ∀ x ∈ l, f x = .ok (g x)) : l.mapM f = .ok (l.map g) :=
  mapM_eq_ok.mpr (forall₂_map_right_iff.mpr (forall₂_same.mpr h))

theorem bind_congr_ok {g : α → Except ε β} (h : ∀ a, x = .ok a → f a = g a) :
    (x >>= f) = (x >>= g) := by
  cases x with
  | error e => rfl
  | ok a => exact h a rfl

theorem mapM_congr {g : α → Except ε β} (h : ∀ x ∈ l, f x = g x) :
    l.mapM f = l.mapM g := by
  induction l with
  | nil => rfl
  | cons x l ih =>
    rw [mapM_cons, mapM_cons, h x mem_cons_self,
      ih fun y hy => h y (mem_cons_of_mem _ hy)]

/-- A run succeeds and keeps what every step keeps. -/
theorem exists_foldlM_ok {P : β → Prop} {f : β → α → Except ε β}
    (h : ∀ x ∈ l, ∀ s, P s → ∃ s', f s x = .ok s' ∧ P s') {s : β} (hs : P s) :
    ∃ s', l.foldlM f s = .ok s' ∧ P s' := by
  induction l generalizing s with
  | nil => exact ⟨s, rfl, hs⟩
  | cons x l ih =>
    obtain ⟨s₁, hok, hs₁⟩ := h x mem_cons_self s hs
    obtain ⟨s', hrest, hs'⟩ := ih (fun y hy => h y (mem_cons_of_mem _ hy)) hs₁
    refine ⟨s', ?_, hs'⟩
    rw [foldlM_cons, hok, ok_bind, hrest]

theorem exists_ok_of_any {p : α → Bool} (h : x.toOption.any p = true) :
    ∃ a, x = .ok a ∧ p a = true := by
  cases x with
  | error e => cases h
  | ok a => exact ⟨a, rfl, h⟩

theorem exists_mapM_ok (h : ∀ x ∈ l, ∃ y, f x = .ok y) :
    ∃ ys, l.mapM f = .ok ys := by
  induction l with
  | nil => exact ⟨[], rfl⟩
  | cons x xs ih =>
    obtain ⟨y, hy⟩ := h x mem_cons_self
    obtain ⟨ys, hys⟩ := ih fun x' hx' => h x' (mem_cons_of_mem _ hx')
    exact ⟨y :: ys, mapM_eq_ok.mpr (.cons hy (mapM_eq_ok.mp hys))⟩

/-- The values of an unsigned 64-bit word, which is also the pointer width. -/
def wordSize : Nat := 2 ^ 64

def fitsIn (bound n : Nat) : Option Nat := if n < bound then some n else none

theorem fitsIn_eq_some {bound n m : Nat} : fitsIn bound n = some m ↔ n = m ∧ n < bound := by
  unfold fitsIn
  split <;> simp [*]

theorem fitsIn_of_lt {bound n : Nat} (h : n < bound) : fitsIn bound n = some n := by
  simp [fitsIn, h]

def checkedAdd (a b : Nat) : Option Nat := fitsIn wordSize (a + b)

def checkedMul (a b : Nat) : Option Nat := fitsIn wordSize (a * b)

def checkedSub (a b : Nat) : Option Nat := if b ≤ a then some (a - b) else none

theorem checkedAdd_eq_some {c : Nat} :
    checkedAdd a b = some c ↔ a + b = c ∧ a + b < wordSize := fitsIn_eq_some

theorem checkedMul_eq_some {c : Nat} :
    checkedMul a b = some c ↔ a * b = c ∧ a * b < wordSize := fitsIn_eq_some

/-- What an accepted run has been through, as one set of rewriting rules. -/
theorem accepted :
    (∀ {ε α β : Type} {x : Except ε α} {f : α → Except ε β} {b : β},
      (x >>= f) = .ok b ↔ ∃ a, x = .ok a ∧ f a = .ok b) ∧
    (∀ {ε α : Type} {a a' : α}, (pure a : Except ε α) = .ok a' ↔ a = a') ∧
    (∀ {ε : Type} {c : Prop} [Decidable c] {e : ε} {u : Unit}, rejectIf c e = .ok u ↔ ¬c) ∧
    (∀ {α : Type} [Nonempty α] {p : Prop}, (∃ _ : α, p) ↔ p) ∧
    (∀ {ε α : Type} {o : Option α} {e : ε} {a : α}, okOr o e = .ok a ↔ o = some a) ∧
    (∀ {a b c : Nat}, checkedAdd a b = some c ↔ a + b = c ∧ a + b < wordSize) ∧
    ∀ {a b c : Nat}, checkedMul a b = some c ↔ a * b = c ∧ a * b < wordSize :=
  ⟨bind_eq_ok, pure_ok_iff, rejectIf_eq_ok, exists_const _, okOr_eq_ok, checkedAdd_eq_some,
    checkedMul_eq_some⟩

theorem checkedSub_eq_some {c : Nat} : checkedSub a b = some c ↔ b ≤ a ∧ a - b = c := by
  unfold checkedSub
  split <;> simp [*]

theorem checkedAdd_of_lt (h : a + b < wordSize) : checkedAdd a b = some (a + b) :=
  fitsIn_of_lt h

theorem checkedMul_of_lt (h : a * b < wordSize) : checkedMul a b = some (a * b) :=
  fitsIn_of_lt h

theorem checkedAdd_bind {f : Nat → Except ε β} (h : a + b < wordSize) :
    (okOr (checkedAdd a b) e >>= f) = f (a + b) := by
  rw [checkedAdd_of_lt h, okOr_some, ok_bind]

theorem checkedMul_bind {f : Nat → Except ε β} (h : a * b < wordSize) :
    (okOr (checkedMul a b) e >>= f) = f (a * b) := by
  rw [checkedMul_of_lt h, okOr_some, ok_bind]

theorem checkedSub_of_le (h : b ≤ a) : checkedSub a b = some (a - b) := by
  simp [checkedSub, h]

/-- The parts added up from the left, stopping at the first overflow. -/
def checkedSum (parts : List Nat) (e : ε) : Except ε Nat :=
  parts.foldlM (fun total part => okOr (checkedAdd total part) e) 0

theorem checkedSum_eq_ok {parts : List Nat} {total : Nat} :
    checkedSum parts e = .ok total ↔ parts.sum = total ∧ parts.sum < wordSize := by
  have hfold : ∀ start, start < wordSize →
      (parts.foldlM (fun total part => okOr (checkedAdd total part) e) start = .ok total ↔
        start + parts.sum = total ∧ start + parts.sum < wordSize) := by
    induction parts with
    | nil =>
      intro start hstart
      simp [hstart]
    | cons part parts ih =>
      intro start hstart
      simp only [foldlM_cons, bind_eq_ok, okOr_eq_ok, checkedAdd_eq_some, sum_cons]
      constructor
      · rintro ⟨_, ⟨rfl, hlt⟩, h⟩
        have := (ih _ hlt).mp h
        omega
      · intro h
        have hlt : start + part < wordSize := by omega
        exact ⟨start + part, ⟨rfl, hlt⟩, (ih _ hlt).mpr (by omega)⟩
  simpa [checkedSum] using hfold 0 (by decide)

/-- The elements from `a` up to `b`, when the range lies inside the list. -/
def getRange (l : List α) (a b : Nat) : Option (List α) :=
  if a ≤ b ∧ b ≤ l.length then some ((l.drop a).take (b - a)) else none

theorem getRange_eq_some {s : List α} :
    getRange l a b = some s ↔ (a ≤ b ∧ b ≤ l.length) ∧ (l.drop a).take (b - a) = s := by
  unfold getRange
  split <;> simp [*]

theorem getRange_of_le (hab : a ≤ b) (hb : b ≤ l.length) :
    getRange l a b = some ((l.drop a).take (b - a)) := by
  simp [getRange, hab, hb]

end Checked
