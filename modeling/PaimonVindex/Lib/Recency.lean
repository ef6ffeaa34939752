import Mathlib.Algebra.Ring.Nat
import Mathlib.Data.List.Dedup
import Mathlib.Order.Basic

/-! Recency order without repetitions, oldest first. Touching moves a key to the
end; trimming drops keys from the front until the rest weighs no more than a
limit. -/

namespace Recency

open List

variable {α : Type*}

def weight (w : α → Nat) (l : List α) : Nat := (l.map w).sum

@[simp] theorem weight_nil (w : α → Nat) : weight w ([] : List α) = 0 := rfl

@[simp] theorem weight_cons (w : α → Nat) (x : α) (l : List α) :
    weight w (x :: l) = w x + weight w l := by
  simp [weight]

@[simp] theorem weight_append (w : α → Nat) (l l' : List α) :
    weight w (l ++ l') = weight w l + weight w l' := by
  simp [weight]

variable {l : List α} {w : α → Nat}

theorem weight_congr {w' : α → Nat} (h : ∀ x ∈ l, w x = w' x) : weight w l = weight w' l := by
  rw [weight, map_congr_left h, weight]

def trim (w : α → Nat) (limit : Nat) : List α → List α
  | [] => []
  | x :: xs => if weight w (x :: xs) > limit then trim w limit xs else x :: xs

theorem trim_congr {w' : α → Nat} {limit : Nat} (h : ∀ x ∈ l, w x = w' x) :
    trim w limit l = trim w' limit l := by
  induction l with
  | nil => rfl
  | cons x xs ih =>
    rw [trim, trim, weight_congr h, ih fun y hy => h y (mem_cons_of_mem _ hy)]

theorem trim_suffix (w : α → Nat) (limit : Nat) (l : List α) : trim w limit l <:+ l := by
  induction l with
  | nil => exact suffix_refl _
  | cons x xs ih =>
    simp only [trim]
    split
    · exact ih.trans (suffix_cons x xs)
    · exact suffix_refl _

theorem weight_le_of_suffix {l' : List α} (h : l <:+ l') : weight w l ≤ weight w l' := by
  obtain ⟨front, rfl⟩ := h
  rw [weight_append]
  exact Nat.le_add_left _ _

variable [DecidableEq α]

def touch (l : List α) (x : α) : List α := l.filter (· ≠ x) ++ [x]

theorem weight_filter_ne (hnd : l.Nodup) (x : α) :
    weight w (l.filter (· ≠ x)) + (if x ∈ l then w x else 0) = weight w l := by
  induction l with
  | nil => simp
  | cons y l ih =>
    obtain ⟨hy, hl⟩ := nodup_cons.mp hnd
    have := ih hl
    by_cases hxy : y = x
    · subst hxy
      rw [if_neg hy] at this
      rw [filter_cons_of_neg (by simp), if_pos mem_cons_self, weight_cons]
      omega
    · have hmem : x ∈ y :: l ↔ x ∈ l := by simp [Ne.symm hxy]
      rw [filter_cons_of_pos (by simpa using hxy), weight_cons, weight_cons,
        if_congr hmem rfl rfl]
      omega

variable {x : α}

@[simp] theorem mem_touch {y : α} : y ∈ touch l x ↔ y ∈ l ∨ y = x := by
  rw [touch, mem_append, mem_filter, mem_singleton]
  by_cases h : y = x <;> simp [h]

theorem weight_touch (hnd : l.Nodup) (hx : x ∈ l) : weight w (touch l x) = weight w l := by
  have h := weight_filter_ne (w := w) hnd x
  rw [if_pos hx] at h
  rw [touch, weight_append, weight_cons, weight_nil]
  omega

section Held

variable {β : Type*}

/-- What a key weighs in a map of weighted values, zero where it has none. -/
def held (w : β → Nat) (entries : α → Option β) (x : α) : Nat := (entries x).elim 0 w

omit [DecidableEq α] in
theorem held_of_some {w : β → Nat} {entries : α → Option β} {b : β} (h : entries x = some b) :
    held w entries x = w b := by
  rw [held, h, Option.elim_some]

omit [DecidableEq α] in
theorem held_of_none {w : β → Nat} {entries : α → Option β} (h : entries x = none) :
    held w entries x = 0 := by
  rw [held, h, Option.elim_none]

theorem held_update_of_ne (w : β → Nat) (entries : α → Option β) {y : α} (b : Option β)
    (h : y ≠ x) : held w (Function.update entries x b) y = held w entries y := by
  simp [held, h]

theorem weight_held_update (w : β → Nat) (entries : α → Option β) (x : α) (b : Option β)
    (l : List α) :
    weight (held w (Function.update entries x b)) (l.filter (· ≠ x)) =
      weight (held w entries) (l.filter (· ≠ x)) := by
  apply weight_congr
  intro y hy
  have hne : y ≠ x := by simpa using of_mem_filter hy
  exact held_update_of_ne w entries b hne

variable {w : β → Nat} {entries : α → Option β} {l : List α}

/-- Keys without a value weigh nothing, so the keys may be fewer than the list. -/
theorem weight_held_remove (hnd : l.Nodup) (hkeys : ∀ y, (entries y).isSome → y ∈ l) (x : α)
    (b : Option β) :
    weight (held w (Function.update entries x b)) (l.filter (· ≠ x)) + held w entries x =
      weight (held w entries) l := by
  rw [weight_held_update]
  have h := weight_filter_ne (w := held w entries) hnd x
  by_cases hx : x ∈ l
  · rwa [if_pos hx] at h
  · have hnone : entries x = none := by
      by_contra hsome
      exact hx (hkeys x (Option.isSome_iff_ne_none.mpr hsome))
    rw [if_neg hx] at h
    rw [held_of_none hnone]
    exact h

theorem weight_held_insert (hnd : l.Nodup) (hkeys : ∀ y, (entries y).isSome → y ∈ l) (x : α)
    (b : β) :
    weight (held w (Function.update entries x (some b))) (touch l x) + held w entries x =
      weight (held w entries) l + w b := by
  have h := weight_held_remove (w := w) hnd hkeys x (some b)
  have hself : held w (Function.update entries x (some b)) x = w b :=
    held_of_some (Function.update_self x (some b) entries)
  rw [touch, weight_append, weight_cons, weight_nil, hself]
  omega

end Held

/-- After a series of touches the touched keys come last, in the order of their
last mention. -/
theorem foldl_touch (l xs : List α) :
    xs.foldl touch l = l.filter (· ∉ xs) ++ xs.dedup := by
  induction xs generalizing l with
  | nil => simp
  | cons x xs ih =>
    have hfilter : l.filter (fun y => decide (y ∉ xs) && decide (y ≠ x)) =
        l.filter (· ∉ x :: xs) := by
      apply filter_congr
      intro y _
      by_cases hyx : y = x <;> simp [hyx]
    rw [foldl_cons, ih, touch, filter_append, filter_filter, hfilter]
    by_cases hx : x ∈ xs
    · rw [dedup_cons_of_mem hx]
      simp [hx]
    · rw [dedup_cons_of_notMem hx]
      simp [hx]

/-- What stands from the first occurrence of `x` on. -/
def since (l : List α) (x : α) : List α := l.dropWhile (· ≠ x)

theorem since_suffix (l : List α) (x : α) : since l x <:+ l := dropWhile_suffix _

theorem since_append {l' : List α} (h : x ∉ l) : since (l ++ l') x = since l' x := by
  induction l with
  | nil => rfl
  | cons y l ih =>
    have hyx : y ≠ x := fun heq => h (by simp [heq])
    have hl := ih fun hmem => h (by simp [hmem])
    simpa [since, dropWhile_cons, hyx] using hl

/-- A key survives trimming exactly if it and all newer keys fit the limit. -/
theorem mem_trim {limit : Nat} (hnd : l.Nodup) (hx : x ∈ l) :
    x ∈ trim w limit l ↔ weight w (since l x) ≤ limit := by
  induction l with
  | nil => simp at hx
  | cons y l ih =>
    obtain ⟨hy, hl⟩ := nodup_cons.mp hnd
    simp only [trim]
    by_cases hheavy : weight w (y :: l) > limit
    · rw [if_pos hheavy]
      by_cases hyx : y = x
      · subst hyx
        have hself : since (y :: l) y = y :: l := by simp [since]
        rw [hself]
        constructor
        · intro hmem
          exact absurd ((trim_suffix w limit l).subset hmem) hy
        · intro hle
          omega
      · have hxl : x ∈ l := by
          rcases mem_cons.mp hx with heq | hmem
          · exact absurd heq.symm hyx
          · exact hmem
        have hskip : since (y :: l) x = since l x := by simp [since, hyx]
        rw [ih hl hxl, hskip]
    · rw [if_neg hheavy]
      have hle := weight_le_of_suffix (w := w) (since_suffix (y :: l) x)
      exact ⟨fun _ => by omega, fun _ => hx⟩

end Recency
