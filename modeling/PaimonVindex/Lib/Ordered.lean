import Mathlib.Data.List.Dedup
import Mathlib.Data.List.Perm.Basic

/-! Collections kept in the order of a key, one element a key: what iterating a
sorted set or a sorted map visits. -/

namespace Ordered

open List

variable {α : Type}

/-- Inserts by key; an element already stored under the key is replaced. -/
def insert (key : α → Nat) (x : α) : List α → List α
  | [] => [x]
  | y :: ys =>
    if key x < key y then x :: y :: ys
    else if key x = key y then x :: ys
    else y :: insert key x ys

def collect (key : α → Nat) (xs : List α) : List α := xs.foldl (fun l x => insert key x l) []

variable {key : α → Nat} {l : List α}

theorem mem_of_mem_insert {x y : α} (h : y ∈ insert key x l) : y = x ∨ y ∈ l := by
  induction l with
  | nil => exact .inl (by simpa [insert] using h)
  | cons z zs ih =>
    rw [insert] at h
    split at h
    · exact mem_cons.mp h
    · split at h
      · rcases mem_cons.mp h with rfl | hmem
        · exact .inl rfl
        · exact .inr (mem_cons_of_mem _ hmem)
      · rcases mem_cons.mp h with rfl | hmem
        · exact .inr mem_cons_self
        · exact (ih hmem).imp_right (mem_cons_of_mem _)

theorem mem_insert_self (x : α) (l : List α) : x ∈ insert key x l := by
  induction l with
  | nil => simp [insert]
  | cons z zs ih =>
    rw [insert]
    split
    · exact mem_cons_self
    · split
      · exact mem_cons_self
      · exact mem_cons_of_mem _ ih

theorem mem_insert_of_mem {x y : α} (h : y ∈ l) (hne : key y ≠ key x) : y ∈ insert key x l := by
  induction l with
  | nil => simp at h
  | cons z zs ih =>
    rw [insert]
    split
    · exact mem_cons_of_mem _ h
    · split
      · rename_i heq
        rcases mem_cons.mp h with rfl | hmem
        · exact absurd heq.symm hne
        · exact mem_cons_of_mem _ hmem
      · rcases mem_cons.mp h with rfl | hmem
        · exact mem_cons_self
        · exact mem_cons_of_mem _ (ih hmem)

theorem insert_pairwise {x : α} (h : l.Pairwise (key · < key ·)) :
    (insert key x l).Pairwise (key · < key ·) := by
  induction l with
  | nil => simp [insert]
  | cons z zs ih =>
    obtain ⟨hz, hzs⟩ := pairwise_cons.mp h
    rw [insert]
    split
    · rename_i hlt
      refine pairwise_cons.mpr ⟨?_, h⟩
      intro y hy
      rcases mem_cons.mp hy with rfl | hmem
      · exact hlt
      · exact Nat.lt_trans hlt (hz y hmem)
    · split
      · rename_i heq
        exact pairwise_cons.mpr ⟨fun y hy => heq ▸ hz y hy, hzs⟩
      · refine pairwise_cons.mpr ⟨?_, ih hzs⟩
        intro y hy
        rcases mem_of_mem_insert hy with rfl | hmem
        · omega
        · exact hz y hmem

theorem foldl_insert_pairwise (h : l.Pairwise (key · < key ·)) (xs : List α) :
    (xs.foldl (fun l x => insert key x l) l).Pairwise (key · < key ·) := by
  induction xs generalizing l with
  | nil => exact h
  | cons x xs ih => exact ih (insert_pairwise h)

theorem collect_pairwise (xs : List α) : (collect key xs).Pairwise (key · < key ·) :=
  foldl_insert_pairwise List.Pairwise.nil xs

theorem collect_nodup (xs : List α) : (collect key xs).Nodup :=
  (collect_pairwise xs).imp fun hlt heq => by simp [heq] at hlt

theorem mem_insert_iff {x y : α} (h : ∀ a ∈ l, key a = key x → a = x) :
    y ∈ insert key x l ↔ y = x ∨ y ∈ l := by
  constructor
  · exact mem_of_mem_insert
  · rintro (rfl | hmem)
    · exact mem_insert_self y l
    · by_cases hk : key y = key x
      · rw [h y hmem hk]
        exact mem_insert_self x l
      · exact mem_insert_of_mem hmem hk

/-- With one element a key nothing is ever replaced. -/
theorem mem_foldl_insert {P : α → Prop} (hkey : ∀ a b, P a → P b → key a = key b → a = b)
    {xs : List α} (hl : ∀ a ∈ l, P a) (hxs : ∀ a ∈ xs, P a) {y : α} :
    y ∈ xs.foldl (fun l x => insert key x l) l ↔ y ∈ l ∨ y ∈ xs := by
  induction xs generalizing l with
  | nil => simp
  | cons x xs ih =>
    obtain ⟨hx, hrest⟩ := forall_mem_cons.mp hxs
    have hins : ∀ a ∈ insert key x l, P a := by
      intro a ha
      rcases mem_of_mem_insert ha with rfl | hmem
      · exact hx
      · exact hl a hmem
    have hmem : y ∈ insert key x l ↔ y = x ∨ y ∈ l :=
      mem_insert_iff fun a ha hk => hkey a x (hl a ha) hx hk
    rw [foldl_cons, ih hins hrest, hmem, mem_cons, or_comm (a := y = x), or_assoc]

theorem mem_collect {xs : List α} (hkey : ∀ a ∈ xs, ∀ b ∈ xs, key a = key b → a = b) {y : α} :
    y ∈ collect key xs ↔ y ∈ xs := by
  have h := mem_foldl_insert (P := (· ∈ xs)) (fun a b ha hb => hkey a ha b hb)
    (l := []) (by simp) (fun _ => id) (y := y)
  rw [collect, h]
  simp

end Ordered
