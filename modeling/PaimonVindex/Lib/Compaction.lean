import Mathlib.Data.List.Basic

/-! Filtering a buffer in place: entries are read from left to right, and those that are
kept are written behind the ones kept before. -/

namespace Compaction

open List

variable {α : Type}

structure Buffer (α : Type) where
  items : List α
  retained : Nat

def Buffer.keep (buffer : Buffer α) (x : α) (kept : Bool) : Buffer α :=
  if kept then ⟨buffer.items.set buffer.retained x, buffer.retained + 1⟩ else buffer

def Buffer.truncated (buffer : Buffer α) : List α := buffer.items.take buffer.retained

/-- The entries before `index` are compacted to `kept`, and `rest` is still to be read. -/
def Compacted (buffer : Buffer α) (index : Nat) (kept rest : List α) : Prop :=
  ∃ gap, buffer.items = kept ++ (gap ++ rest) ∧ buffer.retained = kept.length ∧
    index = kept.length + gap.length

theorem compacted_start (kept rest : List α) :
    Compacted ⟨kept ++ rest, kept.length⟩ kept.length kept rest :=
  ⟨[], rfl, rfl, rfl⟩

variable {buffer : Buffer α} {index : Nat} {kept rest : List α} {x : α}

theorem Compacted.drop_eq (h : Compacted buffer index kept rest) :
    buffer.items.drop index = rest := by
  obtain ⟨gap, hitems, -, rfl⟩ := h
  rw [hitems, ← append_assoc]
  exact drop_left' (length_append ..)

theorem Compacted.truncated_eq (h : Compacted buffer index kept rest) :
    buffer.truncated = kept := by
  obtain ⟨gap, hitems, hretained, -⟩ := h
  rw [Buffer.truncated, hitems, hretained, take_left]

/-- Reading one entry. What it overwrites has been read, or is the entry itself. -/
theorem Compacted.keep (h : Compacted buffer index kept (x :: rest)) (b : Bool) :
    Compacted (buffer.keep x b) (index + 1) (kept ++ if b then [x] else []) rest := by
  obtain ⟨gap, hitems, hretained, rfl⟩ := h
  cases b with
  | false => exact ⟨gap ++ [x], by simp [Buffer.keep, hitems], by simp [Buffer.keep, hretained],
      by simp; omega⟩
  | true =>
    have hset : (buffer.keep x true).items = kept ++ (gap ++ x :: rest).set 0 x := by
      simp [Buffer.keep, hitems, hretained]
    have hlength : (buffer.keep x true).retained = (kept ++ [x]).length := by
      simp [Buffer.keep, hretained]
    cases gap with
    | nil => exact ⟨[], by simp [hset], hlength, by simp⟩
    | cons y gap => exact ⟨gap ++ [x], by simp [hset], hlength, by simp; omega⟩

/-- Entries that were all read before the first of them is written. -/
theorem Compacted.foldl_keep {β : Type} (item : β → α) (test : β → Bool) {entries : List β}
    (h : Compacted buffer index kept (entries.map item ++ rest)) :
    Compacted (entries.foldl (fun buffer entry => buffer.keep (item entry) (test entry)) buffer)
      (index + entries.length) (kept ++ (entries.filter test).map item) rest := by
  induction entries generalizing buffer index kept with
  | nil => simpa using h
  | cons entry entries ih =>
    have hrest := ih (h.keep (test entry))
    rw [append_assoc, Nat.add_assoc, Nat.add_comm 1] at hrest
    cases htest : test entry <;> simpa [htest] using hrest

def keepEach (test : α → Bool) : (count index : Nat) → Buffer α → Buffer α
  | 0, _, buffer => buffer
  | count + 1, index, buffer =>
    match buffer.items.drop index with
    | [] => buffer
    | x :: _ => keepEach test count (index + 1) (buffer.keep x (test x))

theorem Compacted.keepEach (test : α → Bool) (h : Compacted buffer index kept rest) :
    Compacted (Compaction.keepEach test rest.length index buffer) (index + rest.length)
      (kept ++ rest.filter test) [] := by
  induction rest generalizing buffer index kept with
  | nil => simpa [Compaction.keepEach] using h
  | cons x rest ih =>
    have hrest := ih (h.keep (test x))
    rw [length_cons, Compaction.keepEach, h.drop_eq]
    rw [append_assoc, Nat.add_assoc, Nat.add_comm 1] at hrest
    cases htest : test x <;> simpa [htest] using hrest

end Compaction
