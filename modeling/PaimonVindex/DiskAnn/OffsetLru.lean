import Mathlib.Data.List.Induction
import PaimonVindex.Io
import PaimonVindex.Lib.Recency

/-! The recency list of window offsets, doubly linked through a map, and the
order it stands for. -/

namespace PaimonVindex

open Checked Recency List

structure OffsetLruLink where
  older : Option Nat
  newer : Option Nat
  deriving DecidableEq, Repr

structure OffsetLruLinks where
  links : Nat → Option OffsetLruLink
  oldest : Option Nat
  newest : Option Nat

variable {x : Nat}

namespace OffsetLruLinks

def empty : OffsetLruLinks := ⟨fun _ => none, none, none⟩

section

variable (lru : OffsetLruLinks)

def updateLink (offset : Nat) (change : OffsetLruLink → OffsetLruLink) (missing : String) :
    IoResult OffsetLruLinks := do
  let link ← okOr (lru.links offset) (panicked missing)
  return { lru with links := Function.update lru.links offset (some (change link)) }

def relinkOlder (older newer : Option Nat) : IoResult OffsetLruLinks :=
  match older with
  | some older =>
    lru.updateLink older (fun link => { link with newer := newer })
      "DiskANN LRU older offset must exist"
  | none => .ok { lru with oldest := newer }

def relinkNewer (older newer : Option Nat) : IoResult OffsetLruLinks :=
  match newer with
  | some newer =>
    lru.updateLink newer (fun link => { link with older := older })
      "DiskANN LRU newer offset must exist"
  | none => .ok { lru with newest := older }

def detach (offset : Nat) : IoResult OffsetLruLinks := do
  let link ← okOr (lru.links offset) (panicked "DiskANN LRU detached offset must exist")
  let lru ← lru.relinkOlder link.older link.newer
  lru.relinkNewer link.older link.newer

def appendNewest (offset : Nat) : IoResult OffsetLruLinks := do
  let older := lru.newest
  let lru ← match older with
    | some older =>
      lru.updateLink older (fun link => { link with newer := some offset })
        "DiskANN LRU newest offset must exist"
    | none => .ok { lru with oldest := some offset }
  let lru ← lru.updateLink offset (fun _ => ⟨older, none⟩)
    "DiskANN LRU touched offset must exist"
  return { lru with newest := some offset }

def touch (offset : Nat) : IoResult OffsetLruLinks :=
  if lru.newest = some offset then .ok lru
  else do
    let lru ← match lru.links offset with
      | some _ => lru.detach offset
      | none => .ok { lru with links := Function.update lru.links offset (some ⟨none, none⟩) }
    lru.appendNewest offset

def remove (offset : Nat) : IoResult OffsetLruLinks :=
  match lru.links offset with
  | some _ => do
    let lru ← lru.detach offset
    return { lru with links := Function.update lru.links offset none }
  | none => .ok lru

end

/-- The map is the doubly linked form of `order`, oldest first. -/
structure Represents (lru : OffsetLruLinks) (order : List Nat) : Prop where
  nodup : order.Nodup
  oldest : lru.oldest = order.head?
  newest : lru.newest = order.getLast?
  linked : ∀ front x back, order = front ++ x :: back →
    lru.links x = some ⟨front.getLast?, back.head?⟩
  absent : ∀ x, x ∉ order → lru.links x = none

/-- The map represents `order` apart from the stale link of `skip`. -/
structure RepresentsExcept (lru : OffsetLruLinks) (skip : Nat) (order : List Nat) : Prop where
  nodup : order.Nodup
  fresh : skip ∉ order
  oldest : lru.oldest = order.head?
  newest : lru.newest = order.getLast?
  linked : ∀ front x back, order = front ++ x :: back →
    lru.links x = some ⟨front.getLast?, back.head?⟩
  absent : ∀ x, x ∉ order → x ≠ skip → lru.links x = none
  present : (lru.links skip).isSome

variable {lru : OffsetLruLinks}

theorem updateLink_eq {offset : Nat} {link : OffsetLruLink} (h : lru.links offset = some link)
    (change : OffsetLruLink → OffsetLruLink) (missing : String) :
    lru.updateLink offset change missing =
      .ok { lru with links := fun y => if y = offset then (lru.links y).map change
        else lru.links y } := by
  simp only [updateLink, h, okOr_some, ok_bind, pure_eq_ok]
  congr 2
  funext y
  by_cases hy : y = offset
  · simp [hy, h]
  · simp [hy]

theorem relinkOlder_eq {older : Option Nat} (newer : Option Nat)
    (h : ∀ o, older = some o → (lru.links o).isSome) :
    lru.relinkOlder older newer = .ok {
      links := fun y => if older = some y then
        (lru.links y).map fun link => { link with newer := newer } else lru.links y
      oldest := if older = none then newer else lru.oldest
      newest := lru.newest } := by
  cases older with
  | none => simp [relinkOlder]
  | some o =>
    obtain ⟨link, hlink⟩ := Option.isSome_iff_exists.mp (h o rfl)
    simp [relinkOlder, updateLink_eq hlink, eq_comm]

theorem relinkNewer_eq (older : Option Nat) {newer : Option Nat}
    (h : ∀ o, newer = some o → (lru.links o).isSome) :
    lru.relinkNewer older newer = .ok {
      links := fun y => if newer = some y then
        (lru.links y).map fun link => { link with older := older } else lru.links y
      oldest := lru.oldest
      newest := if newer = none then older else lru.newest } := by
  cases newer with
  | none => simp [relinkNewer]
  | some o =>
    obtain ⟨link, hlink⟩ := Option.isSome_iff_exists.mp (h o rfl)
    simp [relinkNewer, updateLink_eq hlink, eq_comm]

variable {order : List Nat}

theorem Represents.isSome_links (h : lru.Represents order) : (lru.links x).isSome ↔ x ∈ order := by
  constructor
  · intro hsome
    by_contra hx
    simp [h.absent x hx] at hsome
  · intro hx
    obtain ⟨front, back, hsplit⟩ := append_of_mem hx
    simp [h.linked front x back hsplit]

/-- The map after the neighbours of a removed offset were linked to each other. -/
def closeGap (lru : OffsetLruLinks) (older newer : Option Nat) : OffsetLruLinks where
  links := fun y =>
    let link := if older = some y then
      (lru.links y).map fun link => { link with newer := newer } else lru.links y
    if newer = some y then link.map fun link => { link with older := older } else link
  oldest := if older = none then newer else lru.oldest
  newest := if newer = none then older else lru.newest

theorem getLast?_split (front back : List Nat) (x y : Nat) :
    (front ++ x :: (back ++ [y])).getLast? = some y := by
  rw [show front ++ x :: (back ++ [y]) = (front ++ x :: back) ++ [y] by simp]
  exact List.getLast?_concat

variable {back : List Nat}

theorem closeGap_linked_front {f e : List Nat} {y : Nat}
    (h : lru.Represents (f ++ y :: e ++ x :: back)) :
    (lru.closeGap (f ++ y :: e).getLast? back.head?).links y =
      some ⟨f.getLast?, (e ++ back).head?⟩ := by
  have hlink := h.linked f y (e ++ x :: back) (by simp)
  obtain ⟨hfront, hback, hdisj⟩ := nodup_append.mp h.nodup
  obtain ⟨hye, -⟩ := nodup_cons.mp (nodup_append.mp hfront).2.1
  have hnewer : back.head? ≠ some y := by
    intro hhead
    have hmem : y ∈ x :: back := mem_cons_of_mem _ (mem_of_mem_head? hhead)
    exact hdisj y (by simp) y hmem rfl
  simp only [closeGap, if_neg hnewer, hlink]
  cases e using List.reverseRecOn with
  | nil => simp
  | append_singleton e z =>
    have hzy : z ≠ y := fun heq => hye (by simp [heq])
    rw [getLast?_split, if_neg (by simpa using hzy)]
    cases e <;> simp

variable {front : List Nat}

theorem closeGap_linked_back {e b : List Nat} {y : Nat}
    (h : lru.Represents (front ++ x :: (e ++ y :: b))) :
    (lru.closeGap front.getLast? (e ++ y :: b).head?).links y =
      some ⟨(front ++ e).getLast?, b.head?⟩ := by
  have hlink := h.linked (front ++ x :: e) y b (by simp)
  obtain ⟨-, hback, hdisj⟩ := nodup_append.mp h.nodup
  obtain ⟨hey, -, heb⟩ := nodup_append.mp (nodup_cons.mp hback).2
  have holder : front.getLast? ≠ some y := by
    intro hlast
    exact hdisj y (mem_of_getLast? hlast) y (by simp) rfl
  simp only [closeGap, if_neg holder, hlink]
  cases e with
  | nil => simp
  | cons z e =>
    have hzy : z ≠ y := fun heq => heb z (by simp) y (by simp) heq
    rw [cons_append, List.head?_cons, if_neg (by simpa using hzy)]
    simp

theorem detach_spec (h : lru.Represents (front ++ x :: back)) :
    ∃ lru', lru.detach x = .ok lru' ∧ lru'.RepresentsExcept x (front ++ back) := by
  have hlink := h.linked front x back rfl
  have hmem : ∀ o, o ∈ front ∨ o ∈ back → (lru.links o).isSome := by
    intro o ho
    rw [h.isSome_links]
    rcases ho with ho | ho <;> simp [ho]
  have hdetach : lru.detach x = .ok (lru.closeGap front.getLast? back.head?) := by
    simp only [detach, hlink, okOr_some, ok_bind]
    rw [relinkOlder_eq _ fun o ho => hmem o (Or.inl (mem_of_getLast? ho)), ok_bind,
      relinkNewer_eq]
    · rfl
    · intro o ho
      have hsome := hmem o (Or.inr (mem_of_mem_head? ho))
      by_cases hcase : front.getLast? = some o <;> simpa [hcase] using hsome
  obtain ⟨hfront, hxback, hdisj⟩ := nodup_append.mp h.nodup
  obtain ⟨hxb, hback⟩ := nodup_cons.mp hxback
  have hxf : x ∉ front := fun hx => hdisj x hx x (by simp) rfl
  have hlinks : ∀ y, y ∉ front ++ back →
      (lru.closeGap front.getLast? back.head?).links y = lru.links y := by
    intro y hy
    have holder : front.getLast? ≠ some y := fun hlast =>
      hy (mem_append_left _ (mem_of_getLast? hlast))
    have hnewer : back.head? ≠ some y := fun hhead =>
      hy (mem_append_right _ (mem_of_mem_head? hhead))
    simp [closeGap, holder, hnewer]
  refine ⟨_, hdetach, ?_, ?_, ?_, ?_, ?_, ?_, ?_⟩
  · exact nodup_append.mpr ⟨hfront, hback,
      fun a ha b hb => hdisj a ha b (mem_cons_of_mem _ hb)⟩
  · simp [hxf, hxb]
  · cases front with
    | nil => simp [closeGap]
    | cons z front => simp [closeGap, h.oldest]
  · cases back with
    | nil => simp [closeGap]
    | cons z back => simp [closeGap, h.newest, List.getLast?_append]
  · intro f y b hsplit
    rcases append_eq_append_iff.mp hsplit with ⟨e, rfl, rfl⟩ | ⟨e, rfl, hcons⟩
    · exact closeGap_linked_back h
    · cases e with
      | nil =>
        obtain rfl : back = y :: b := by simpa using hcons.symm
        simpa using closeGap_linked_back (e := []) (by simpa using h)
      | cons z e =>
        obtain ⟨rfl, rfl⟩ : y = z ∧ b = e ++ back := by simpa using hcons
        exact closeGap_linked_front (by simpa using h)
  · intro y hy hyx
    rw [hlinks y hy]
    apply h.absent
    simp only [mem_append, mem_cons] at hy ⊢
    tauto
  · rw [hlinks x (by simp [hxf, hxb]), hlink]
    rfl

theorem appendNewest_eq (hx : (lru.links x).isSome)
    (hnewest : ∀ o, lru.newest = some o → (lru.links o).isSome ∧ o ≠ x) :
    lru.appendNewest x = .ok {
      links := fun y => if y = x then some ⟨lru.newest, none⟩ else
        if lru.newest = some y then (lru.links y).map fun link => { link with newer := some x }
        else lru.links y
      oldest := if lru.newest = none then some x else lru.oldest
      newest := some x } := by
  obtain ⟨stale, hstale⟩ := Option.isSome_iff_exists.mp hx
  cases hcase : lru.newest with
  | none =>
    have hstale' : ∀ o n, (⟨lru.links, o, n⟩ : OffsetLruLinks).links x = some stale :=
      fun _ _ => hstale
    simp only [appendNewest, hcase, ok_bind]
    rw [updateLink_eq (hstale' _ _), ok_bind, pure_eq_ok]
    congr 2
    funext y
    by_cases hy : y = x
    · simp [hy, hstale]
    · simp [hy]
  | some o =>
    obtain ⟨hsome, hox⟩ := hnewest o hcase
    obtain ⟨link, hlink⟩ := Option.isSome_iff_exists.mp hsome
    have hstale' : (if x = o then (lru.links x).map fun link => { link with newer := some x }
        else lru.links x) = some stale := by rw [if_neg (Ne.symm hox), hstale]
    simp only [appendNewest, hcase]
    rw [updateLink_eq hlink, ok_bind, updateLink_eq hstale', ok_bind, pure_eq_ok]
    congr 2
    funext y
    by_cases hy : y = x
    · subst hy
      simp [Ne.symm hox, hstale]
    · simp [hy, eq_comm]

theorem appendNewest_spec (h : lru.RepresentsExcept x order) :
    ∃ lru', lru.appendNewest x = .ok lru' ∧ lru'.Represents (order ++ [x]) := by
  have hlast : ∀ o, lru.newest = some o → (lru.links o).isSome ∧ o ≠ x := by
    intro o ho
    have hmem : o ∈ order := mem_of_getLast? (h.newest ▸ ho)
    obtain ⟨front, back, hsplit⟩ := append_of_mem hmem
    refine ⟨by simp [h.linked front o back hsplit], fun heq => h.fresh (heq ▸ hmem)⟩
  refine ⟨_, appendNewest_eq h.present hlast, ?_, ?_, ?_, ?_, ?_⟩
  · rw [nodup_append]
    refine ⟨h.nodup, nodup_singleton x, ?_⟩
    intro a ha b hb heq
    rw [mem_singleton.mp hb] at heq
    exact h.fresh (heq ▸ ha)
  · cases order with
    | nil => simp [h.newest]
    | cons z order => simp [h.newest, h.oldest]
  · simp
  · intro front y back hsplit
    cases back using List.reverseRecOn with
    | nil =>
      obtain ⟨rfl, hyx⟩ := append_inj' hsplit rfl
      obtain rfl : x = y := by simpa using hyx
      simp [h.newest]
    | append_singleton back z =>
      have hassoc : order ++ [x] = (front ++ y :: back) ++ [z] := by simpa using hsplit
      obtain ⟨horder, hzx⟩ := append_inj' hassoc rfl
      obtain rfl : x = z := by simpa using hzx
      have hyx : y ≠ x := fun heq => h.fresh (by simp [horder, heq])
      have hnd := h.nodup
      rw [horder] at hnd
      have hyb := (nodup_cons.mp (nodup_append.mp hnd).2.1).1
      have hlink := h.linked front y back horder
      dsimp only
      rw [if_neg hyx, h.newest, horder, hlink]
      cases back using List.reverseRecOn with
      | nil => simp
      | append_singleton back w =>
        have hwy : w ≠ y := fun heq => hyb (by simp [heq])
        rw [getLast?_split, if_neg (by simpa using hwy)]
        cases back <;> simp
  · intro y hy
    obtain ⟨hyo, hyx⟩ : y ∉ order ∧ y ≠ x := by simpa using hy
    have hnot : lru.newest ≠ some y := fun heq =>
      hyo (mem_of_getLast? (h.newest ▸ heq))
    simpa [hyx, hnot] using h.absent y hyo hyx

theorem filter_ne_of_notMem {l : List Nat} (h : x ∉ l) : l.filter (· ≠ x) = l := by
  rw [filter_eq_self]
  intro a ha
  have hax : a ≠ x := fun heq => h (heq ▸ ha)
  simpa using hax

theorem filter_ne_of_split (h : (front ++ x :: back).Nodup) :
    (front ++ x :: back).filter (· ≠ x) = front ++ back := by
  obtain ⟨-, hback, hdisj⟩ := nodup_append.mp h
  have hxb := (nodup_cons.mp hback).1
  have hxf : x ∉ front := fun hx => hdisj x hx x (by simp) rfl
  rw [filter_append, filter_cons_of_neg (by simp), filter_ne_of_notMem hxf,
    filter_ne_of_notMem hxb]

theorem touch_spec (h : lru.Represents order) (x : Nat) :
    ∃ lru', lru.touch x = .ok lru' ∧ lru'.Represents (Recency.touch order x) := by
  unfold OffsetLruLinks.touch
  by_cases hnewest : lru.newest = some x
  · refine ⟨lru, by rw [if_pos hnewest], ?_⟩
    have hlast := h.newest ▸ hnewest
    obtain ⟨front, rfl⟩ := List.getLast?_eq_some_iff.mp hlast
    rw [Recency.touch, filter_ne_of_split h.nodup, append_nil]
    exact h
  · rw [if_neg hnewest]
    by_cases hx : x ∈ order
    · obtain ⟨front, back, rfl⟩ := append_of_mem hx
      obtain ⟨lru', hdetach, hexcept⟩ := detach_spec h
      obtain ⟨lru'', happend, hrep⟩ := appendNewest_spec hexcept
      refine ⟨lru'', ?_, ?_⟩
      · simp only [h.linked front x back rfl, hdetach, ok_bind, happend]
      · rwa [Recency.touch, filter_ne_of_split h.nodup]
    · have hexcept : RepresentsExcept
          { lru with links := Function.update lru.links x (some ⟨none, none⟩) } x order := by
        refine ⟨h.nodup, hx, h.oldest, h.newest, ?_, ?_, by simp⟩
        · intro front y back hsplit
          have hyx : y ≠ x := fun heq => hx (by simp [hsplit, ← heq])
          simpa [hyx] using h.linked front y back hsplit
        · intro y hy hyx
          simpa [hyx] using h.absent y hy
      obtain ⟨lru', happend, hrep⟩ := appendNewest_spec hexcept
      refine ⟨lru', ?_, ?_⟩
      · simp only [h.absent x hx, ok_bind, happend]
      · rwa [Recency.touch, filter_ne_of_notMem hx]

theorem remove_spec (h : lru.Represents order) (x : Nat) :
    ∃ lru', lru.remove x = .ok lru' ∧ lru'.Represents (order.filter (· ≠ x)) := by
  unfold OffsetLruLinks.remove
  by_cases hx : x ∈ order
  · obtain ⟨front, back, rfl⟩ := append_of_mem hx
    obtain ⟨lru', hdetach, hexcept⟩ := detach_spec h
    refine ⟨{ lru' with links := Function.update lru'.links x none },
      by simp only [h.linked front x back rfl, hdetach, ok_bind, pure_eq_ok], ?_⟩
    rw [filter_ne_of_split h.nodup]
    refine ⟨hexcept.nodup, hexcept.oldest, hexcept.newest, ?_, ?_⟩
    · intro f y b hsplit
      have hyx : y ≠ x := fun heq => hexcept.fresh (by simp [hsplit, ← heq])
      simpa [hyx] using hexcept.linked f y b hsplit
    · intro y hy
      by_cases hyx : y = x
      · simp [hyx]
      · simpa [hyx] using hexcept.absent y hy hyx
  · refine ⟨lru, by simp only [h.absent x hx], ?_⟩
    rwa [filter_ne_of_notMem hx]

def popOldest (lru : OffsetLruLinks) : IoResult (Option Nat × OffsetLruLinks) :=
  match lru.oldest with
  | some offset => do
    let lru ← lru.remove offset
    return (some offset, lru)
  | none => .ok (none, lru)

inductive Call where
  | touch (offset : Nat)
  | remove (offset : Nat)
  | popOldest
  | clear

/-- One call, with the offset that it returns if it is a `pop_oldest`. -/
def call (lru : OffsetLruLinks) : Call → IoResult (Option Nat × OffsetLruLinks)
  | .touch offset => do
    let lru ← lru.touch offset
    return (none, lru)
  | .remove offset => do
    let lru ← lru.remove offset
    return (none, lru)
  | .popOldest => lru.popOldest
  | .clear => .ok (none, empty)

def run : List Call → OffsetLruLinks → IoResult (List (Option Nat) × OffsetLruLinks)
  | [], lru => .ok ([], lru)
  | first :: rest, lru => do
    let result ← lru.call first
    let results ← run rest result.2
    return (result.1 :: results.1, results.2)

/-- What a call makes of the order, oldest first. -/
def Call.apply (order : List Nat) : Call → Option Nat × List Nat
  | .touch offset => (none, Recency.touch order offset)
  | .remove offset => (none, order.filter (· ≠ offset))
  | .popOldest => (order.head?, order.tail)
  | .clear => (none, [])

def Call.applyAll : List Call → List Nat → List (Option Nat) × List Nat
  | [], order => ([], order)
  | first :: rest, order =>
    ((first.apply order).1 :: (applyAll rest (first.apply order).2).1,
      (applyAll rest (first.apply order).2).2)

theorem represents_empty : empty.Represents [] :=
  ⟨nodup_nil, rfl, rfl, by simp, fun _ _ => rfl⟩

theorem popOldest_spec (h : lru.Represents order) :
    ∃ lru', lru.popOldest = .ok (order.head?, lru') ∧ lru'.Represents order.tail := by
  cases order with
  | nil => exact ⟨lru, by simp only [popOldest, h.oldest, List.head?_nil], h⟩
  | cons x rest =>
    obtain ⟨lru', hremove, hrep⟩ := remove_spec h x
    refine ⟨lru', ?_, ?_⟩
    · simp only [popOldest, h.oldest, List.head?_cons, hremove, ok_bind, pure_eq_ok]
    · have hsplit : (([] : List Nat) ++ x :: rest).Nodup := h.nodup
      have hfilter := filter_ne_of_split hsplit
      rw [nil_append, nil_append] at hfilter
      rwa [hfilter] at hrep

theorem call_spec (h : lru.Represents order) (c : Call) :
    ∃ lru', lru.call c = .ok ((c.apply order).1, lru') ∧ lru'.Represents (c.apply order).2 := by
  cases c with
  | touch offset =>
    obtain ⟨lru', htouch, hrep⟩ := touch_spec h offset
    exact ⟨lru', by simp only [call, htouch, ok_bind, pure_eq_ok, Call.apply], hrep⟩
  | remove offset =>
    obtain ⟨lru', hremove, hrep⟩ := remove_spec h offset
    exact ⟨lru', by simp only [call, hremove, ok_bind, pure_eq_ok, Call.apply], hrep⟩
  | popOldest => exact popOldest_spec h
  | clear => exact ⟨empty, rfl, represents_empty⟩

theorem run_spec (h : lru.Represents order) (calls : List Call) :
    ∃ lru', run calls lru = .ok ((Call.applyAll calls order).1, lru') ∧
      lru'.Represents (Call.applyAll calls order).2 := by
  induction calls generalizing lru order with
  | nil => exact ⟨lru, rfl, h⟩
  | cons first rest ih =>
    obtain ⟨next, hcall, hnext⟩ := call_spec h first
    obtain ⟨lru', hrun, hrep⟩ := ih hnext
    exact ⟨lru', by simp only [run, hcall, ok_bind, hrun, pure_eq_ok, Call.applyAll], hrep⟩

theorem Represents.newer_iff (h : lru.Represents order) (x y : Nat) :
    (lru.links x).bind (·.newer) = some y ↔ (lru.links y).bind (·.older) = some x := by
  constructor
  · intro hxy
    have hx : x ∈ order := by
      rw [← h.isSome_links]
      exact Option.isSome_of_isSome_bind (by rw [hxy]; rfl)
    obtain ⟨front, back, hsplit⟩ := append_of_mem hx
    rw [h.linked front x back hsplit] at hxy
    obtain ⟨rest, rfl⟩ := List.head?_eq_some_iff.mp hxy
    have hy := h.linked (front ++ [x]) y rest (by simp [hsplit])
    simp [hy]
  · intro hyx
    have hy : y ∈ order := by
      rw [← h.isSome_links]
      exact Option.isSome_of_isSome_bind (by rw [hyx]; rfl)
    obtain ⟨front, back, hsplit⟩ := append_of_mem hy
    rw [h.linked front y back hsplit] at hyx
    obtain ⟨rest, rfl⟩ := List.getLast?_eq_some_iff.mp hyx
    have hx := h.linked rest x (y :: back) (by simp [hsplit])
    simp [hx]

/-- Every sequence of calls succeeds and returns what it returns on the order.
The links are then those of the order, in both directions. -/
theorem offset_lru_refines_order (calls : List Call) :
    ∃ lru, run calls empty = .ok ((Call.applyAll calls []).1, lru) ∧
      lru.oldest = (Call.applyAll calls []).2.head? ∧
      lru.newest = (Call.applyAll calls []).2.getLast? ∧ (Call.applyAll calls []).2.Nodup ∧
      (∀ front x back, (Call.applyAll calls []).2 = front ++ x :: back →
        lru.links x = some ⟨front.getLast?, back.head?⟩) ∧
      (∀ x, (lru.links x).isSome ↔ x ∈ (Call.applyAll calls []).2) ∧
      ∀ x y, (lru.links x).bind (·.newer) = some y ↔ (lru.links y).bind (·.older) = some x := by
  obtain ⟨lru, hrun, h⟩ := run_spec represents_empty calls
  exact ⟨lru, hrun, h.oldest, h.newest, h.nodup, h.linked, fun _ => h.isSome_links, h.newer_iff⟩

end OffsetLruLinks

open OffsetLruLinks

/-- The recency list together with the order it stands for. -/
structure OffsetLru where
  raw : OffsetLruLinks
  order : List Nat
  represents : raw.Represents order

namespace OffsetLru

def empty : OffsetLru where
  raw := OffsetLruLinks.empty
  order := []
  represents := OffsetLruLinks.represents_empty

def touch (lru : OffsetLru) (offset : Nat) : OffsetLru :=
  match h : lru.raw.touch offset with
  | .ok raw => {
      raw := raw
      order := Recency.touch lru.order offset
      represents := by
        obtain ⟨raw', hraw, hrep⟩ := touch_spec lru.represents offset
        cases hraw.symm.trans h
        exact hrep }
  | .error _ => lru

def remove (lru : OffsetLru) (offset : Nat) : OffsetLru :=
  match h : lru.raw.remove offset with
  | .ok raw => {
      raw := raw
      order := lru.order.filter (· ≠ offset)
      represents := by
        obtain ⟨raw', hraw, hrep⟩ := remove_spec lru.represents offset
        cases hraw.symm.trans h
        exact hrep }
  | .error _ => lru

def popOldest (lru : OffsetLru) : Option (Nat × OffsetLru) :=
  lru.raw.oldest.map fun offset => (offset, lru.remove offset)

@[simp] theorem touch_order (lru : OffsetLru) (offset : Nat) :
    (lru.touch offset).order = Recency.touch lru.order offset := by
  obtain ⟨raw', hraw, -⟩ := touch_spec lru.represents offset
  unfold touch
  split
  · rfl
  · rename_i e he
    cases hraw.symm.trans he

@[simp] theorem remove_order (lru : OffsetLru) (offset : Nat) :
    (lru.remove offset).order = lru.order.filter (· ≠ offset) := by
  obtain ⟨raw', hraw, -⟩ := remove_spec lru.represents offset
  unfold remove
  split
  · rfl
  · rename_i e he
    cases hraw.symm.trans he

variable {lru : OffsetLru}

theorem popOldest_of_nil (h : lru.order = []) : lru.popOldest = none := by
  have holdest := lru.represents.oldest
  rw [h] at holdest
  simp [popOldest, holdest]

theorem popOldest_of_cons {rest : List Nat} (h : lru.order = x :: rest) :
    lru.popOldest = some (x, lru.remove x) ∧ (lru.remove x).order = rest := by
  have holdest := lru.represents.oldest
  have hnd := lru.represents.nodup
  rw [h] at holdest hnd
  refine ⟨by simp [popOldest, holdest], ?_⟩
  rw [remove_order, h]
  have hsplit : (([] : List Nat) ++ x :: rest).Nodup := hnd
  exact filter_ne_of_split hsplit

theorem order_of_popOldest {lru' : OffsetLru} (h : lru.popOldest = some (x, lru')) :
    lru.order = x :: lru'.order := by
  cases horder : lru.order with
  | nil =>
    rw [popOldest_of_nil horder] at h
    cases h
  | cons y rest =>
    obtain ⟨hpop, hrest⟩ := popOldest_of_cons horder
    rw [hpop] at h
    cases h
    rw [hrest]

end OffsetLru

end PaimonVindex
