import Mathlib.Data.List.Basic
import Mathlib.Tactic.Ring
import Mathlib.Tactic.Linarith
import PaimonVindex.Lib.Bisect

/-! Records laid one after another into pages of a fixed capacity, a new page
whenever the next record would cross the end of the current one. A position is
also an absolute offset; a record of size zero at the very end of a page has
the offset of the page after it. -/

namespace Paging

open List

variable {C n : Nat} {size page off : Nat → Nat}

/-- Next-fit placement from a page and a fill level. -/
def place (C : Nat) : Nat → Nat → List Nat → List (Nat × Nat)
  | _, _, [] => []
  | p, o, s :: rest =>
    let q := if o + s > C then (p + 1, 0) else (p, o)
    q :: place C q.1 (q.2 + s) rest

@[simp] theorem place_length (p o : Nat) (sizes : List Nat) :
    (place C p o sizes).length = sizes.length := by
  induction sizes generalizing p o with
  | nil => rfl
  | cons s rest ih => simp [place, ih]

/-- Consecutive records: each one follows the record before it or opens the
next page. -/
structure Packing (C n : Nat) (size page off : Nat → Nat) : Prop where
  first : 0 < n → page 0 = 0 ∧ off 0 = 0
  fits : ∀ i < n, off i + size i ≤ C
  next : ∀ i, i + 1 < n → (page (i + 1) = page i ∧ off (i + 1) = off i + size i) ∨
    (page (i + 1) = page i + 1 ∧ off (i + 1) = 0)

variable {sizes : List Nat}

theorem place_fits (hsizes : ∀ s ∈ sizes, s ≤ C) (p o i : Nat) (hi : i < sizes.length) :
    ((place C p o sizes).getD i (0, 0)).2 + sizes.getD i 0 ≤ C := by
  induction sizes generalizing p o i with
  | nil => simp at hi
  | cons s rest ih =>
    have hs := hsizes s (by simp)
    cases i with
    | zero =>
      simp only [place, getD_cons_zero]
      split <;> simp <;> omega
    | succ i =>
      simp only [place, getD_cons_succ]
      exact ih (fun t ht => hsizes t (by simp [ht])) _ _ i (by simpa using hi)

theorem place_first (hsizes : ∀ s ∈ sizes, s ≤ C) (p : Nat) (h : 0 < sizes.length) :
    (place C p 0 sizes).getD 0 (0, 0) = (p, 0) := by
  cases sizes with
  | nil => simp at h
  | cons s rest =>
    have hs := hsizes s (by simp)
    simp [place, Nat.not_lt.mpr hs]

theorem place_next (sizes : List Nat) (p o i : Nat) (hi : i + 1 < sizes.length) :
    let q := (place C p o sizes).getD i (0, 0)
    let r := (place C p o sizes).getD (i + 1) (0, 0)
    (r.1 = q.1 ∧ r.2 = q.2 + sizes.getD i 0) ∨ (r.1 = q.1 + 1 ∧ r.2 = 0) := by
  induction sizes generalizing p o i with
  | nil => simp at hi
  | cons s rest ih =>
    cases i with
    | zero =>
      cases rest with
      | nil => simp at hi
      | cons t rest =>
        simp only [place, getD_cons_zero, getD_cons_succ]
        split <;> split <;> simp
    | succ i =>
      simp only [place, getD_cons_succ]
      exact ih _ _ i (by simpa using hi)

theorem place_packing (hsizes : ∀ s ∈ sizes, s ≤ C) :
    Packing C sizes.length (fun i => sizes.getD i 0)
      (fun i => ((place C 0 0 sizes).getD i (0, 0)).1)
      (fun i => ((place C 0 0 sizes).getD i (0, 0)).2) where
  first := fun h => by simp only [place_first hsizes 0 h, and_self]
  fits := fun i hi => place_fits hsizes 0 0 i hi
  next := fun i hi => place_next sizes 0 0 i hi

namespace Packing

variable (h : Packing C n size page off)

include h

theorem page_mono {i j : Nat} (hij : i ≤ j) (hj : j < n) :
    page i ≤ page j := by
  induction j, hij using Nat.le_induction with
  | base => exact le_rfl
  | succ j _ ih =>
    have hle := ih (by omega)
    rcases h.next j hj with ⟨hp, -⟩ | ⟨hp, -⟩ <;> omega

theorem exists_of_le_page {j p : Nat} (hj : j < n)
    (hp : p ≤ page j) : ∃ i ≤ j, page i = p := by
  induction j with
  | zero =>
    have hfirst := (h.first hj).1
    exact ⟨0, le_rfl, by omega⟩
  | succ j ih =>
    by_cases hlast : p = page (j + 1)
    · exact ⟨j + 1, le_rfl, hlast.symm⟩
    · have hle : p ≤ page j := by
        rcases h.next j hj with ⟨hn, -⟩ | ⟨hn, -⟩ <;> omega
      obtain ⟨i, hi, hip⟩ := ih (by omega) hle
      exact ⟨i, by omega, hip⟩

/-- The records before page `p` come first. -/
theorem exists_boundary (p : Nat) :
    ∃ b ≤ n, ∀ i < n, page i < p ↔ i < b := by
  obtain ⟨b, -, hb, hbefore⟩ := Bisect.exists_cut (Nat.zero_le n)
    fun i j _ hij hj (hlt : page j < p) => (h.page_mono hij hj).trans_lt hlt
  exact ⟨b, hb, fun i => hbefore i (Nat.zero_le i)⟩

theorem off_eq_zero {i : Nat} (hi : i < n)
    (hnew : ∀ j, j + 1 = i → page j ≠ page i) : off i = 0 := by
  cases i with
  | zero => exact (h.first hi).2
  | succ i =>
    rcases h.next i hi with ⟨hp, -⟩ | ⟨-, ho⟩
    · exact absurd hp.symm (hnew i rfl)
    · exact ho

end Packing

theorem div_mod_of_lt {p o : Nat} (ho : o < C) : (p * C + o) / C = p ∧ (p * C + o) % C = o := by
  have hC : 0 < C := by omega
  constructor
  · rw [Nat.add_comm, Nat.add_mul_div_right _ _ hC, Nat.div_eq_of_lt ho, Nat.zero_add]
  · rw [Nat.add_comm, Nat.add_mul_mod_self_right, Nat.mod_eq_of_lt ho]

theorem div_mod_of_eq {p : Nat} (hC : 0 < C) : (p * C + C) / C = p + 1 ∧ (p * C + C) % C = 0 := by
  have h := div_mod_of_lt (p := p + 1) hC
  rwa [Nat.add_zero, Nat.succ_mul] at h

/-- Reading positions off the absolute offsets gives a packing again. -/
theorem Packing.normalize (h : Packing C n size page off) (hC : 0 < C) :
    Packing C n size (fun i => (page i * C + off i) / C) (fun i => (page i * C + off i) % C) where
  first := fun hn => by
    obtain ⟨hp, ho⟩ := h.first hn
    simp [hp, ho]
  fits := fun i hi => by
    have hfit := h.fits i hi
    by_cases ho : off i < C
    · simpa only [(div_mod_of_lt ho).2] using hfit
    · obtain rfl : off i = C := by omega
      simp only [(div_mod_of_eq hC).2]
      omega
  next := fun i hi => by
    have hfit := h.fits i (by omega)
    by_cases ho : off i < C
    · rcases h.next i hi with ⟨hp, hoff⟩ | ⟨hp, hoff⟩
      · by_cases ho' : off (i + 1) < C
        · left
          simpa only [div_mod_of_lt ho, div_mod_of_lt ho'] using And.intro hp hoff
        · right
          have heq : off (i + 1) = C := by omega
          simp only [div_mod_of_lt ho, hp, heq, div_mod_of_eq hC, and_self]
      · right
        have h0 : off (i + 1) < C := by omega
        simpa only [div_mod_of_lt ho, div_mod_of_lt h0] using And.intro hp hoff
    · left
      have heq : off i = C := by omega
      have hzero : size i = 0 := by omega
      rcases h.next i hi with ⟨hp, hoff⟩ | ⟨hp, hoff⟩
      · have heq' : off (i + 1) = C := by omega
        simp only [heq, heq', hp, hzero, div_mod_of_eq hC, and_self]
      · have h0 : off (i + 1) < C := by omega
        simpa only [heq, div_mod_of_lt h0, hzero, div_mod_of_eq hC] using And.intro hp hoff

variable {β : Type*} {record content : Nat → List β} {blank : β}

structure Stored (C n : Nat) (size page off : Nat → Nat) (blank : β)
    (record content : Nat → List β) : Prop where
  length : ∀ i < n, (content (page i)).length = C
  holds : ∀ i < n, ((content (page i)).drop (off i)).take (size i) = record i
  tail : ∀ i < n, (i + 1 < n → page (i + 1) ≠ page i) →
    ∀ b ∈ (content (page i)).drop (off i + size i), b = blank

/-- The same pages hold the records at the positions read off the offsets,
unless the last record is an empty one at the end of its page. -/
theorem Stored.normalize (hpack : Packing C n size page off)
    (h : Stored C n size page off blank record content) (hlast : ∀ i, i + 1 = n → off i < C) :
    Stored C n size (fun i => (page i * C + off i) / C) (fun i => (page i * C + off i) % C) blank
      record content := by
  have hC : ∀ i < n, 0 < C := fun i hi => by
    have := hlast (n - 1) (by omega)
    omega
  -- an empty record at the end of a page moves to the page of the record after it
  have hmoved : ∀ i < n, ¬off i < C → off i = C ∧ size i = 0 ∧ i + 1 < n ∧
      ∃ j < n, page j = page i + 1 := by
    intro i hi ho
    have hfit := hpack.fits i hi
    have hend := hlast (n - 1) (by omega)
    have hpage : page i + 1 ≤ page (n - 1) := by
      by_contra hle
      have hall : ∀ k, i ≤ k → k < n → page k = page i ∧ off k = C := by
        intro k hik hk
        induction k, hik using Nat.le_induction with
        | base => exact ⟨rfl, by omega⟩
        | succ k _ ih =>
          obtain ⟨hkp, hko⟩ := ih (by omega)
          have hmono := hpack.page_mono (Nat.le_sub_one_of_lt hk) (by omega)
          have hfit' := hpack.fits (k + 1) hk
          rcases hpack.next k hk with ⟨hp, hoff⟩ | ⟨hp, -⟩
          · exact ⟨by omega, by omega⟩
          · omega
      have := (hall (n - 1) (by omega) (by omega)).2
      omega
    obtain ⟨j, hj, hjp⟩ := hpack.exists_of_le_page (by omega : n - 1 < n) hpage
    refine ⟨by omega, by omega, ?_, j, by omega, hjp⟩
    by_contra hn
    have hin : i = n - 1 := by omega
    rw [hin] at ho
    exact ho hend
  refine ⟨fun i hi => ?_, fun i hi => ?_, fun i hi htail => ?_⟩
  · by_cases ho : off i < C
    · simpa only [div_mod_of_lt ho] using h.length i hi
    · obtain ⟨heq, -, -, j, hj, hjp⟩ := hmoved i hi ho
      simpa only [heq, div_mod_of_eq (hC i hi), ← hjp] using h.length j hj
  · by_cases ho : off i < C
    · simpa only [div_mod_of_lt ho] using h.holds i hi
    · obtain ⟨-, hzero, -⟩ := hmoved i hi ho
      have hrec := h.holds i hi
      rw [hzero, take_zero] at hrec ⊢
      exact hrec
  · by_cases ho : off i < C
    · simp only [div_mod_of_lt ho] at htail ⊢
      by_cases hnext : i + 1 < n ∧ page (i + 1) = page i
      · obtain ⟨hi', hp⟩ := hnext
        have hoff : off (i + 1) = off i + size i := by
          rcases hpack.next i hi' with ⟨-, hoff⟩ | ⟨hp', -⟩
          · exact hoff
          · omega
        have hfull : ¬off (i + 1) < C := by
          intro hlt
          exact htail hi' (by simp only [div_mod_of_lt hlt, hp])
        have hnil : (content (page i)).drop (off i + size i) = [] := by
          rw [drop_eq_nil_iff, h.length i hi]
          omega
        simp [hnil]
      · exact h.tail i hi fun hi' hp => hnext ⟨hi', hp⟩
    · exfalso
      obtain ⟨heq, -, hi', -⟩ := hmoved i hi ho
      apply htail hi'
      have hfit' := hpack.fits (i + 1) hi'
      rcases hpack.next i hi' with ⟨hp, hoff⟩ | ⟨hp, hoff⟩
      · have heq' : off (i + 1) = C := by omega
        simp only [heq, heq', hp]
      · have h0 : off (i + 1) < C := by
          have := hC i hi
          omega
        simp only [heq, div_mod_of_eq (hC i hi), div_mod_of_lt h0, hp]

theorem Packing.congr {size' : Nat → Nat} (h : Packing C n size page off)
    (hsize : ∀ i < n, size i = size' i) : Packing C n size' page off where
  first := h.first
  fits := fun i hi => hsize i hi ▸ h.fits i hi
  next := fun i hi => hsize i (Nat.lt_of_succ_lt hi) ▸ h.next i hi

theorem Stored.congr {size' : Nat → Nat} {record' : Nat → List β}
    (h : Stored C n size page off blank record content) (hsize : ∀ i < n, size i = size' i)
    (hrecord : ∀ i < n, record i = record' i) :
    Stored C n size' page off blank record' content where
  length := h.length
  holds := fun i hi => by
    rw [← hsize i hi, ← hrecord i hi]
    exact h.holds i hi
  tail := fun i hi => hsize i hi ▸ h.tail i hi

/-- A page filled up behind what it holds. -/
def pad (C : Nat) (blank : β) (done : List β) : List β :=
  done ++ List.replicate (C - done.length) blank

/-- The pages of next-fit placement, the first one already holding `done`. -/
def assemble (C : Nat) (blank : β) : List β → List (List β) → List (List β)
  | done, [] => [pad C blank done]
  | done, r :: rest =>
    if done.length + r.length > C then pad C blank done :: assemble C blank r rest
    else assemble C blank (done ++ r) rest

theorem pad_length {done : List β} (h : done.length ≤ C) : (pad C blank done).length = C := by
  simp [pad, h]

theorem drop_pad (done : List β) : ∀ b ∈ (pad C blank done).drop done.length, b = blank := by
  intro b hb
  rw [pad, drop_left] at hb
  exact (mem_replicate.mp hb).2

theorem assemble_head (C : Nat) (blank : β) (done : List β) (records : List (List β)) :
    ∃ head tail, assemble C blank done records = head :: tail ∧ head.take done.length = done := by
  induction records generalizing done with
  | nil => exact ⟨_, _, rfl, by simp [pad]⟩
  | cons r rest ih =>
    simp only [assemble]
    split
    · exact ⟨_, _, rfl, by simp [pad]⟩
    · obtain ⟨head, tail, heq, htake⟩ := ih (done ++ r)
      refine ⟨head, tail, heq, ?_⟩
      have hshort := congrArg (List.take done.length) htake
      rw [take_take, length_append, Nat.min_eq_left (Nat.le_add_right _ _),
        take_left] at hshort
      exact hshort

theorem assemble_length {done : List β} {records : List (List β)} (hdone : done.length ≤ C)
    (hrecords : ∀ r ∈ records, r.length ≤ C) :
    ∀ page ∈ assemble C blank done records, page.length = C := by
  induction records generalizing done with
  | nil => simp [assemble, pad_length hdone]
  | cons r rest ih =>
    have hr := hrecords r (by simp)
    have hrest : ∀ r ∈ rest, r.length ≤ C := fun t ht => hrecords t (by simp [ht])
    simp only [assemble]
    split
    · simp only [mem_cons, forall_eq_or_imp]
      exact ⟨pad_length hdone, ih hr hrest⟩
    · exact ih (by rw [length_append]; omega) hrest

theorem place_page_ge (C : Nat) (sizes : List Nat) (p o i : Nat) (hi : i < sizes.length) :
    p ≤ ((place C p o sizes).getD i (0, 0)).1 := by
  induction sizes generalizing p o i with
  | nil => simp at hi
  | cons s rest ih =>
    cases i with
    | zero =>
      simp only [place, getD_cons_zero]
      split <;> simp
    | succ i =>
      simp only [place, getD_cons_succ]
      refine le_trans ?_ (ih _ _ i (by simpa using hi))
      split <;> simp

theorem place_getLastD (sizes : List Nat) :
    ((place C 0 0 sizes).map Prod.fst).getLastD 0 =
      ((place C 0 0 sizes).getD (sizes.length - 1) (0, 0)).1 := by
  rw [getLastD_eq_getLast?, List.getLast?_eq_getElem?, length_map, place_length,
    List.getElem?_map, getD_eq_getElem?_getD]
  cases (place C 0 0 sizes)[sizes.length - 1]? <;> rfl

theorem assemble_count (C : Nat) (blank : β) (p : Nat) (done : List β) (records : List (List β)) :
    p + (assemble C blank done records).length =
      ((place C p done.length (records.map List.length)).map Prod.fst).getLastD p + 1 := by
  induction records generalizing p done with
  | nil => simp [assemble, place]
  | cons r rest ih =>
    simp only [assemble, map_cons, place, getLastD_cons]
    split
    · have hnext := ih (p + 1) r
      simp only [length_cons, Nat.zero_add]
      omega
    · rw [← length_append]
      exact ih p (done ++ r)

theorem getD_cons_sub {α : Type*} {a d : α} {l : List α} {p q : Nat} (h : p + 1 ≤ q) :
    (a :: l).getD (q - p) d = l.getD (q - (p + 1)) d := by
  rw [show q - p = q - (p + 1) + 1 by omega, getD_cons_succ]

theorem assemble_holds (C : Nat) (blank : β) (p : Nat) (done : List β) (records : List (List β))
    (i : Nat) (hi : i < records.length) :
    let q := (place C p done.length (records.map List.length)).getD i (0, 0)
    (((assemble C blank done records).getD (q.1 - p) []).drop q.2).take
      ((records.map List.length).getD i 0) = records.getD i [] := by
  induction records generalizing p done i with
  | nil => simp at hi
  | cons r rest ih =>
    simp only [assemble, map_cons, place]
    split
    · cases i with
      | zero =>
        obtain ⟨head, tail, heq, htake⟩ := assemble_head C blank r rest
        simp [heq, htake]
      | succ i =>
        have hi' : i < rest.length := by simpa using hi
        have hge := place_page_ge C (rest.map List.length) (p + 1) (0 + r.length) i
          (by simpa using hi')
        have hnext := ih (p + 1) r i hi'
        simp only [getD_cons_succ, Nat.zero_add] at hge hnext ⊢
        rw [getD_cons_sub hge]
        exact hnext
    · cases i with
      | zero =>
        obtain ⟨head, tail, heq, htake⟩ := assemble_head C blank (done ++ r) rest
        have hdrop := congrArg (List.drop done.length) htake
        rw [length_append, drop_take, Nat.add_sub_cancel_left, drop_left] at hdrop
        simpa [heq] using hdrop
      | succ i =>
        have hnext := ih p (done ++ r) i (by simpa using hi)
        simpa only [getD_cons_succ, length_append] using hnext

/-- Behind the last record of a page there is nothing but blanks; a first page
that takes no record is blank behind what it held. -/
theorem assemble_tail (C : Nat) (blank : β) (p : Nat) (done : List β) (records : List (List β)) :
    let q := fun i => (place C p done.length (records.map List.length)).getD i (0, 0)
    let pages := assemble C blank done records
    (∀ i < records.length, (i + 1 < records.length → (q (i + 1)).1 ≠ (q i).1) →
      ∀ b ∈ (pages.getD ((q i).1 - p) []).drop ((q i).2 + (records.map List.length).getD i 0),
        b = blank) ∧
    ((0 < records.length → (q 0).1 ≠ p) →
      ∀ b ∈ (pages.getD 0 []).drop done.length, b = blank) := by
  induction records generalizing p done with
  | nil => exact ⟨by simp, fun _ => by simpa [assemble] using drop_pad done⟩
  | cons r rest ih =>
    simp only [assemble, map_cons, place]
    split
    · obtain ⟨hlast, hhead⟩ := ih (p + 1) r
      refine ⟨?_, fun _ => by simpa using drop_pad done⟩
      intro i hi hend
      cases i with
      | zero =>
        have hfirst : 0 < rest.length →
            ((place C (p + 1) r.length (rest.map List.length)).getD 0 (0, 0)).1 ≠ p + 1 := by
          intro hpos
          simpa using hend (by simpa using hpos)
        simpa using hhead hfirst
      | succ i =>
        have hi' : i < rest.length := by simpa using hi
        have hge := place_page_ge C (rest.map List.length) (p + 1) r.length i
          (by simpa using hi')
        have hnext := hlast i hi' (by simpa using hend)
        simp only [getD_cons_succ, Nat.zero_add] at hge hnext ⊢
        rw [getD_cons_sub hge]
        exact hnext
    · obtain ⟨hlast, hhead⟩ := ih p (done ++ r)
      rw [length_append] at hlast hhead
      refine ⟨?_, fun hfirst => absurd rfl (hfirst (by simp))⟩
      intro i hi hend
      cases i with
      | zero =>
        have hfirst : 0 < rest.length →
            ((place C p (done.length + r.length) (rest.map List.length)).getD 0 (0, 0)).1 ≠ p := by
          intro hpos
          simpa using hend (by simpa using hpos)
        simpa using hhead hfirst
      | succ i => exact hlast i (by simpa using hi) (by simpa using hend)

/-- Next-fit pages store every record at its position. -/
theorem assemble_stored (blank : β) {records : List (List β)}
    (hrecords : ∀ r ∈ records, r.length ≤ C) :
    Stored C records.length (fun i => (records.map List.length).getD i 0)
      (fun i => ((place C 0 0 (records.map List.length)).getD i (0, 0)).1)
      (fun i => ((place C 0 0 (records.map List.length)).getD i (0, 0)).2) blank
      (fun i => records.getD i []) (fun p => (assemble C blank [] records).getD p []) where
  length := fun i hi => by
    have hsizes : ∀ s ∈ records.map List.length, s ≤ C := by simpa using hrecords
    have hlt : ((place C 0 0 (records.map List.length)).getD i (0, 0)).1 <
        (assemble C blank [] records).length := by
      have hcount := assemble_count C blank 0 [] records
      have hmono := (place_packing hsizes).page_mono (Nat.le_sub_one_of_lt hi)
        (by simpa using Nat.sub_one_lt_of_lt hi)
      rw [length_nil, place_getLastD] at hcount
      simp only [length_map] at hcount
      omega
    rw [getD_eq_getElem?_getD, List.getElem?_eq_getElem hlt]
    exact assemble_length (Nat.zero_le _) hrecords _ (getElem_mem hlt)
  holds := fun i hi => by simpa using assemble_holds C blank 0 [] records i hi
  tail := fun i hi hend => by
    simpa using (assemble_tail C blank 0 [] records).1 i hi hend

end Paging
