import Mathlib.Data.Set.Function

/-! A table that is permuted in place: every cycle of the permutation is followed once,
and one buffer holds the entry that has been displaced. -/

namespace CycleRotation

open Function

variable {α β : Type*} {nodes : Set α} {π : α → α} {f table : α → β} {visited : α → Bool}

/-- Between two cycles: the entries of visited nodes are where they belong, and the others
are untouched. -/
structure Rotated (nodes : Set α) (π : α → α) (f table : α → β) (visited : α → Bool) : Prop where
  placed : ∀ u ∈ nodes, visited u = true → table (π u) = f u
  rest : ∀ w ∈ nodes, visited w = false → table w = f w
  back : ∀ u ∈ nodes, visited (π u) = true → visited u = true

/-- On the cycle of `start`, with the entry of `current` in the buffer. -/
structure Rotating (nodes : Set α) (π : α → α) (f : α → β) (start current : α) (table : α → β)
    (visited : α → Bool) (buffer : β) : Prop where
  current_mem : current ∈ nodes
  fresh : visited current = false
  start_visited : current = start ∨ visited start = true
  buffer : buffer = f current
  placed : ∀ u ∈ nodes, visited u = true → table (π u) = f u
  rest : ∀ w ∈ nodes, visited w = false → w ≠ current → table w = f w
  back : ∀ u ∈ nodes, visited (π u) = true ∨ π u = current → π u = start ∨ visited u = true

theorem rotated_start (f : α → β) : Rotated nodes π f f fun _ => false :=
  ⟨fun _ _ h => (nomatch h), fun _ _ _ => rfl, fun _ _ h => (nomatch h)⟩

theorem Rotated.enter (h : Rotated nodes π f table visited) {start : α} (hstart : start ∈ nodes)
    (hfresh : visited start = false) :
    Rotating nodes π f start start table visited (table start) where
  current_mem := hstart
  fresh := hfresh
  start_visited := .inl rfl
  buffer := h.rest start hstart hfresh
  placed := h.placed
  rest w hw hvisited _ := h.rest w hw hvisited
  back u hu := fun hback => hback.elim (fun hv => .inr (h.back u hu hv)) .inl

section Step

variable [DecidableEq α] {start current : α} {buffer : β}

section

variable (h : Rotating nodes π f start current table visited buffer)

include h

theorem Rotating.next_fresh (hne : π current ≠ start) : update visited current true (π
    current) = false := by
  have hback := h.back current h.current_mem
  rw [h.fresh] at hback
  have hnot : ¬(visited (π current) = true ∨ π current = current) := by
    intro hor
    rcases hback hor with hstart | hvisited
    · exact hne hstart
    · cases hvisited
  rw [not_or, Bool.not_eq_true] at hnot
  rw [update_of_ne hnot.2, hnot.1]

theorem Rotating.placed_next (hinj : Set.InjOn π nodes) {u : α} (hu : u ∈ nodes)
    (hvisited : update visited current true u = true) :
    update table (π current) buffer (π u) = f u := by
  by_cases hcurrent : u = current
  · rw [hcurrent, update_self, h.buffer]
  · rw [update_of_ne hcurrent] at hvisited
    rw [update_of_ne fun heq => hcurrent (hinj hu h.current_mem heq)]
    exact h.placed u hu hvisited

theorem Rotating.step (hinj : Set.InjOn π nodes) (hmaps : Set.MapsTo π nodes nodes)
    (hne : π current ≠ start) :
    Rotating nodes π f start (π current) (update table (π current) buffer)
      (update visited current true) (table (π current)) := by
  have hfresh := h.next_fresh hne
  have hmoves : π current ≠ current := by
    intro heq
    rw [heq, update_self] at hfresh
    cases hfresh
  refine ⟨hmaps h.current_mem, hfresh, .inr ?_, ?_, fun u hu => h.placed_next hinj hu, ?_, ?_⟩
  · rcases h.start_visited with heq | hvisited
    · rw [heq, update_self]
    · by_cases heq : start = current
      · rw [heq, update_self]
      · rw [update_of_ne heq, hvisited]
  · rw [update_of_ne hmoves] at hfresh
    exact h.rest _ (hmaps h.current_mem) hfresh hmoves
  · intro w hw hvisited hother
    have hcurrent : w ≠ current := by
      intro heq
      rw [heq, update_self] at hvisited
      cases hvisited
    rw [update_of_ne hcurrent] at hvisited
    rw [update_of_ne hother]
    exact h.rest w hw hvisited hcurrent
  · intro u hu hor
    by_cases hcurrent : u = current
    · rw [hcurrent, update_self]
      exact .inr rfl
    · have hold : visited (π u) = true ∨ π u = current := by
        rcases hor with hvisited | heq
        · by_cases hpi : π u = current
          · exact .inr hpi
          · rw [update_of_ne hpi] at hvisited
            exact .inl hvisited
        · exact absurd (hinj hu h.current_mem heq) hcurrent
      rw [update_of_ne hcurrent]
      exact h.back u hu hold

theorem Rotating.leave (hinj : Set.InjOn π nodes) (hlast : π current = start) :
    Rotated nodes π f (update table (π current) buffer)
      (update visited current true) := by
  refine ⟨fun u hu => h.placed_next hinj hu, ?_, ?_⟩
  · intro w hw hvisited
    have hcurrent : w ≠ current := by
      intro heq
      rw [heq, update_self] at hvisited
      cases hvisited
    rw [update_of_ne hcurrent] at hvisited
    have hstart : w ≠ π current := by
      intro heq
      rw [hlast] at heq
      rcases h.start_visited with hsame | htrue
      · exact hcurrent (heq.trans hsame.symm)
      · rw [heq, htrue] at hvisited
        cases hvisited
    rw [update_of_ne hstart]
    exact h.rest w hw hvisited hcurrent
  · intro u hu hvisited
    by_cases hcurrent : u = current
    · rw [hcurrent, update_self]
    · rw [update_of_ne hcurrent]
      have hold : visited (π u) = true ∨ π u = current := by
        by_cases hpi : π u = current
        · exact .inr hpi
        · rw [update_of_ne hpi] at hvisited
          exact .inl hvisited
      rcases h.back u hu hold with hstart | htrue
      · exact absurd (hinj hu h.current_mem (hstart.trans hlast.symm)) hcurrent
      · exact htrue

end

end Step

end CycleRotation
