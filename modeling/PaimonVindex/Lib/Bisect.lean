import Mathlib.Algebra.Ring.Nat
import Mathlib.Data.Nat.Find

/-! Binary search for the point from which a predicate on numbers is false. -/

namespace Bisect

variable {m : Type → Type} [Monad m]

def bisect (before : Nat → m Bool) : (fuel left right : Nat) → m Nat
  | 0, left, _ => pure left
  | fuel + 1, left, right =>
    if left < right then do
      let middle := left + (right - left) / 2
      if ← before middle then bisect before fuel (middle + 1) right
      else bisect before fuel left middle
    else pure left

theorem bisect_eq [LawfulMonad m] {before : Nat → m Bool} {cut fuel left right : Nat}
    (hspan : right - left < 2 ^ fuel) (hleft : left ≤ cut) (hright : cut ≤ right)
    (hbefore : ∀ i, left ≤ i → i < right → before i = pure (decide (i < cut))) :
    bisect before fuel left right = pure cut := by
  induction fuel generalizing left right with
  | zero =>
    have hcut : left = cut := by omega
    rw [bisect, hcut]
  | succ fuel ih =>
    rw [bisect]
    by_cases hlt : left < right
    · rw [if_pos hlt]
      have hmiddle : left + (right - left) / 2 < right := by omega
      rw [Nat.pow_succ] at hspan
      dsimp only
      rw [hbefore _ (Nat.le_add_right _ _) hmiddle, pure_bind]
      generalize hm : left + (right - left) / 2 = middle at *
      by_cases hcut : middle < cut
      · rw [if_pos (decide_eq_true hcut)]
        exact ih (by omega) (by omega) hright fun i hi => hbefore i (by omega)
      · rw [if_neg (by simpa using hcut)]
        exact ih (by omega) hleft (by omega) fun i hi hlt' => hbefore i hi (by omega)
    · rw [if_neg hlt]
      have hcut : left = cut := by omega
      rw [hcut]

/-- A predicate that is inherited downwards holds below a point and nowhere else. -/
theorem exists_cut {p : Nat → Prop} [DecidablePred p] {left right : Nat} (hle : left ≤ right)
    (hdown : ∀ i j, left ≤ i → i ≤ j → j < right → p j → p i) :
    ∃ cut, left ≤ cut ∧ cut ≤ right ∧ ∀ i, left ≤ i → i < right → (p i ↔ i < cut) := by
  have hex : ∃ i, left ≤ i ∧ (i = right ∨ ¬p i) := ⟨right, hle, .inl rfl⟩
  have hfound := Nat.find_spec hex
  have hmin : ∀ i, left ≤ i → i < Nat.find hex → p i := by
    intro i hi hlt
    by_contra hnot
    exact Nat.find_min hex hlt ⟨hi, .inr hnot⟩
  have hright : Nat.find hex ≤ right := Nat.find_min' hex ⟨hle, .inl rfl⟩
  refine ⟨Nat.find hex, hfound.1, hright, fun i hi hlt => ⟨fun hp => ?_, hmin i hi⟩⟩
  by_contra hge
  rcases hfound.2 with heq | hnot
  · omega
  · exact hnot (hdown _ i hfound.1 (by omega) hlt hp)

end Bisect
