import Mathlib.Algebra.Order.BigOperators.Group.Finset
import Mathlib.Data.Prod.Lex

/-! Processes that take turns on a shared state: invariants of all runs,
termination by a measure, and leases of which a process may hold several but no
two processes the same. -/

namespace Interleaving

section Runs

variable {σ : Type*} {step : σ → σ → Prop}

theorem invariant_of_reachable {I : σ → Prop} (hstep : ∀ s s', I s → step s s' → I s')
    {start s : σ} (hstart : I start) (h : Relation.ReflTransGen step start s) : I s := by
  induction h with
  | refl => exact hstart
  | tail _ hlast ih => exact hstep _ _ ih hlast

theorem reachable_of_schedule {ι : Type*} {move : σ → ι → Option σ}
    (hmove : ∀ s i s', move s i = some s' → step s s') {schedule : List ι} {s t : σ}
    (h : schedule.foldlM move s = some t) : Relation.ReflTransGen step s t := by
  induction schedule generalizing s with
  | nil =>
    cases h
    exact .refl
  | cons i schedule ih =>
    rw [List.foldlM_cons] at h
    obtain ⟨s', hfirst, hrest⟩ := Option.bind_eq_some_iff.mp h
    exact .head (hmove s i s' hfirst) (ih hrest)

theorem no_infinite_run {β : Type*} [Preorder β] [WellFoundedLT β] {I : σ → Prop} (μ : σ → β)
    (hstep : ∀ s s', I s → step s s' → I s') (hμ : ∀ s s', I s → step s s' → μ s' < μ s)
    {run : ℕ → σ} (hstart : I (run 0)) : ¬∀ n, step (run n) (run (n + 1)) := by
  intro hrun
  have hall : ∀ n, I (run n) := by
    intro n
    induction n with
    | zero => exact hstart
    | succ n ih => exact hstep _ _ ih (hrun n)
  -- the measures of the run would descend for ever
  obtain ⟨m, ⟨n, hn⟩, hmin⟩ := wellFounded_lt.has_min (Set.range fun n => μ (run n)) ⟨_, 0, rfl⟩
  have hlt := hμ _ _ (hall n) (hrun n)
  exact hmin (μ (run (n + 1))) ⟨n + 1, rfl⟩ (lt_of_lt_of_eq hlt hn)

end Runs

section Measures

variable {ι : Type*} [Fintype ι]

theorem sum_lt_of_one {f g : ι → ℕ} (i : ι) (hi : f i < g i) (hothers : ∀ j, j ≠ i → f j = g j) :
    ∑ j, f j < ∑ j, g j := by
  apply Finset.sum_lt_sum
  · intro j _
    by_cases hj : j = i
    · exact hj ▸ hi.le
    · exact (hothers j hj).le
  · exact ⟨i, Finset.mem_univ i, hi⟩

theorem sum_eq_of_one {f g : ι → ℕ} (i : ι) (hi : f i = g i) (hothers : ∀ j, j ≠ i → f j = g j) :
    ∑ j, f j = ∑ j, g j := by
  apply Finset.sum_congr rfl
  intro j _
  by_cases hj : j = i
  · exact hj ▸ hi
  · exact hothers j hj

/-- Three counters, the first counting most. -/
def rank (a b c : ℕ) : ℕ ×ₗ ℕ ×ₗ ℕ := toLex (a, toLex (b, c))

theorem rank_lt_iff {a b c a' b' c' : ℕ} :
    rank a b c < rank a' b' c' ↔ a < a' ∨ a = a' ∧ (b < b' ∨ b = b' ∧ c < c') := by
  simp [rank, Prod.Lex.lt_iff]

end Measures

/-- What is leased is what some process holds, and no two hold the same. -/
structure Leased {ι α : Type*} (taken : α → Prop) (own : ι → α → Prop) : Prop where
  taken_iff : ∀ x, taken x ↔ ∃ i, own i x
  unique : ∀ {i j x}, own i x → own j x → i = j

namespace Leased

variable {ι α : Type*} {taken taken' : α → Prop} {own own' : ι → α → Prop}

theorem congr (h : Leased taken own) (htaken : ∀ x, taken' x ↔ taken x)
    (hown : ∀ i x, own' i x ↔ own i x) : Leased taken' own' where
  taken_iff x := by simp only [htaken, hown, h.taken_iff]
  unique hi hj := h.unique ((hown _ _).mp hi) ((hown _ _).mp hj)

/-- A process takes what nobody has. -/
theorem acquire (h : Leased taken own) {i : ι} {x : α} (hx : ¬taken x)
    (htaken : ∀ y, taken' y ↔ y = x ∨ taken y) (hi : ∀ y, own' i y ↔ y = x ∨ own i y)
    (hothers : ∀ j, j ≠ i → ∀ y, own' j y ↔ own j y) : Leased taken' own' := by
  have hfree : ∀ j, ¬own j x := fun j hj => hx ((h.taken_iff x).mpr ⟨j, hj⟩)
  have hnew : ∀ j y, own' j y ↔ (j = i ∧ y = x) ∨ own j y := by
    intro j y
    by_cases hj : j = i
    · rw [hj, hi]
      simp
    · rw [hothers j hj]
      simp [hj]
  constructor
  · intro y
    rw [htaken, h.taken_iff]
    simp only [hnew]
    constructor
    · rintro (rfl | ⟨j, hj⟩)
      · exact ⟨i, .inl ⟨rfl, rfl⟩⟩
      · exact ⟨j, .inr hj⟩
    · rintro ⟨j, ⟨-, rfl⟩ | hj⟩
      · exact .inl rfl
      · exact .inr ⟨j, hj⟩
  · intro j k y hj hk
    rw [hnew] at hj hk
    rcases hj with ⟨rfl, rfl⟩ | hj
    · rcases hk with ⟨rfl, -⟩ | hk
      · rfl
      · exact absurd hk (hfree k)
    · rcases hk with ⟨rfl, rfl⟩ | hk
      · exact absurd hj (hfree j)
      · exact h.unique hj hk

/-- A process gives back some of what it has. -/
theorem release (h : Leased taken own) {i : ι} (given : α → Prop)
    (hgiven : ∀ y, taken y → given y → own i y) (htaken : ∀ y, taken' y ↔ taken y ∧ ¬given y)
    (hi : ∀ y, own' i y ↔ own i y ∧ ¬given y)
    (hothers : ∀ j, j ≠ i → ∀ y, own' j y ↔ own j y) : Leased taken' own' := by
  have hsub : ∀ j y, own' j y → own j y := by
    intro j y hy
    by_cases hj : j = i
    · subst hj
      exact ((hi y).mp hy).1
    · exact (hothers j hj y).mp hy
  constructor
  · intro y
    rw [htaken]
    constructor
    · rintro ⟨hy, hkeep⟩
      obtain ⟨j, hj⟩ := (h.taken_iff y).mp hy
      by_cases hji : j = i
      · subst hji
        exact ⟨j, (hi y).mpr ⟨hj, hkeep⟩⟩
      · exact ⟨j, (hothers j hji y).mpr hj⟩
    · rintro ⟨j, hj⟩
      have hown := hsub j y hj
      have hy : taken y := (h.taken_iff y).mpr ⟨j, hown⟩
      refine ⟨hy, fun hgive => ?_⟩
      obtain rfl : j = i := h.unique hown (hgiven y hy hgive)
      exact ((hi y).mp hj).2 hgive
  · intro j k y hj hk
    exact h.unique (hsub j y hj) (hsub k y hk)

end Leased

end Interleaving
