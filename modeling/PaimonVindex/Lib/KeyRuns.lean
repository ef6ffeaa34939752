import Mathlib.Data.List.Nodup
import Mathlib.Order.Lattice

/-! The runs of equal keys in a list of pairs. In a list sorted by key there is one run
for every key. -/

namespace KeyRuns

open List

variable {κ α : Type*}

def keyRuns [DecidableEq κ] : List (κ × α) → List (κ × List α)
  | [] => []
  | (key, value) :: rest =>
    (key, value :: (rest.takeWhile fun entry => decide (entry.1 = key)).map Prod.snd) ::
      keyRuns (rest.dropWhile fun entry => decide (entry.1 = key))
  termination_by l => l.length
  decreasing_by
    exact Nat.lt_succ_of_le (dropWhile_sublist _).length_le

def valuesOf [DecidableEq κ] (l : List (κ × α)) (key : κ) : List α :=
  (l.filter fun entry => decide (entry.1 = key)).map Prod.snd

section Sorted

variable [LinearOrder κ]

theorem takeWhile_key {l : List (κ × α)} {key : κ} (h : l.Pairwise fun a b => a.1 ≤ b.1)
    (hle : ∀ entry ∈ l, key ≤ entry.1) :
    (l.takeWhile fun entry => decide (entry.1 = key)) =
        l.filter (fun entry => decide (entry.1 = key)) ∧
      (l.dropWhile fun entry => decide (entry.1 = key)) =
        l.filter fun entry => !decide (entry.1 = key) := by
  induction l with
  | nil => exact ⟨rfl, rfl⟩
  | cons first l ih =>
    obtain ⟨hfirst, hrest⟩ := pairwise_cons.mp h
    by_cases hkey : first.1 = key
    · have hih := ih hrest fun entry hmem => hle entry (mem_cons_of_mem _ hmem)
      simp [hkey, hih.1, hih.2]
    · -- The first key is larger, and so are all that follow it.
      have hlarger : ∀ entry ∈ first :: l, entry.1 ≠ key := by
        intro entry hmem heq
        rcases mem_cons.mp hmem with rfl | hmem
        · exact hkey heq
        · have hbetween := hfirst entry hmem
          rw [heq] at hbetween
          exact hkey (le_antisymm hbetween (hle first mem_cons_self))
      rw [takeWhile_cons_of_neg (by simpa using hkey),
        dropWhile_cons_of_neg (by simpa using hkey)]
      constructor
      · exact (filter_eq_nil_iff.mpr fun entry hmem => by simpa using hlarger entry hmem).symm
      · exact (filter_eq_self.mpr fun entry hmem => by simpa using hlarger entry hmem).symm

structure Grouped (l : List (κ × α)) (runs : List (κ × List α)) : Prop where
  nodup : (runs.map Prod.fst).Nodup
  values : ∀ run ∈ runs, run.2 = valuesOf l run.1
  key_mem : ∀ key, key ∈ runs.map Prod.fst ↔ key ∈ l.map Prod.fst

theorem keyRuns_grouped {l : List (κ × α)} (h : l.Pairwise fun a b => a.1 ≤ b.1) :
    Grouped l (keyRuns l) := by
  induction l using keyRuns.induct with
  | case1 =>
    rw [keyRuns]
    exact ⟨nodup_nil, fun _ hmem => absurd hmem not_mem_nil, fun _ => Iff.rfl⟩
  | case2 key value rest ih =>
    obtain ⟨hfirst, hrest⟩ := pairwise_cons.mp h
    obtain ⟨htake, hdrop⟩ := takeWhile_key hrest hfirst
    have hsub := dropWhile_sublist (l := rest) fun entry : κ × α => decide (entry.1 = key)
    have hgrouped := ih (hrest.sublist hsub)
    rw [keyRuns]
    rw [hdrop] at hgrouped ⊢
    set later := rest.filter fun entry => !decide (entry.1 = key) with hlater
    have hlarger : key ∉ later.map Prod.fst := by simp [hlater]
    refine ⟨?_, fun run hrun => ?_, fun other => ?_⟩
    · rw [map_cons, nodup_cons, hgrouped.key_mem]
      exact ⟨hlarger, hgrouped.nodup⟩
    · rcases mem_cons.mp hrun with rfl | hrun
      · simp [valuesOf, htake]
      · have hmem : run.1 ∈ later.map Prod.fst :=
          (hgrouped.key_mem _).mp (mem_map_of_mem hrun)
        have hne : run.1 ≠ key := fun heq => hlarger (heq ▸ hmem)
        rw [hgrouped.values run hrun, valuesOf, valuesOf, hlater, filter_filter,
          filter_cons_of_neg (by simpa using Ne.symm hne)]
        congr 1
        refine filter_congr fun entry _ => ?_
        by_cases heq : entry.1 = run.1 <;> simp [heq, hne]
    · rw [map_cons, map_cons, mem_cons, mem_cons, hgrouped.key_mem]
      by_cases hkey : other = key
      · simp [hkey]
      · simp [hkey, hlater]

end Sorted

end KeyRuns
