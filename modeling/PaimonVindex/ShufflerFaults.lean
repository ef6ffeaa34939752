import PaimonVindex.ShufflerRoundTrip

/-! Failures while vectors are shuffled. A failed write may leave a part of its
record behind, and an evicted buffer that could not be written is gone, while the
readers trust the number of accepted records. Without a failed file operation the
readers give the accepted records after any calls. -/

namespace PaimonVindex

open Checked DiskShuffler Effect List

namespace DiskShuffler

/-- Every read that succeeds gives the accepted records. -/
structure YieldsAccepted (run : Run) : Prop where
  partition : ∀ p result, run.shuffler.readPartition p = .ok result →
    result = resultOf (run.accepted p.toNat)
  together : ∀ result, run.shuffler.readAllPartitions = .ok result →
    result = ((List.range run.shuffler.nlist).map fun p => (resultOf (run.accepted p)).1,
      (List.range run.shuffler.nlist).map fun p => (resultOf (run.accepted p)).2)

variable {s : DiskShuffler} {dim nlist : Nat} {run : Run}

theorem writeVector_rejected (faults : Faults) {partitionId : UInt32} {record : ShuffledRecord}
    (h : ¬(record.vector.length = s.dim ∧ partitionId.toNat < s.nlist)) :
    ∃ e, (writeVector faults partitionId record).run s = (.error e, s) := by
  rw [writeVector, run_bind_ok (run_get s)]
  dsimp only
  by_cases hdim : record.vector.length = s.dim
  · have hrange : s.nlist ≤ partitionId.toNat := Nat.le_of_not_lt fun hp => h ⟨hdim, hp⟩
    rw [rejectIf_of_not (not_not.mpr hdim), run_bind_ok (run_lift _ s), rejectIf_of hrange]
    exact ⟨_, rfl⟩
  · rw [rejectIf_of hdim]
    exact ⟨_, rfl⟩

/-- A run without failures: still writing, or finished for good. -/
theorem intact_step (h : Clean run ∨ Stored dim nlist run) (hbooked : Booked dim nlist run)
    (c : Call) : Clean (run.step noFaults c) ∨ Stored dim nlist (run.step noFaults c) := by
  rcases h with h | h
  · cases c with
    | finish => exact .inr (h.stored hbooked).1
    | write partitionId record =>
      by_cases hvalid : record.vector.length = run.shuffler.dim ∧
          partitionId.toNat < run.shuffler.nlist
      · exact .inl (h.write hvalid.2 hvalid.1).1
      · obtain ⟨e, hrun⟩ := writeVector_rejected noFaults hvalid
        simp only [Run.step, call, hrun]
        exact .inl h
  · right
    cases c with
    | finish =>
      have hrun : (finishWrite noFaults).run run.shuffler = (.ok (), run.shuffler) := by
        rw [finishWrite, run_bind_ok (run_get _), if_pos h.finished]
        rfl
      simp only [Run.step, call, hrun]
      exact h
    | write partitionId record =>
      obtain ⟨hok, herror⟩ := writeVector_ensures noFaults partitionId record run.shuffler _ rfl
      rcases hrun : (writeVector noFaults partitionId record).run run.shuffler with ⟨_ | _, s'⟩
      · simp only [Run.step, call, hrun, (herror _ s' hrun).2 h.finished]
        exact h
      · have hopen := (hok _ s' hrun).2.2.1
        rw [h.finished] at hopen
        cases hopen

theorem intact_after (files : Nat → List UInt8) (file : List UInt8) (calls : List Call) :
    Clean (.after noFaults (.new dim nlist files file) calls) ∨
      Stored dim nlist (.after noFaults (.new dim nlist files file) calls) := by
  induction calls using List.reverseRecOn with
  | nil => exact .inl (@clean_after [] dim nlist files file (by simp)).1
  | append_singleton calls c ih =>
    rw [Run.after, foldl_append]
    exact intact_step ih (booked_after noFaults dim nlist files file calls) c

theorem Stored.yieldsAccepted (h : Stored dim nlist run) : YieldsAccepted run := by
  constructor
  · intro p result hread
    by_cases hp : p.toNat < nlist
    · rw [h.readPartition hp, Except.ok.injEq] at hread
      exact hread.symm
    · simp only [DiskShuffler.readPartition, validateFinalized, validatePartitionId,
        accepted] at hread
      obtain ⟨-, _, hrange, -⟩ := hread
      rw [h.booked.nlist_eq] at hrange
      exact absurd (Nat.lt_of_not_le hrange.1) hp
  · intro result hread
    rw [h.readAllPartitions, Except.ok.injEq] at hread
    rw [h.booked.nlist_eq]
    exact hread.symm

theorem Clean.yieldsAccepted (h : Clean run) : YieldsAccepted run := by
  constructor
  · intro p result hread
    simp only [DiskShuffler.readPartition, validateFinalized, accepted] at hread
    exact absurd h.unfinished hread.1
  · intro result hread
    simp only [DiskShuffler.readAllPartitions, validateFinalized, accepted] at hread
    exact absurd h.unfinished hread.1

end DiskShuffler

/-- If no file operation fails, then after any calls, the rejected ones and those
behind the end included, a read that succeeds gives the accepted records. -/
theorem shuffler_failure_atomicity {faults : Faults} (hfaults : ∀ time, faults time = none)
    (dim nlist : Nat) (files : Nat → List UInt8) (file : List UInt8) (calls : List Call) :
    YieldsAccepted (.after faults (.new dim nlist files file) calls) := by
  obtain rfl : faults = noFaults := funext hfaults
  rcases intact_after files file calls with h | h
  · exact h.yieldsAccepted
  · exact h.yieldsAccepted

/-- The flush of the evicted writer fails, and so does the attempt when it is
dropped. -/
def fullDisk : Faults := fun time =>
  if time = 64 ∨ time = 65 then some (0, ⟨.other, "no space left on device"⟩) else none

/-- One record for each of 65 partitions, and another one for the first. -/
def evictingCalls : List Call :=
  ((List.range 65).map fun p => .write (UInt32.ofNat p) ⟨Int64.ofNat p, []⟩) ++
    [.write 0 ⟨100, []⟩, .finish]

/-- The same calls without failures, a rejected one and another end. -/
theorem shuffler_failure_atomicity_evicting : (Run.after noFaults (.new 0 65 (fun _ => []) [])
    (evictingCalls ++ [.write 65 ⟨7, []⟩, .finish])).shuffler.readPartition 0 =
      .ok ([0, 100], []) ∧
    YieldsAccepted (.after noFaults (.new 0 65 (fun _ => []) [])
      (evictingCalls ++ [.write 65 ⟨7, []⟩, .finish])) :=
  ⟨by decide +kernel, shuffler_failure_atomicity (fun _ => rfl) 0 65 _ _ _⟩

/-- The first record of the first partition was accepted and is lost; the record of
the next partition is read instead. -/
theorem evicted_buffer_is_lost :
    (Run.after fullDisk (.new 0 65 (fun _ => []) []) evictingCalls).accepted 0 =
        [⟨0, []⟩, ⟨100, []⟩] ∧
      (Run.after fullDisk (.new 0 65 (fun _ => []) [])
        evictingCalls).shuffler.readPartition 0 = .ok ([100, 1], []) := by
  decide +kernel

end PaimonVindex
