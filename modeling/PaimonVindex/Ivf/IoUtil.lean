import PaimonVindex.Float32
import PaimonVindex.Ivf.DeltaIds

/-! What the inverted-file formats share: the byte source, bounded batches of
reads, bounded chunks of a streamed list, and the checks of the header words. -/

namespace PaimonVindex

open Checked List

/-- An immutable byte source. A read either fails or fills the whole buffer. -/
structure SeekRead where
  maxRangesPerPread : Nat
  pread : (position len : Nat) → IoResult (List UInt8)
  pread_length : ∀ {position len bytes}, pread position len = .ok bytes → bytes.length = len

variable {maxRanges position : Nat}

namespace SeekRead

def ofBytes (file : List UInt8) (maxRangesPerPread : Nat) : SeekRead where
  maxRangesPerPread := maxRangesPerPread
  pread position len :=
    if position + len ≤ file.length then .ok ((file.drop position).take len)
    else if len = 0 then .ok []
    else .error ⟨.unexpectedEof, "failed to fill whole buffer"⟩
  pread_length {position len bytes} h := by
    split at h
    · cases h
      rw [length_take, length_drop]
      omega
    · split at h
      · cases h
        simp [*]
      · cases h

theorem ofBytes_pread {file : List UInt8} {len : Nat} (h : position + len ≤ file.length) :
    (ofBytes file maxRanges).pread position len = .ok ((file.drop position).take len) :=
  if_pos h

theorem ofBytes_pread_eq_ok {file bytes : List UInt8} {len : Nat} (hlen : 0 < len) :
    (ofBytes file maxRanges).pread position len = .ok bytes ↔
      position + len ≤ file.length ∧ (file.drop position).take len = bytes := by
  by_cases h : position + len ≤ file.length
  · simp [ofBytes_pread h, h]
  · simp [ofBytes, h, Nat.ne_of_gt hlen]

/-- One call for several ranges, given by offset and length, that fills a slice for
each of them behind those filled before. -/
def fillSlices (reader : SeekRead) (ranges : List (Nat × Nat)) (filled : List (List UInt8)) :
    IoResult (List (List UInt8)) := do
  return filled ++ (← ranges.mapM fun r => reader.pread r.1 r.2)

theorem ofBytes_pread_append (before part after : List UInt8) (maxRanges : Nat) :
    (ofBytes (before ++ (part ++ after)) maxRanges).pread before.length part.length = .ok part := by
  rw [ofBytes_pread (by simp only [length_append]; omega), drop_left, take_left]

end SeekRead

def maxIvfBatchReadBytes : Nat := 64 * 1024 * 1024

def ivfStreamAllocationSlack : Nat := 64

def ivfPayloadIsOversized (payloadLen : Nat) : Bool := maxIvfBatchReadBytes < payloadLen

/-- Zero stands for no limit. -/
def rangeLimit (maxRangesPerPread : Nat) : Nat :=
  if maxRangesPerPread = 0 then wordSize - 1 else maxRangesPerPread

def boundedIvfStreamChunkRows (remainingRows rowBytes retainedIdBytes rowAlignment : Nat) :
    IoResult Nat :=
  if remainingRows = 0 then .ok 0
  else do
    rejectIf (rowBytes = 0 ∨ rowAlignment = 0)
      (invalidData "IVF streaming row shape must be greater than zero")
    let available ← okOr ((checkedSub maxIvfBatchReadBytes retainedIdBytes).bind
        (checkedSub · ivfStreamAllocationSlack))
      (invalidData "IVF decoded row IDs exceed the bounded streaming allocation")
    let rows := min (available / rowBytes) remainingRows
    let rows :=
      if rows < remainingRows ∧ 1 < rowAlignment then rows - rows % rowAlignment else rows
    rejectIf (rows = 0) (invalidData "one IVF streaming block exceeds the bounded allocation")
    return rows

/-- The encoded ids and the decoded ids are bounded together before the read. -/
def readDeltaVarintIdsAt (reader : SeekRead) (offset count idBytesLen : Nat)
    (formatName : String) : IoResult (List Int64) := do
  let headLen ← okOr (checkedAdd 12 idBytesLen)
    (invalidData s!"{formatName} ID prefix size overflows usize")
  let decodedBytes ← okOr (checkedMul count 8)
    (invalidData s!"{formatName} decoded ID size overflows usize")
  let tooLarge := invalidData
    s!"{formatName} ID section and decoded IDs exceed the bounded streaming allocation"
  let peak ← okOr (checkedAdd headLen decodedBytes) tooLarge
  rejectIf (maxIvfBatchReadBytes < peak) tooLarge
  let head ← reader.pread offset headLen
  let baseId := i64OfBytes (head.take 8)
  let storedIdBytesLen := i32OfBytes ((head.drop 8).take 4)
  rejectIf (storedIdBytesLen < 0 ∨ storedIdBytesLen.toInt.toNat ≠ idBytesLen)
    (invalidData s!"{formatName} ID length does not match the offset table")
  decodeDeltaVarintIds baseId (head.drop 12) count

/-- Scans the lengths from `index` on, with the ranges and bytes taken so far. -/
def payloadBatchEnd (maxRanges : Nat) : (index ranges bytes : Nat) → List Nat → IoResult Nat
  | index, _, _, [] => .ok index
  | index, ranges, bytes, payloadLen :: rest => do
    let nextRanges := ranges + if payloadLen ≠ 0 then 1 else 0
    let nextBytes ← okOr (checkedAdd bytes payloadLen)
      (invalidData "IVF batch payload size overflow")
    if 0 < index ∧ (maxRanges < nextRanges ∨ maxIvfBatchReadBytes < nextBytes) then return index
    else payloadBatchEnd maxRanges (index + 1) nextRanges nextBytes rest

def boundedIvfPayloadBatchEnd (payloadLengths : List Nat) (maxRangesPerPread : Nat) :
    IoResult Nat :=
  payloadBatchEnd (rangeLimit maxRangesPerPread) 0 0 0 payloadLengths

theorem rangeLimit_pos (maxRangesPerPread : Nat) : 0 < rangeLimit maxRangesPerPread := by
  unfold rangeLimit
  split
  · decide
  · omega

/-- Past the first length the scan stops before either limit is passed. -/
theorem payloadBatchEnd_within {index ranges bytes taken : Nat} {lens : List Nat}
    (hindex : 0 < index) (h : payloadBatchEnd maxRanges index ranges bytes lens = .ok taken) :
    ∃ n, taken = index + n ∧ (0 < n → ranges + (lens.take n).countP (· ≠ 0) ≤ maxRanges ∧
      bytes + (lens.take n).sum ≤ maxIvfBatchReadBytes) := by
  induction lens generalizing index ranges bytes with
  | nil =>
    cases h
    exact ⟨0, rfl, by simp⟩
  | cons first rest ih =>
    simp only [payloadBatchEnd, accepted] at h
    obtain ⟨next, ⟨rfl, -⟩, h⟩ := h
    by_cases hstop : 0 < index ∧ (maxRanges < ranges + (if first ≠ 0 then 1 else 0) ∨
        maxIvfBatchReadBytes < bytes + first)
    · rw [if_pos hstop] at h
      cases h
      exact ⟨0, rfl, by simp⟩
    · rw [if_neg hstop] at h
      obtain ⟨n, rfl, hn⟩ := ih (by omega) h
      refine ⟨n + 1, by omega, fun _ => ?_⟩
      rw [take_succ_cons, countP_cons, sum_cons]
      simp only [decide_eq_true_eq]
      rcases Nat.eq_zero_or_pos n with rfl | hpos
      · simp only [take_zero, countP_nil, sum_nil]
        omega
      · have := hn hpos
        omega

theorem payloadBatchEnd_ok (maxRanges index ranges bytes : Nat) (lens : List Nat)
    (h : bytes + lens.sum < wordSize) :
    ∃ taken, payloadBatchEnd maxRanges index ranges bytes lens = .ok taken := by
  induction lens generalizing index ranges bytes with
  | nil => exact ⟨index, rfl⟩
  | cons len lens ih =>
    rw [sum_cons] at h
    rw [payloadBatchEnd, checkedAdd_bind (by omega)]
    generalize ranges + (if len ≠ 0 then 1 else 0) = nextRanges
    split
    · exact ⟨index, rfl⟩
    · exact ih (index + 1) nextRanges (bytes + len) (by omega)

theorem boundedIvfPayloadBatchEnd_within {first maxRangesPerPread taken : Nat} {rest : List Nat}
    (h : boundedIvfPayloadBatchEnd (first :: rest) maxRangesPerPread = .ok taken) :
    0 < taken ∧ ((first :: rest).take taken).countP (· ≠ 0) ≤ rangeLimit maxRangesPerPread ∧
      (ivfPayloadIsOversized first = false →
        ((first :: rest).take taken).sum ≤ maxIvfBatchReadBytes) := by
  simp only [boundedIvfPayloadBatchEnd, payloadBatchEnd, accepted] at h
  obtain ⟨next, ⟨rfl, -⟩, h⟩ := h
  rw [if_neg (by simp)] at h
  obtain ⟨n, rfl, hn⟩ := payloadBatchEnd_within Nat.one_pos h
  have hlimit := rangeLimit_pos maxRangesPerPread
  rw [Nat.add_comm, take_succ_cons, countP_cons, sum_cons, ivfPayloadIsOversized,
    decide_eq_false_iff_not]
  simp only [decide_eq_true_eq]
  refine ⟨by omega, ?_⟩
  rcases Nat.eq_zero_or_pos n with rfl | hpos
  · simp only [take_zero, countP_nil, sum_nil]
    split <;> omega
  · have := hn hpos
    omega

theorem fits_of_sum_le {L : Type} {payloadLen : L → IoResult Nat} {lists : List L}
    {lens : List Nat} (h : List.Forall₂ (fun list len => payloadLen list = .ok len) lists lens)
    (hsum : lens.sum ≤ maxIvfBatchReadBytes) :
    ∀ list ∈ lists, ∃ len, payloadLen list = .ok len ∧ ivfPayloadIsOversized len = false := by
  induction h with
  | nil => simp
  | @cons list len lists lens hlen _ ih =>
    rw [sum_cons] at hsum
    refine forall_mem_cons.mpr ⟨⟨len, hlen, ?_⟩, ih (by omega)⟩
    rw [ivfPayloadIsOversized, decide_eq_false_iff_not]
    omega

/-- How many of the ranges one call reads, with those taken so far. -/
def preadGroupEnd (maxRanges maxBatchBytes : Nat) : (taken bytes : Nat) → List Nat → IoResult Nat
  | taken, _, [] => .ok taken
  | taken, bytes, len :: rest =>
    if maxRanges ≤ taken then .ok taken
    else do
      let next ← okOr (checkedAdd bytes len) (invalidData "IVF batch payload size overflow")
      if 0 < taken ∧ maxBatchBytes < next then return taken
      else preadGroupEnd maxRanges maxBatchBytes (taken + 1) next rest

/-- The calls that read the ranges, for any `pread` of several ranges. -/
def preadBatchedSlicesWithLimit {H : Type} (maxRangesPerPread maxBatchBytes : Nat)
    (pread : List (Nat × Nat) → H → IoResult H) : List (Nat × Nat) → H → IoResult H
  | [], state => .ok state
  | range :: ranges, state => do
    let taken ← preadGroupEnd (rangeLimit maxRangesPerPread) maxBatchBytes 0 0
      ((range :: ranges).map Prod.snd)
    let state ← pread ((range :: ranges).take (max taken 1)) state
    preadBatchedSlicesWithLimit maxRangesPerPread maxBatchBytes pread
      (ranges.drop (max taken 1 - 1)) state
termination_by ranges => ranges.length
decreasing_by
  rw [length_drop, length_cons]
  omega

def preadBatchedSlices (reader : SeekRead) (ranges : List (Nat × Nat)) :
    IoResult (List (List UInt8)) :=
  preadBatchedSlicesWithLimit reader.maxRangesPerPread maxIvfBatchReadBytes reader.fillSlices
    ranges []

variable {ranges : List (Nat × Nat)}

theorem fillSlices_append (reader : SeekRead) (ranges more : List (Nat × Nat))
    (filled : List (List UInt8)) : reader.fillSlices (ranges ++ more) filled =
      reader.fillSlices ranges filled >>= reader.fillSlices more := by
  simp [SeekRead.fillSlices]

theorem fillSlices_nil (reader : SeekRead) (ranges : List (Nat × Nat)) :
    reader.fillSlices ranges [] = ranges.mapM fun r => reader.pread r.1 r.2 := by
  simp only [SeekRead.fillSlices, nil_append, bind_pure]

theorem fillSlices_of_batched {reader : SeekRead} {maxRangesPerPread maxBatchBytes : Nat}
    {filled slices : List (List UInt8)} (h : preadBatchedSlicesWithLimit maxRangesPerPread
      maxBatchBytes reader.fillSlices ranges filled = .ok slices) :
    reader.fillSlices ranges filled = .ok slices := by
  fun_induction preadBatchedSlicesWithLimit maxRangesPerPread maxBatchBytes reader.fillSlices
    ranges filled with
  | case1 filled => simpa [SeekRead.fillSlices] using h
  | case2 range ranges filled ih =>
    simp only [bind_eq_ok] at h
    obtain ⟨taken, -, now, hnow, h⟩ := h
    rw [← take_append_drop (max taken 1) (range :: ranges), fillSlices_append, hnow, ok_bind,
      ← Nat.sub_add_cancel (Nat.le_max_right taken 1), drop_succ_cons]
    exact ih taken now h

theorem preadBatchedSlices_ok {reader : SeekRead} {slices : List (List UInt8)}
    (h : preadBatchedSlices reader ranges = .ok slices) :
    List.Forall₂ (fun r bytes => reader.pread r.1 r.2 = .ok bytes) ranges slices :=
  mapM_eq_ok.mp (fillSlices_nil reader ranges ▸ fillSlices_of_batched h)

theorem preadGroupEnd_ok (maxRanges maxBatchBytes taken bytes : Nat) (lens : List Nat)
    (h : bytes + lens.sum < wordSize) :
    ∃ n, preadGroupEnd maxRanges maxBatchBytes taken bytes lens = .ok (taken + n) ∧
      (0 < n → taken + n ≤ maxRanges ∧
        (taken + n ≤ 1 ∨ bytes + (lens.take n).sum ≤ maxBatchBytes)) := by
  induction lens generalizing taken bytes with
  | nil => exact ⟨0, rfl, by simp⟩
  | cons len lens ih =>
    rw [sum_cons] at h
    by_cases hfull : maxRanges ≤ taken
    · exact ⟨0, by rw [preadGroupEnd, if_pos hfull, Nat.add_zero], by simp⟩
    · rw [preadGroupEnd, if_neg hfull, checkedAdd_bind (by omega)]
      by_cases hover : 0 < taken ∧ maxBatchBytes < bytes + len
      · exact ⟨0, by rw [if_pos hover, Nat.add_zero, pure_eq_ok], by simp⟩
      · obtain ⟨n, hlast, hn⟩ := ih (taken + 1) (bytes + len) (by omega)
        refine ⟨n + 1, by rw [if_neg hover, hlast, Nat.add_assoc, Nat.add_comm 1], fun _ => ?_⟩
        rw [take_succ_cons, sum_cons]
        rcases Nat.eq_zero_or_pos n with rfl | hpos
        · rw [take_zero, sum_nil]
          omega
        · have := hn hpos
          omega

/-- The calls that are issued: every range once, in order, within the limits. -/
structure ReadGroups (maxRangesPerPread maxBatchBytes : Nat) (ranges : List (Nat × Nat))
    (groups : List (List (Nat × Nat))) : Prop where
  covers : groups.flatten = ranges
  within : ∀ group ∈ groups, group ≠ [] ∧ group.length ≤ rangeLimit maxRangesPerPread ∧
    (group.length = 1 ∨ (group.map Prod.snd).sum ≤ maxBatchBytes)
  calls : ∀ {H : Type} (pread : List (Nat × Nat) → H → IoResult H) (state : H),
    preadBatchedSlicesWithLimit maxRangesPerPread maxBatchBytes pread ranges state =
      groups.foldlM (fun state group => pread group state) state

theorem exists_readGroups (maxRangesPerPread maxBatchBytes : Nat)
    (hsum : (ranges.map Prod.snd).sum < wordSize) :
    ∃ groups, ReadGroups maxRangesPerPread maxBatchBytes ranges groups := by
  -- a call takes at least one range
  induction hlength : ranges.length using Nat.strong_induction_on generalizing ranges with
  | _ length ih =>
    cases ranges with
    | nil => exact ⟨[], rfl, by simp, fun _ _ => by rw [preadBatchedSlicesWithLimit]; rfl⟩
    | cons range ranges =>
      obtain ⟨n, htaken, hn⟩ := preadGroupEnd_ok (rangeLimit maxRangesPerPread) maxBatchBytes
        0 0 ((range :: ranges).map Prod.snd) (by simpa using hsum)
      have hlimit := rangeLimit_pos maxRangesPerPread
      rw [Nat.zero_add] at htaken hn
      have hdrop : ranges.drop (max n 1 - 1) = (range :: ranges).drop (max n 1) := by
        rw [← drop_succ_cons, Nat.sub_add_cancel (by omega)]
      have hsplit := congrArg (fun l => (l.map Prod.snd).sum)
        (take_append_drop (max n 1) (range :: ranges))
      simp only [map_append, sum_append] at hsplit
      obtain ⟨groups, hgroups⟩ := ih _ (by rw [← hlength, length_drop, length_cons]; omega)
        (show ((ranges.drop (max n 1 - 1)).map Prod.snd).sum < wordSize by rw [hdrop]; omega) rfl
      refine ⟨(range :: ranges).take (max n 1) :: groups, ?_,
        forall_mem_cons.mpr ⟨⟨by simp, ?_⟩, hgroups.within⟩, fun pread state => ?_⟩
      · rw [flatten_cons, hgroups.covers, hdrop, take_append_drop]
      · rw [map_take, length_take, length_cons]
        rcases Nat.eq_zero_or_pos n with rfl | hpos
        · omega
        · rw [Nat.max_eq_left hpos]
          have := hn hpos
          omega
      · rw [preadBatchedSlicesWithLimit, htaken, ok_bind, foldlM_cons]
        simp only [← hgroups.calls]

theorem foldlM_fillSlices (reader : SeekRead) (groups : List (List (Nat × Nat)))
    (filled : List (List UInt8)) :
    groups.foldlM (fun state group => reader.fillSlices group state) filled =
      reader.fillSlices groups.flatten filled := by
  induction groups generalizing filled with
  | nil => simp [SeekRead.fillSlices]
  | cons group groups ih => simp only [foldlM_cons, flatten_cons, ih, fillSlices_append]

/-- Every slice is filled from its own offset, whatever the calls are. -/
theorem batched_fillSlices (reader : SeekRead) (maxRangesPerPread maxBatchBytes : Nat)
    (hsum : (ranges.map Prod.snd).sum < wordSize) :
    preadBatchedSlicesWithLimit maxRangesPerPread maxBatchBytes reader.fillSlices ranges [] =
      ranges.mapM fun r => reader.pread r.1 r.2 := by
  obtain ⟨groups, hgroups⟩ := exists_readGroups maxRangesPerPread maxBatchBytes hsum
  rw [hgroups.calls, foldlM_fillSlices, hgroups.covers, fillSlices_nil]

theorem preadBatchedSlices_of_forall₂ {reader : SeekRead} {slices : List (List UInt8)}
    (hsum : (ranges.map Prod.snd).sum < wordSize)
    (h : List.Forall₂ (fun r bytes => reader.pread r.1 r.2 = .ok bytes) ranges slices) :
    preadBatchedSlices reader ranges = .ok slices := by
  rw [preadBatchedSlices, batched_fillSlices reader _ _ hsum, mapM_eq_ok]
  exact h

def validateSearchInputs (queriesLen nq d k nprobe : Nat) : IoResult Unit := do
  rejectIf (nq = 0) (invalidInput "nq must be greater than 0")
  let expected ← okOr (checkedMul nq d) (invalidInput "nq * dimension overflows usize")
  rejectIf (queriesLen ≠ expected)
    (invalidInput s!"queries length {queriesLen} does not match nq * dimension {expected}")
  rejectIf (k = 0) (invalidInput "k must be greater than 0")
  rejectIf (nprobe = 0) (invalidInput "nprobe must be greater than 0")

def validateReservedZero (bytes : List UInt8) (formatName : String) : IoResult Unit :=
  rejectIf (∃ byte ∈ bytes, byte ≠ 0)
    (invalidData s!"{formatName} reserved bytes must be zero")

def validatePositiveI32 (val : Int32) (field : String) : IoResult Nat := do
  let shown := val.toInt
  rejectIf (val ≤ 0) (invalidData s!"invalid header field {field}: {shown} (must be positive)")
  return val.toInt.toNat

/-- A conversion to a word with room for `width` bits of magnitude. -/
def tryFrom {α : Type} (width : Nat) (ofNat : Nat → α) (message : String) (value : Nat) :
    IoResult α := do
  rejectIf (2 ^ width - 1 < value) (invalidInput message)
  return ofNat value

theorem tryFrom_eq_ok {α : Type} {width value : Nat} {ofNat : Nat → α} {message : String} {x : α} :
    tryFrom width ofNat message value = .ok x ↔ value < 2 ^ width ∧ ofNat value = x := by
  have hbound : ¬2 ^ width - 1 < value ↔ value < 2 ^ width := by
    have := Nat.two_pow_pos width
    omega
  simp only [tryFrom, accepted, hbound]

def usizeToI32 (value : Nat) (field : String) : IoResult Int32 :=
  tryFrom 31 Int32.ofNat s!"{field} exceeds i32 length limit: {value}" value

def usizeToI64 (value : Nat) (field : String) : IoResult Int64 :=
  tryFrom 63 Int64.ofNat s!"{field} exceeds i64 length limit: {value}" value

def u64ToI64 (value : Nat) (field : String) : IoResult Int64 :=
  tryFrom 63 Int64.ofNat s!"{field} exceeds i64 offset limit: {value}" value

def maxSectionElements : Nat := 2 ^ 30

/-- The product of two counts; the callers word the overflow differently. -/
def checkedSectionSize (overflow : String) (a b : Nat) : IoResult Nat := do
  let result ← okOr (checkedMul a b) (invalidData overflow)
  rejectIf (maxSectionElements < result)
    (invalidData s!"section size {result} exceeds maximum {maxSectionElements}")
  return result

theorem checkedSectionSize_eq_ok {overflow : String} {a b size : Nat} :
    checkedSectionSize overflow a b = .ok size ↔ a * b = size ∧ a * b ≤ 2 ^ 30 := by
  simp only [checkedSectionSize, accepted]
  have hmax : maxSectionElements = 2 ^ 30 := rfl
  have hword : wordSize = 2 ^ 64 := rfl
  constructor
  · rintro ⟨size, ⟨rfl, -⟩, hle, rfl⟩
    exact ⟨rfl, by omega⟩
  · rintro ⟨rfl, hle⟩
    exact ⟨a * b, ⟨rfl, by omega⟩, by omega, rfl⟩

def checkedListOffset (offset : Int64) (listId : Nat) : IoResult Nat := do
  let shown := offset.toInt
  rejectIf (offset < 0) (invalidData s!"negative list offset {shown} at list {listId}")
  return offset.toInt.toNat

theorem checkedListOffset_eq_ok {offset : Int64} {listId : Nat} :
    checkedListOffset offset listId = .ok position ↔
      ¬offset < 0 ∧ offset.toInt.toNat = position := by
  simp only [checkedListOffset, accepted]

def checkedListBytes (overflow : String) (count bytesPerEntry : Nat) : IoResult Nat :=
  okOr (checkedMul count bytesPerEntry) (invalidData overflow)

def bytesToF32Vec (bytes : List UInt8) : IoResult (List F32) := do
  rejectIf (bytes.length % 4 ≠ 0) (invalidData "f32 byte section is not 4-byte aligned")
  return (Words.chunksExact 4 bytes).map F32.ofBytes

def f32SliceBytes (data : List F32) : List UInt8 := data.flatMap F32.toBytes

end PaimonVindex
