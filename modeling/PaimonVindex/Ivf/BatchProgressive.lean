import PaimonVindex.Ivf.Progressive
import PaimonVindex.Lib.Effect
import PaimonVindex.Lib.Rows

/-! The automatic search of a batch. Every round probes twice as many lists, but
only for the queries whose result is not complete yet; these are packed into
chunks that fit a buffer and are scanned on from the result they have. -/

namespace PaimonVindex

open Checked Effect Rows Words List Function

variable {K σ : Type} {α : Type}

/-- The arguments of one call of the scan: the packed queries, the range of
probed lists and the results of the lists before it. -/
structure BatchScan (K : Type) where
  queries : List K
  queryCount : Nat
  probeStart : Nat
  probeEnd : Nat
  seedIds : List Int64
  seedDistances : List K

section Loop

variable [Scalar K] (search : BatchScan K → Effect IoError σ (List Int64 × List K))

def rowAt (values : List α) (width index : Nat) : IoResult (List α) :=
  okOr (getRange values (index * width) (index * width + width))
    (panicked "range end index out of range for slice")

def copyRow (values : List α) (width index : Nat) (row : List α) : IoResult (List α) :=
  okOr (overwrite values (index * width) row) (panicked "range end index out of range for slice")

def packRows (values : List α) (width : Nat) (chunk : List Nat) : IoResult (List α) := do
  let rows ← chunk.mapM (rowAt values width)
  return rows.flatten

/-- `checked_div` has no value for a buffer of no bytes per query. -/
def retryChunkSize (limit dimension topK activeCount : Nat) : Nat :=
  let bytesPerRetryQuery := saturatingAdd (saturatingMul dimension 4) (saturatingMul topK 12)
  max (if bytesPerRetryQuery = 0 then activeCount else limit / bytesPerRetryQuery) 1

/-- One row of a chunk's result goes back to its query, which stays active if it
is still incomplete. -/
def storeRow (topK required : Nat) (round : List Int64 × List K)
    (state : (List Int64 × List K) × List Nat) (entry : Nat × Nat) :
    IoResult ((List Int64 × List K) × List Nat) := do
  let ids ← rowAt round.1 topK entry.2
  let resultIds ← copyRow state.1.1 topK entry.1 ids
  let distances ← rowAt round.2 topK entry.2
  let resultDistances ← copyRow state.1.2 topK entry.1 distances
  return ((resultIds, resultDistances),
    if ivfSearchResultIsComplete distances required then state.2 else state.2 ++ [entry.1])

def retryChunk (queries : List K) (dimension topK required previousNprobe nprobe : Nat)
    (state : (List Int64 × List K) × List Nat) (chunk : List Nat) :
    Effect IoError σ ((List Int64 × List K) × List Nat) := do
  let packedQueries ← lift (packRows queries dimension chunk)
  let seedIds ← lift (packRows state.1.1 topK chunk)
  let seedDistances ← lift (packRows state.1.2 topK chunk)
  let round ← search ⟨packedQueries, chunk.length, previousNprobe, nprobe, seedIds, seedDistances⟩
  lift (chunk.zipIdx.foldlM (storeRow topK required round) state)

/-- `none` is a loop that is not over after `rounds` rounds. The doubling
saturates above `nlist`. -/
def batchRounds (nlist : Nat) (queries : List K) (dimension topK required limit : Nat) :
    (rounds nprobe : Nat) → (active : List Nat) → (result : List Int64 × List K) →
      Effect IoError σ (Option (List Int64 × List K))
  | 0, _, _, _ => pure none
  | rounds + 1, nprobe, active, result =>
    if nlist ≤ nprobe ∨ required = 0 ∨ active = [] then pure (some result)
    else do
      let wider := min (nprobe * 2) nlist
      let state ← (chunks (retryChunkSize limit dimension topK active.length) active).foldlM
        (retryChunk search queries dimension topK required nprobe wider) (result, [])
      batchRounds nlist queries dimension topK required limit rounds wider state.2 state.1

def incompleteQueries (queryCount topK required : Nat) (distances : List K) : List Nat :=
  ((chunksExact topK distances).take queryCount).zipIdx.filterMap fun entry =>
    if ivfSearchResultIsComplete entry.1 required then none else some entry.2

def progressiveIvfBatchSearchWithRetryBufferLimit (params : VectorSearchParams)
    (nlist initialNprobe : Nat) (queries : List K)
    (queryCount topK availableMatches limit rounds : Nat) :
    Effect IoError σ (Option (List Int64 × List K)) :=
  if params.searchWidth ≠ .auto then
    some <$> search ⟨queries, queryCount, 0, initialNprobe, [], []⟩
  else do
    lift (rejectIf (queryCount = 0) (panicked "attempt to divide by zero"))
    let dimension := queries.length / queryCount
    let required := min topK availableMatches
    let result ← search ⟨queries, queryCount, 0, initialNprobe, [], []⟩
    batchRounds search nlist queries dimension topK required limit rounds initialNprobe
      (incompleteQueries queryCount topK required result.2) result

end Loop

section Widths

def probeWidth (nlist initial : Nat) : Nat → Nat
  | 0 => initial
  | round + 1 => min (probeWidth nlist initial round * 2) nlist

def IsLastWidth (nlist initial : Nat) (complete : Nat → Bool) (width : Nat) : Prop :=
  ∃ round, width = probeWidth nlist initial round ∧
    (complete width = true ∨ nlist ≤ width) ∧
    ∀ earlier < round, complete (probeWidth nlist initial earlier) = false ∧
      probeWidth nlist initial earlier < nlist

variable {nlist p width : Nat} {complete : Nat → Bool}

theorem probeWidth_next (nlist p round : Nat) :
    probeWidth nlist (min (p * 2) nlist) round = probeWidth nlist p (round + 1) := by
  induction round with
  | zero => rfl
  | succ round ih => rw [probeWidth, ih, ← probeWidth]

theorem isLastWidth_stop (h : complete p = true ∨ nlist ≤ p) : IsLastWidth nlist p complete p :=
  ⟨0, rfl, h, fun _ hlt => absurd hlt (Nat.not_lt_zero _)⟩

theorem isLastWidth_step (hincomplete : complete p = false) (hlt : p < nlist) :
    IsLastWidth nlist p complete width ↔
      IsLastWidth nlist (min (p * 2) nlist) complete width := by
  constructor
  · rintro ⟨round, rfl, hend, hbefore⟩
    cases round with
    | zero =>
      rcases hend with hcomplete | hle
      · exact absurd (hincomplete.symm.trans hcomplete) Bool.false_ne_true
      · exact absurd hle (Nat.not_le.mpr hlt)
    | succ round =>
      refine ⟨round, (probeWidth_next nlist p round).symm, hend, fun earlier hearlier => ?_⟩
      rw [probeWidth_next]
      exact hbefore (earlier + 1) (by omega)
  · rintro ⟨round, rfl, hend, hbefore⟩
    refine ⟨round + 1, probeWidth_next nlist p round, hend, fun earlier hearlier => ?_⟩
    cases earlier with
    | zero => exact ⟨hincomplete, hlt⟩
    | succ earlier =>
      rw [← probeWidth_next]
      exact hbefore earlier (by omega)

theorem IsLastWidth.eq_of_stop (h : IsLastWidth nlist p complete width)
    (hstop : complete p = true ∨ nlist ≤ p) : width = p := by
  obtain ⟨round, rfl, -, hbefore⟩ := h
  cases round with
  | zero => rfl
  | succ round =>
    have hfirst : complete p = false ∧ p < nlist := hbefore 0 (Nat.succ_pos round)
    rcases hstop with hcomplete | hle
    · exact absurd (hfirst.1.symm.trans hcomplete) Bool.false_ne_true
    · exact absurd hle (Nat.not_le.mpr hfirst.2)

theorem exists_isLastWidth (nlist : Nat) (complete : Nat → Bool) (hpos : 0 < p) :
    ∃ width, IsLastWidth nlist p complete width := by
  obtain ⟨gap, hgap⟩ : ∃ gap, nlist - p ≤ gap := ⟨_, le_rfl⟩
  induction gap generalizing p with
  | zero => exact ⟨p, isLastWidth_stop (.inr (by omega))⟩
  | succ gap ih =>
    by_cases hstop : complete p = true ∨ nlist ≤ p
    · exact ⟨p, isLastWidth_stop hstop⟩
    · obtain ⟨hincomplete, hlt⟩ := not_or.mp hstop
      obtain ⟨width, hwidth⟩ := @ih (min (p * 2) nlist) (by omega) (by omega)
      exact ⟨width, (isLastWidth_step (Bool.not_eq_true _ ▸ hincomplete) (by omega)).mpr hwidth⟩

theorem IsLastWidth.le (h : IsLastWidth nlist p complete width) : p ≤ width := by
  obtain ⟨round, rfl, -, hbefore⟩ := h
  induction round with
  | zero => exact le_rfl
  | succ round ih =>
    have hle := ih fun earlier hearlier => hbefore earlier (by omega)
    have hlt := (hbefore round (Nat.lt_succ_self round)).2
    rw [probeWidth]
    omega

theorem IsLastWidth.le_nlist (h : IsLastWidth nlist p complete width) (hle : p ≤ nlist) :
    width ≤ nlist := by
  obtain ⟨round, rfl, -, -⟩ := h
  cases round with
  | zero => exact hle
  | succ round => exact Nat.min_le_right _ _

end Widths

/-- The queries are scanned one by one: a range that starts where the given
results end yields the results of both ranges together. -/
structure ScansByQuery (search : BatchScan K → Effect IoError σ (List Int64 × List K))
    (scan : List K → Nat → List Int64 × List K) (nlist dimension topK : Nat) : Prop where
  ids_length : ∀ query probeEnd, query.length = dimension → (scan query probeEnd).1.length = topK
  distances_length : ∀ query probeEnd, query.length = dimension →
    (scan query probeEnd).2.length = topK
  first : ∀ (batch : List (List K)) (probeEnd : Nat), (∀ query ∈ batch, query.length = dimension) →
    (search ⟨batch.flatten, batch.length, 0, probeEnd, [], []⟩).Total (fun _ => True) fun r _ =>
      r = (batch.flatMap fun query => (scan query probeEnd).1,
        batch.flatMap fun query => (scan query probeEnd).2)
  seeded : ∀ (batch : List (List K)) (probeStart probeEnd : Nat),
    (∀ query ∈ batch, query.length = dimension) → 0 < probeStart → probeStart < probeEnd →
      probeEnd ≤ nlist →
    (search ⟨batch.flatten, batch.length, probeStart, probeEnd,
      batch.flatMap fun query => (scan query probeStart).1,
      batch.flatMap fun query => (scan query probeStart).2⟩).Total (fun _ => True) fun r _ =>
      r = (batch.flatMap fun query => (scan query probeEnd).1,
        batch.flatMap fun query => (scan query probeEnd).2)

def recorded (search : BatchScan K → Effect IoError σ (List Int64 × List K))
    (call : BatchScan K) : Effect IoError (σ × List (BatchScan K)) (List Int64 × List K) :=
  fun state => (((search call).run state.1).1, ((search call).run state.1).2, state.2 ++ [call])

theorem recorded_total {search : BatchScan K → Effect IoError σ (List Int64 × List K)}
    {call : BatchScan K} {r : List Int64 × List K} {P : BatchScan K → Prop}
    (h : (search call).Total (fun _ => True) fun out _ => out = r) (hcall : P call) :
    (recorded search call).Total (fun state => ∀ c ∈ state.2, P c)
      fun out state => out = r ∧ ∀ c ∈ state.2, P c := by
  intro state hstate
  obtain ⟨out, s', hrun, hout⟩ := h state.1 trivial
  refine ⟨out, (s', state.2 ++ [call]), ?_, hout, ?_⟩
  · change (((search call).run state.1).1, ((search call).run state.1).2, _) = _
    rw [hrun]
  · intro c hc
    rcases mem_append.mp hc with hold | hnew
    · exact hstate c hold
    · rw [mem_singleton.mp hnew]
      exact hcall

variable {i : Nat} {rows : Nat → List Int64 × List K} {chunk : List Nat}

section Rows

variable {n topK required : Nat}

/-- The results of `n` queries, one after the other. -/
def flatRows (n : Nat) (rows : Nat → List Int64 × List K) : List Int64 × List K :=
  ((List.range n).flatMap fun i => (rows i).1, (List.range n).flatMap fun i => (rows i).2)

/-- All rows have `topK` entries. -/
def Full (n topK : Nat) (rows : Nat → List Int64 × List K) : Prop :=
  ∀ i < n, (rows i).1.length = topK ∧ (rows i).2.length = topK

/-- The rows after those of the queries in `changed` were replaced. -/
def patch (changed : List Nat) (new old : Nat → List Int64 × List K) (i : Nat) :
    List Int64 × List K :=
  if i ∈ changed then new i else old i

variable {changed : List Nat} {f : Nat → List α} {old : Nat → List Int64 × List K}

variable {new : Nat → List Int64 × List K}

theorem patch_of_mem (h : i ∈ changed) :
    patch changed new old i = new i := if_pos h

theorem patch_of_notMem (h : i ∉ changed) :
    patch changed new old i = old i := if_neg h

theorem patch_cons (i : Nat) (changed : List Nat) (new old : Nat → List Int64 × List K) :
    patch (i :: changed) new old = patch changed new (update old i (new i)) := by
  funext j
  by_cases hj : j ∈ changed
  · rw [patch_of_mem (mem_cons_of_mem _ hj), patch_of_mem hj]
  · rw [patch_of_notMem hj]
    by_cases hji : j = i
    · rw [hji, patch_of_mem mem_cons_self, update_self]
    · rw [patch_of_notMem (by simp [hji, hj]), update_of_ne hji]

theorem patch_append (first second : List Nat) (new old : Nat → List Int64 × List K) :
    patch (first ++ second) new old = patch second new (patch first new old) := by
  funext j
  by_cases hj : j ∈ second
  · rw [patch_of_mem (mem_append_right _ hj), patch_of_mem hj]
  · simp [patch, hj]

@[simp] theorem patch_nil (new old : Nat → List Int64 × List K) : patch [] new old = old :=
  funext fun _ => patch_of_notMem not_mem_nil

theorem Full.patch (hnew : Full n topK new) (hold : Full n topK old) :
    Full n topK (patch changed new old) := by
  intro i hi
  by_cases hmem : i ∈ changed
  · rw [patch_of_mem hmem]
    exact hnew i hi
  · rw [patch_of_notMem hmem]
    exact hold i hi

theorem Full.update {row : List Int64 × List K} (h : Full n topK rows) (hids : row.1.length = topK)
    (hdistances : row.2.length = topK) : Full n topK (update rows i row) := by
  intro j hj
  by_cases hji : j = i
  · rw [hji, update_self]
    exact ⟨hids, hdistances⟩
  · rw [update_of_ne hji]
    exact h j hj

theorem flatRows_congr {rows' : Nat → List Int64 × List K} (h : ∀ i < n, rows i = rows' i) :
    flatRows n rows = flatRows n rows' := by
  have hids : ∀ i ∈ List.range n, (rows i).1 = (rows' i).1 :=
    fun i hi => congrArg Prod.fst (h i (mem_range.mp hi))
  have hdistances : ∀ i ∈ List.range n, (rows i).2 = (rows' i).2 :=
    fun i hi => congrArg Prod.snd (h i (mem_range.mp hi))
  exact Prod.ext (flatMap_congr hids) (flatMap_congr hdistances)

theorem rowAt_flatMap {l : List Nat} {k : Nat} (h : ∀ x ∈ l, (f x).length = k) (hi : i < l.length) :
    rowAt (l.flatMap f) k i = .ok (f l[i]) := by
  rw [rowAt, getRange_flatMap h hi, okOr_some]

theorem packRows_flatMap {k : Nat} (h : ∀ i < n, (f i).length = k) (hchunk : ∀ i ∈ chunk, i < n) :
    packRows ((List.range n).flatMap f) k chunk = .ok (chunk.flatMap f) := by
  have hwidth : ∀ i ∈ List.range n, (f i).length = k := fun i hi => h i (mem_range.mp hi)
  have hrows : chunk.mapM (rowAt ((List.range n).flatMap f) k) = .ok (chunk.map f) := by
    refine mapM_eq_ok_map fun i hi => ?_
    rw [rowAt_flatMap hwidth (by simpa using hchunk i hi), getElem_range]
  rw [packRows, hrows, ok_bind, pure_eq_ok, ← flatMap_def]

theorem copyRow_flatMap {k : Nat} {row : List α} (h : ∀ i < n, (f i).length = k) (hi : i < n)
    (hrow : row.length = k) :
    copyRow ((List.range n).flatMap f) k i row =
      .ok ((List.range n).flatMap (update f i row)) := by
  rw [copyRow, overwrite_rows h hi hrow, okOr_some]

theorem flatRows_update (rows : Nat → List Int64 × List K) (i : Nat) (row : List Int64 × List K) :
    flatRows n (update rows i row) =
      ((List.range n).flatMap (update (fun j => (rows j).1) i row.1),
        (List.range n).flatMap (update (fun j => (rows j).2) i row.2)) := by
  have hids := comp_update Prod.fst rows i row
  have hdistances := comp_update Prod.snd rows i row
  exact congrArg₂ Prod.mk (congrArg (List.range n).flatMap hids)
    (congrArg (List.range n).flatMap hdistances)

variable [Scalar K] {round : List Int64 × List K} {rows new : Nat → List Int64 × List K}
  {next : List Nat}

theorem storeRow_eq {j : Nat} (hrows : Full n topK rows) (hnew : Full n topK new) (hi : i < n)
    (hids : rowAt round.1 topK j = .ok (new i).1)
    (hdistances : rowAt round.2 topK j = .ok (new i).2) :
    storeRow topK required round (flatRows n rows, next) (i, j) =
      .ok (flatRows n (update rows i (new i)),
        if ivfSearchResultIsComplete (new i).2 required then next else next ++ [i]) := by
  have hcopyIds := copyRow_flatMap (fun k hk => (hrows k hk).1) hi (hnew i hi).1
  have hcopyDistances := copyRow_flatMap (fun k hk => (hrows k hk).2) hi (hnew i hi).2
  rw [storeRow, hids, ok_bind, flatRows, hcopyIds, ok_bind, hdistances, ok_bind, hcopyDistances,
    ok_bind, pure_eq_ok, flatRows_update]

def stillActive (required : Nat) (new : Nat → List Int64 × List K) (l : List Nat) : List Nat :=
  l.filter fun i => !ivfSearchResultIsComplete (new i).2 required

theorem storeRows_eq {entries : List (Nat × Nat)} (hrows : Full n topK rows)
    (hnew : Full n topK new)
    (hentries : ∀ e ∈ entries, e.1 < n ∧ rowAt round.1 topK e.2 = .ok (new e.1).1 ∧
      rowAt round.2 topK e.2 = .ok (new e.1).2) :
    entries.foldlM (storeRow topK required round) (flatRows n rows, next) =
      .ok (flatRows n (patch (entries.map Prod.fst) new rows),
        next ++ stillActive required new (entries.map Prod.fst)) := by
  induction entries generalizing rows next with
  | nil =>
    simp [stillActive]
  | cons e rest ih =>
    obtain ⟨hlt, hids, hdistances⟩ := hentries e mem_cons_self
    have hupdated := hrows.update (i := e.1) (hnew e.1 hlt).1 (hnew e.1 hlt).2
    rw [foldlM_cons, storeRow_eq hrows hnew hlt hids hdistances, ok_bind,
      ih hupdated fun e' he' => hentries e' (mem_cons_of_mem _ he'), map_cons,
      patch_cons]
    by_cases hcomplete : ivfSearchResultIsComplete (new e.1).2 required = true
    · simp [stillActive, hcomplete]
    · simp [stillActive, hcomplete]

end Rows

variable {width : Nat → Nat}

section Rounds

variable [Scalar K] {search : BatchScan K → Effect IoError σ (List Int64 × List K)}
  {scan : List K → Nat → List Int64 × List K} {query : Nat → List K}
  {n dimension topK required p p' : Nat} {chunk : List Nat} {Inv : σ → Prop}

def scanRows (scan : List K → Nat → List Int64 × List K) (query : Nat → List K) (p : Nat)
    (chunk : List Nat) : List Int64 × List K :=
  (chunk.flatMap fun i => (scan (query i) p).1, chunk.flatMap fun i => (scan (query i) p).2)

/-- The call that carries the queries of a chunk on from `p` to `p'`. -/
def nextScan (scan : List K → Nat → List Int64 × List K) (query : Nat → List K) (p p' : Nat)
    (chunk : List Nat) : BatchScan K :=
  ⟨chunk.flatMap query, chunk.length, p, p', (scanRows scan query p chunk).1,
    (scanRows scan query p chunk).2⟩

variable {rows : Nat → List Int64 × List K}

theorem storeChunk_eq {next : List Nat} (hrows : Full n topK rows)
    (hnew : Full n topK fun i => scan (query i) p') (hchunk : ∀ i ∈ chunk, i < n) :
    chunk.zipIdx.foldlM (storeRow topK required (scanRows scan query p' chunk))
        (flatRows n rows, next) =
      .ok (flatRows n (patch chunk (fun i => scan (query i) p') rows),
        next ++ stillActive required (fun i => scan (query i) p') chunk) := by
  have hentries : ∀ e ∈ chunk.zipIdx, e.1 < n ∧
      rowAt (scanRows scan query p' chunk).1 topK e.2 = .ok (scan (query e.1) p').1 ∧
      rowAt (scanRows scan query p' chunk).2 topK e.2 = .ok (scan (query e.1) p').2 := by
    rintro ⟨i, j⟩ hmem
    obtain ⟨hlt, hij⟩ := mem_zipIdx' hmem
    rw [hij]
    refine ⟨hchunk _ (getElem_mem hlt), ?_, ?_⟩
    · exact rowAt_flatMap (fun i hi => (hnew i (hchunk i hi)).1) hlt
    · exact rowAt_flatMap (fun i hi => (hnew i (hchunk i hi)).2) hlt
  rw [storeRows_eq hrows hnew hentries, zipIdx_map_fst]

/-- Whether the result of a query is complete after `p` lists. -/
def completeAt (scan : List K → Nat → List Int64 × List K) (required : Nat) (query : List K)
    (p : Nat) : Bool :=
  ivfSearchResultIsComplete (scan query p).2 required

theorem mem_stillActive {l : List Nat} :
    i ∈ stillActive required (fun i => scan (query i) p) l ↔
      i ∈ l ∧ completeAt scan required (query i) p = false := by
  simp [stillActive, completeAt]

theorem patch_stillActive {nlist : Nat} {active : List Nat}
    (hwidth : ∀ i ∈ active, IsLastWidth nlist p (completeAt scan required (query i)) (width i)) :
    patch (stillActive required (fun i => scan (query i) p) active)
        (fun i => scan (query i) (width i)) (patch active (fun i => scan (query i) p) rows) =
      patch active (fun i => scan (query i) (width i)) rows := by
  funext i
  by_cases hi : i ∈ active
  · rw [patch_of_mem hi]
    by_cases hcomplete : completeAt scan required (query i) p = true
    · have hout : i ∉ stillActive required (fun i => scan (query i) p) active := by
        simp [mem_stillActive, hcomplete]
      rw [patch_of_notMem hout, patch_of_mem hi, (hwidth i hi).eq_of_stop (.inl hcomplete)]
    · exact patch_of_mem (mem_stillActive.mpr ⟨hi, Bool.not_eq_true _ ▸ hcomplete⟩)
  · have hout : i ∉ stillActive required (fun i => scan (query i) p) active :=
      fun hmem => hi (mem_stillActive.mp hmem).1
    rw [patch_of_notMem hout, patch_of_notMem hi, patch_of_notMem hi]

variable {queries : List K} {next : List Nat} (hqueries : queries = (List.range n).flatMap query)
  (hdimension : ∀ i < n, (query i).length = dimension)

include hqueries hdimension

theorem retryChunk_total (hrows : Full n topK rows)
    (hnew : Full n topK fun i => scan (query i) p') (hchunk : ∀ i ∈ chunk, i < n)
    (hold : ∀ i ∈ chunk, rows i = scan (query i) p)
    (hscan : (search (nextScan scan query p p' chunk)).Total Inv fun r s =>
      r = scanRows scan query p' chunk ∧ Inv s) :
    (retryChunk search queries dimension topK required p p' (flatRows n rows, next) chunk).Total Inv
      fun r s => r = (flatRows n (patch chunk (fun i => scan (query i) p') rows),
        next ++ stillActive required (fun i => scan (query i) p') chunk) ∧ Inv s := by
  have hpacked : packRows queries dimension chunk = .ok (chunk.flatMap query) := by
    rw [hqueries]
    exact packRows_flatMap hdimension hchunk
  have hids : packRows (flatRows n rows).1 topK chunk = .ok (scanRows scan query p chunk).1 := by
    rw [flatRows, packRows_flatMap (fun i hi => (hrows i hi).1) hchunk, scanRows]
    exact congrArg _ (flatMap_congr fun i hi => congrArg Prod.fst (hold i hi))
  have hdistances :
      packRows (flatRows n rows).2 topK chunk = .ok (scanRows scan query p chunk).2 := by
    rw [flatRows, packRows_flatMap (fun i hi => (hrows i hi).2) hchunk, scanRows]
    exact congrArg _ (flatMap_congr fun i hi => congrArg Prod.snd (hold i hi))
  refine total_bind_eq (total_lift hpacked) ?_
  refine total_bind_eq (total_lift hids) ?_
  refine total_bind_eq (total_lift hdistances) ?_
  refine total_bind_eq hscan ?_
  exact total_lift (storeChunk_eq hrows hnew hchunk)

theorem retryChunks_total {pieces : List (List Nat)} (hrows : Full n topK rows)
    (hnew : Full n topK fun i => scan (query i) p') (hpieces : ∀ i ∈ pieces.flatten, i < n)
    (hnodup : pieces.flatten.Nodup) (hold : ∀ i ∈ pieces.flatten, rows i = scan (query i) p)
    (hscan : ∀ chunk ∈ pieces, (search (nextScan scan query p p' chunk)).Total Inv fun r s =>
      r = scanRows scan query p' chunk ∧ Inv s) :
    (pieces.foldlM (retryChunk search queries dimension topK required p p')
      (flatRows n rows, next)).Total Inv
      fun r s => r = (flatRows n (patch pieces.flatten (fun i => scan (query i) p') rows),
        next ++ stillActive required (fun i => scan (query i) p') pieces.flatten) ∧ Inv s := by
  induction pieces generalizing rows next with
  | nil =>
    refine total_pure fun s hs => ⟨?_, hs⟩
    simp [stillActive]
  | cons chunk rest ih =>
    rw [flatten_cons] at hpieces hnodup hold ⊢
    obtain ⟨-, hnodupRest, hdisjoint⟩ := nodup_append.mp hnodup
    rw [foldlM_cons]
    refine total_bind_eq (retryChunk_total hqueries hdimension hrows hnew
      (fun i hi => hpieces i (mem_append_left _ hi))
      (fun i hi => hold i (mem_append_left _ hi)) (hscan chunk mem_cons_self)) ?_
    have hrest := @ih (patch chunk (fun i => scan (query i) p') rows)
      (next ++ stillActive required (fun i => scan (query i) p') chunk)
      (hnew.patch hrows) (fun i hi => hpieces i (mem_append_right _ hi))
      hnodupRest ?_ (fun c hc => hscan c (mem_cons_of_mem _ hc))
    · rw [patch_append]
      simpa only [stillActive, filter_append, append_assoc] using hrest
    · intro i hi
      rw [patch_of_notMem fun hmem => hdisjoint i hmem i hi rfl]
      exact hold i (mem_append_right _ hi)

theorem batchRounds_total {nlist limit rounds : Nat} {active : List Nat}
    (hscanned : ∀ p, Full n topK fun i => scan (query i) p)
    (hscan : ∀ chunk p p', (∀ i ∈ chunk, i < n ∧ p' ≤ width i) → 0 < p → p < p' → p' ≤ nlist →
      (search (nextScan scan query p p' chunk)).Total Inv fun r s => r =
      scanRows scan query p' chunk ∧ Inv s) (hpos : 0 < p) (hrounds : nlist - p < rounds)
    (hrows : Full n topK rows) (hactive : ∀ i ∈ active, i < n) (hnodup : active.Nodup)
    (hold : ∀ i ∈ active, rows i = scan (query i) p)
    (hincomplete : ∀ i ∈ active, completeAt scan required (query i) p = false)
    (hwidth : ∀ i ∈ active, IsLastWidth nlist p (completeAt scan required (query i)) (width i)) :
    (batchRounds search nlist queries dimension topK required limit rounds p active
      (flatRows n rows)).Total Inv fun r s =>
        r = some (flatRows n (patch active (fun i => scan (query i) (width i)) rows)) ∧ Inv s := by
  induction rounds generalizing p rows active with
  | zero => omega
  | succ rounds ih =>
    rw [batchRounds]
    by_cases hstop : nlist ≤ p ∨ required = 0 ∨ active = []
    · -- The active queries have their last result already.
      have hsame : patch active (fun i => scan (query i) (width i)) rows = rows := by
        funext i
        by_cases hi : i ∈ active
        · have hend : nlist ≤ p := by
            rcases hstop with hle | hzero | hempty
            · exact hle
            · have := hincomplete i hi
              simp [completeAt, ivfSearchResultIsComplete, hzero] at this
            · rw [hempty] at hi
              exact absurd hi not_mem_nil
          rw [patch_of_mem hi, (hwidth i hi).eq_of_stop (.inr hend), hold i hi]
        · exact patch_of_notMem hi
      rw [if_pos hstop, hsame]
      exact total_pure fun s hs => ⟨rfl, hs⟩
    · obtain ⟨hlt, -, hnonempty⟩ := not_or.mp hstop |>.imp_right not_or.mp
      rw [if_neg hstop]
      have hlt : p < nlist := Nat.not_le.mp hlt
      have hnext : ∀ i ∈ active, IsLastWidth nlist (min (p * 2) nlist)
          (completeAt scan required (query i)) (width i) :=
        fun i hi => (isLastWidth_step (hincomplete i hi) hlt).mp (hwidth i hi)
      have hpieces : (chunks (retryChunkSize limit dimension topK active.length) active).flatten =
          active :=
            chunks_flatten (Nat.lt_of_lt_of_le Nat.zero_lt_one (Nat.le_max_right _ _)) active
      refine total_bind_eq (retryChunks_total hqueries hdimension hrows (hscanned _)
        (hpieces.symm ▸ hactive) (hpieces.symm ▸ hnodup) (hpieces.symm ▸ hold) ?_) ?_
      · intro chunk hchunk
        refine hscan chunk p (min (p * 2) nlist) (fun i hi => ?_) hpos (by omega) (by omega)
        have hmem : i ∈ active := hpieces ▸ mem_flatten.mpr ⟨chunk, hchunk, hi⟩
        exact ⟨hactive i hmem, (hnext i hmem).le⟩
      · rw [hpieces, nil_append]
        refine patch_stillActive hnext ▸ ih (by omega) (by omega) ((hscanned _).patch hrows) ?_
          (hnodup.filter _) ?_ ?_ ?_
        · exact fun i hi => hactive i (mem_stillActive.mp hi).1
        · exact fun i hi => patch_of_mem (mem_stillActive.mp hi).1
        · exact fun i hi => (mem_stillActive.mp hi).2
        · exact fun i hi => hnext i (mem_stillActive.mp hi).1

end Rounds

section Batch

variable {search : BatchScan K → Effect IoError σ (List Int64 × List K)}
  {scan : List K → Nat → List Int64 × List K} {params : VectorSearchParams} {queries : List K}
  {nlist initial n dimension topK available limit : Nat}

def queryAt (queries : List K) (dimension i : Nat) : List K :=
  (queries.drop (i * dimension)).take dimension

section

variable (hlength : queries.length = n * dimension)

include hlength

theorem queryAt_length (hi : i < n) :
    (queryAt queries dimension i).length = dimension := by
  have hle : i * dimension + dimension ≤ n * dimension := by
    rw [← Nat.succ_mul]
    exact Nat.mul_le_mul_right dimension hi
  rw [queryAt, length_take, length_drop, hlength]
  omega

theorem flatMap_queryAt :
    (List.range n).flatMap (queryAt queries dimension) = queries := by
  have hrows := flatMap_rows queries n dimension
  rwa [← hlength, take_length] at hrows

theorem ScansByQuery.full (h : ScansByQuery search scan nlist dimension topK) (p : Nat) :
    Full n topK fun i => scan (queryAt queries dimension i) p := by
  intro i hi
  have hquery := queryAt_length hlength hi
  exact ⟨h.ids_length _ p hquery, h.distances_length _ p hquery⟩

theorem queryAt_length_of_mem (hchunk : ∀ i ∈ chunk, i < n) :
    ∀ query ∈ chunk.map (queryAt queries dimension), query.length = dimension := by
  simp only [mem_map, forall_exists_index, and_imp, forall_apply_eq_imp_iff₂]
  exact fun i hi => queryAt_length hlength (hchunk i hi)

theorem ScansByQuery.nextScan (h : ScansByQuery search scan nlist dimension topK)
    (hchunk : ∀ i ∈ chunk, i < n) {p p' : Nat} (hpos : 0 < p) (hlt : p < p') (hle : p' ≤ nlist) :
    (search (nextScan scan (queryAt queries dimension) p p' chunk)).Total (fun _ => True)
      fun r _ => r = scanRows scan (queryAt queries dimension) p' chunk := by
  have hseeded := h.seeded _ p p' (queryAt_length_of_mem hlength hchunk) hpos hlt hle
  simp only [length_map, flatMap_map, ← flatMap_def] at hseeded
  exact hseeded

theorem ScansByQuery.firstScan (h : ScansByQuery search scan nlist dimension topK) (p : Nat) :
    (search ⟨queries, n, 0, p, [], []⟩).Total (fun _ => True)
      fun r _ => r = scanRows scan (queryAt queries dimension) p (List.range n) := by
  have hfirst := h.first _ p (queryAt_length_of_mem hlength fun _ => mem_range.mp)
  simp only [length_map, length_range, flatMap_map, ← flatMap_def,
    flatMap_queryAt hlength] at hfirst
  exact hfirst

end

variable [Scalar K]

theorem incompleteQueries_flatRows {required : Nat} (hk : 0 < topK) (hrows : Full n topK rows) :
    incompleteQueries n topK required (flatRows n rows).2 =
      stillActive required rows (List.range n) := by
  have hchunks : chunksExact topK (flatRows n rows).2 = (List.range n).map fun i => (rows i).2 :=
    chunksExact_flatMap hk fun i hi => (hrows i (mem_range.mp hi)).2
  have hindexed : ((List.range n).map fun i => (rows i).2).zipIdx =
      (List.range n).map fun i => ((rows i).2, i) :=
    ext_getElem (by simp) fun i _ _ => by simp
  rw [incompleteQueries, hchunks, take_of_length_le (by simp), hindexed, filterMap_map,
    stillActive, ← filterMap_eq_filter]
  refine filterMap_congr fun i _ => ?_
  by_cases hcomplete : ivfSearchResultIsComplete (rows i).2 required = true
  · simp [Option.guard, hcomplete]
  · simp [Option.guard, hcomplete]

theorem batchSearch_total {Inv : σ → Prop} {rounds : Nat} (hauto : params.searchWidth = .auto)
    (hinitial : 0 < initial) (hk : 0 < topK) (hn : 0 < n) (hlength : queries.length = n * dimension)
    (hscanned : ∀ p, Full n topK fun i => scan (queryAt queries dimension i) p)
    (hwidth : ∀ i < n,
      IsLastWidth nlist initial (completeAt scan (min topK available) (queryAt queries dimension i))
      (width i))
    (hfirst : (search ⟨queries, n, 0, initial, [], []⟩).Total Inv fun r s => r =
      scanRows scan (queryAt queries dimension) initial (List.range n) ∧ Inv s)
    (hscan : ∀ chunk p p', (∀ i ∈ chunk, i < n ∧ p' ≤ width i) → 0 < p → p < p' → p' ≤ nlist →
      (search (nextScan scan (queryAt queries dimension) p p' chunk)).Total Inv fun r s => r =
      scanRows scan (queryAt queries dimension) p' chunk ∧ Inv s)
    (hrounds : nlist - initial < rounds) :
    (progressiveIvfBatchSearchWithRetryBufferLimit search params nlist initial queries n topK
      available limit rounds).Total Inv fun r s =>
        r = some (flatRows n fun i => scan (queryAt queries dimension i) (width i)) ∧ Inv s := by
  have hdimension : queries.length / n = dimension := by
    rw [hlength, Nat.mul_div_cancel_left _ hn]
  rw [progressiveIvfBatchSearchWithRetryBufferLimit, if_neg (by simp [hauto])]
  refine total_bind_eq (total_lift (rejectIf_of_not hn.ne')) ?_
  refine total_bind_eq hfirst ?_
  change (batchRounds search nlist queries (queries.length / n) topK (min topK available) limit
    rounds initial (incompleteQueries n topK (min topK available) (flatRows n fun i =>
      scan (queryAt queries dimension i) initial).2) (flatRows n fun i =>
        scan (queryAt queries dimension i) initial)).Total Inv _
  rw [hdimension, incompleteQueries_flatRows hk (hscanned initial)]
  -- A query that is complete at once has its first width as the last one.
  have hfinal : flatRows n (patch (stillActive (min topK available)
        (fun i => scan (queryAt queries dimension i) initial) (List.range n))
      (fun i => scan (queryAt queries dimension i) (width i))
      fun i => scan (queryAt queries dimension i) initial) =
      flatRows n fun i => scan (queryAt queries dimension i) (width i) := by
    refine flatRows_congr fun i hi => ?_
    by_cases hactive : i ∈ stillActive (min topK available)
        (fun i => scan (queryAt queries dimension i) initial) (List.range n)
    · exact patch_of_mem hactive
    · have hcomplete :
          completeAt scan (min topK available) (queryAt queries dimension i) initial = true := by
        by_contra hnot
        exact hactive (mem_stillActive.mpr ⟨mem_range.mpr hi, Bool.not_eq_true _ ▸ hnot⟩)
      rw [patch_of_notMem hactive, (hwidth i hi).eq_of_stop (.inl hcomplete)]
  rw [← hfinal]
  exact batchRounds_total (flatMap_queryAt hlength).symm (fun i hi => queryAt_length hlength hi)
    hscanned hscan hinitial hrounds (hscanned initial)
    (fun i hi => mem_range.mp (mem_stillActive.mp hi).1) (nodup_range.filter _)
    (fun _ _ => rfl) (fun i hi => (mem_stillActive.mp hi).2)
    fun i hi => hwidth i (mem_range.mp (mem_stillActive.mp hi).1)

theorem isLastRound_single {required p : Nat} {distances : List K} (hk : 0 < topK)
    (hauto : params.searchWidth = .auto) (hfull : distances.length = topK) :
    isLastRound params nlist 1 topK required p distances = true ↔
      ivfSearchResultIsComplete distances required = true ∨ nlist ≤ p := by
  have hchunks : chunksExact topK distances = [distances] := chunksExact_of_length hk hfull
  have hzero : required = 0 → ivfSearchResultIsComplete distances required = true := by
    rintro rfl
    simp [ivfSearchResultIsComplete]
  simp only [isLastRound, hchunks, hauto, ne_eq, not_true_eq_false, false_or, decide_eq_true_eq,
    take_succ_cons, take_zero, all_cons, all_nil, Bool.and_true]
  tauto

theorem progressiveIvfSearch_single {query : List K} {rounds p width : Nat} (hk : 0 < topK)
    (hauto : params.searchWidth = .auto) (hfull : ∀ p, (scan query p).2.length = topK)
    (hpos : 0 < p) (hrounds : nlist - p < rounds)
    (hwidth : IsLastWidth nlist p (completeAt scan (min topK available) query) width) :
    progressiveIvfSearch params nlist 1 topK available (fun p => .ok (scan query p)) rounds p =
      .ok (some ⟨width, (scan query width).1, (scan query width).2⟩) := by
  induction rounds generalizing p with
  | zero => omega
  | succ rounds ih =>
    rw [progressiveIvfSearch, ok_bind]
    have hlast : isLastRound params nlist 1 topK (min topK available) p (scan query p).2 = true ↔
        completeAt scan (min topK available) query p = true ∨ nlist ≤ p :=
      isLastRound_single hk hauto (hfull p)
    by_cases hstop : completeAt scan (min topK available) query p = true ∨ nlist ≤ p
    · rw [if_pos (hlast.mpr hstop), hwidth.eq_of_stop hstop, pure_eq_ok]
    · rw [if_neg fun h => hstop (hlast.mp h)]
      obtain ⟨hincomplete, hlt⟩ := not_or.mp hstop
      have hnext := (isLastWidth_step (Bool.not_eq_true _ ▸ hincomplete) (Nat.not_le.mp hlt)).mp
        hwidth
      exact ih (by omega) (by omega) hnext

def ScansWithin (queries : List K) (dimension n : Nat) (width : Nat → Nat) (call : BatchScan K) :
    Prop :=
  ∃ chunk : List Nat, call.queries = chunk.flatMap (queryAt queries dimension) ∧
    call.queryCount = chunk.length ∧ ∀ i ∈ chunk, i < n ∧ call.probeEnd ≤ width i

/-- In an automatic batch every query gets the result it would get alone: that of
the first width in the doubling sequence at which it is complete or all lists
are probed. The calls of the scan, which `recorded` lists, take no query
further than that, whatever the size of the retry buffer. -/
theorem batch_search_is_single_searches (hauto : params.searchWidth = .auto)
    (hinitial : 0 < initial) (hk : 0 < topK) (hn : 0 < n)
    (hlength : queries.length = n * dimension)
    (hscan : ScansByQuery search scan nlist dimension topK) :
    ∃ width : Nat → Nat,
      (∀ i < n, IsLastWidth nlist initial
        (completeAt scan (min topK available) (queryAt queries dimension i)) (width i) ∧
        (initial ≤ nlist → width i ≤ nlist)) ∧
      ∀ rounds, nlist - initial < rounds →
        (∀ i < n, progressiveIvfSearch params nlist 1 topK available
            (fun p => .ok (scan (queryAt queries dimension i) p)) rounds initial =
          .ok (some ⟨width i, (scan (queryAt queries dimension i) (width i)).1,
            (scan (queryAt queries dimension i) (width i)).2⟩)) ∧
        (∀ s, ∃ s', (progressiveIvfBatchSearchWithRetryBufferLimit search params nlist initial
            queries n topK available limit rounds).run s =
          (.ok (some (flatRows n fun i => scan (queryAt queries dimension i) (width i))), s')) ∧
        ∀ s, ∃ s' calls, (progressiveIvfBatchSearchWithRetryBufferLimit (recorded search) params
            nlist initial queries n topK available limit rounds).run (s, []) =
          (.ok (some (flatRows n fun i => scan (queryAt queries dimension i) (width i))),
            (s', calls)) ∧
          ∀ call ∈ calls, ScansWithin queries dimension n width call := by
  have hexists : ∀ i, ∃ w, IsLastWidth nlist initial
      (completeAt scan (min topK available) (queryAt queries dimension i)) w :=
    fun i => exists_isLastWidth nlist _ hinitial
  choose width hwidth using hexists
  refine ⟨width, fun i _ => ⟨hwidth i, (hwidth i).le_nlist⟩, fun rounds hrounds => ⟨?_, ?_, ?_⟩⟩
  · intro i hi
    exact progressiveIvfSearch_single hk hauto
      (fun p => (hscan.full hlength p i hi).2) hinitial hrounds (hwidth i)
  · intro s
    have hfirst : (search ⟨queries, n, 0, initial, [], []⟩).Total (fun _ => True) fun r _ =>
        r = scanRows scan (queryAt queries dimension) initial (List.range n) ∧ True :=
      (hscan.firstScan hlength initial).imp fun _ _ hr => ⟨hr, trivial⟩
    obtain ⟨_, s', hrun, rfl, -⟩ := batchSearch_total hauto hinitial hk hn hlength
      (hscan.full hlength) (fun i _ => hwidth i) hfirst (fun chunk p p' hchunk hpos hlt hle =>
        (hscan.nextScan hlength (fun i hi => (hchunk i hi).1) hpos hlt hle).imp
          fun _ _ hr => ⟨hr, trivial⟩) hrounds s trivial
    exact ⟨s', hrun⟩
  · intro s
    have hstart : ScansWithin queries dimension n width ⟨queries, n, 0, initial, [], []⟩ :=
      ⟨List.range n, (flatMap_queryAt hlength).symm, length_range.symm,
        fun i hi => ⟨mem_range.mp hi, (hwidth i).le⟩⟩
    obtain ⟨_, s', hrun, rfl, hcalls⟩ := batchSearch_total hauto hinitial hk hn hlength
      (hscan.full hlength) (fun i _ => hwidth i)
      (recorded_total (hscan.firstScan hlength initial) hstart)
      (fun chunk p p' hchunk hpos hlt hle => recorded_total
        (hscan.nextScan hlength (fun i hi => (hchunk i hi).1) hpos hlt hle)
        ⟨chunk, rfl, rfl, hchunk⟩) hrounds (s, []) (fun _ hc => absurd hc not_mem_nil)
    exact ⟨s'.1, s'.2, hrun, hcalls⟩

def splitScan (scan : List K → Nat → List Int64 × List K) (dimension : Nat) (call : BatchScan K) :
    Effect IoError Unit (List Int64 × List K) :=
  let batch := chunksExact dimension call.queries
  pure (batch.flatMap fun query => (scan query call.probeEnd).1,
    batch.flatMap fun query => (scan query call.probeEnd).2)

omit [Scalar K] in
theorem splitScan_scansByQuery (hdimension : 0 < dimension)
    (hids : ∀ query p, (scan query p).1.length = topK)
    (hdistances : ∀ query p, (scan query p).2.length = topK) :
    ScansByQuery (splitScan scan dimension) scan nlist dimension topK := by
  have hsplit : ∀ batch : List (List K), (∀ query ∈ batch, query.length = dimension) →
      chunksExact dimension batch.flatten = batch := by
    intro batch hbatch
    have hchunks := chunksExact_flatMap (f := id) hdimension hbatch
    rwa [flatMap_id, map_id] at hchunks
  constructor
  · exact fun query p _ => hids query p
  · exact fun query p _ => hdistances query p
  · intro batch p hbatch
    refine total_pure fun _ _ => ?_
    rw [hsplit batch hbatch]
  · intro batch p p' hbatch _ _ _
    refine total_pure fun _ _ => ?_
    rw [hsplit batch hbatch]

def thresholdScan (query : List Rat) (p : Nat) : List Int64 × List Rat :=
  ([0], [if query.all fun x => decide (x ≤ (p : Rat)) then 0 else Scalar.maxValue])

def autoParams : VectorSearchParams :=
  { topK := 1, searchWidth := .auto, width := 0, maxInitialFilterExpansionFactor := none,
    ivfpqBatchTableReuseMaxBytes := 1 }

theorem batch_search_is_single_searches_two :
    ∃ width : Nat → Nat,
      (∀ i < 2, IsLastWidth 4 1
        (completeAt thresholdScan (min 1 1) (queryAt [1, 3] 1 i)) (width i) ∧
        (1 ≤ 4 → width i ≤ 4)) ∧
      ∀ rounds, 4 - 1 < rounds →
        (∀ i < 2, progressiveIvfSearch autoParams 4 1 1 1
            (fun p => .ok (thresholdScan (queryAt [1, 3] 1 i) p)) rounds 1 =
          .ok (some ⟨width i, (thresholdScan (queryAt [1, 3] 1 i) (width i)).1,
            (thresholdScan (queryAt [1, 3] 1 i) (width i)).2⟩)) ∧
        (∀ s, ∃ s', (progressiveIvfBatchSearchWithRetryBufferLimit (splitScan thresholdScan 1)
            autoParams 4 1 [1, 3] 2 1 1 0 rounds).run s =
          (.ok (some (flatRows 2 fun i => thresholdScan (queryAt [1, 3] 1 i) (width i))), s')) ∧
        ∀ s, ∃ s' calls, (progressiveIvfBatchSearchWithRetryBufferLimit
            (recorded (splitScan thresholdScan 1)) autoParams 4 1 [1, 3] 2 1 1 0 rounds).run
              (s, []) =
          (.ok (some (flatRows 2 fun i => thresholdScan (queryAt [1, 3] 1 i) (width i))),
            (s', calls)) ∧
          ∀ call ∈ calls, ScansWithin [1, 3] 1 2 width call :=
  batch_search_is_single_searches rfl Nat.one_pos Nat.one_pos Nat.two_pos rfl
    (splitScan_scansByQuery Nat.one_pos (fun _ _ => rfl) fun _ _ => rfl)

end Batch

end PaimonVindex
