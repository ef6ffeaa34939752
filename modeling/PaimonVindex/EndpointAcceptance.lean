import PaimonVindex.DistanceBand

/-! Which pairs of endpoints become a band. The linear axes take every pair that
is not inverted; the axis of squared distances compares the cuts, and refuses a
pair that leaves out exactly one root. -/

namespace PaimonVindex

open Checked DistanceBand

/-! ### What each axis makes of a pair -/

namespace DistanceBand

def isEmpty (band : DistanceBand) : Bool :=
  match band.lower, band.upper with
  | .finite low, .finite high => Scalar.ge low high
  | _, _ => false

def invertedBand (display32 : F32 → String) (low high : F32) : IoError :=
  invalidInput ("inverted band: [" ++ display32 low ++ ", " ++ display32 high ++ ")")

/-- Finite endpoints on their own sides, in order. -/
structure LegalPair (low high : DistanceEndpoint) : Prop where
  lowFinite : low.value.isFinite = true
  highFinite : high.value.isFinite = true
  lowOp : low.op = .ge ∨ low.op = .gt
  highOp : high.op = .le ∨ high.op = .lt
  ordered : low.value.le high.value = true

/-- No number passes both endpoints. -/
def Contradictory (low high : DistanceEndpoint) : Prop :=
  high.value.le low.value = true ∧ (low.op = .gt ∨ high.op = .lt)

variable {low high : DistanceEndpoint}

section

variable (h : LegalPair low high)

include h

theorem LegalPair.key_le : low.value.key ≤ high.value.key :=
  (F64.le_iff h.lowFinite h.highFinite).mp h.ordered

theorem LegalPair.reverse : LegalPair high.reverse low.reverse where
  lowFinite := (F64.isFinite_neg _).trans h.highFinite
  highFinite := (F64.isFinite_neg _).trans h.lowFinite
  lowOp := by
    rcases h.highOp with hop | hop <;> simp [DistanceEndpoint.reverse, hop]
  highOp := by
    rcases h.lowOp with hop | hop <;> simp [DistanceEndpoint.reverse, hop]
  ordered := by
    have hle := h.key_le
    have hlow : low.reverse.value.isFinite = true := (F64.isFinite_neg _).trans h.lowFinite
    have hhigh : high.reverse.value.isFinite = true := (F64.isFinite_neg _).trans h.highFinite
    rw [F64.le_iff hhigh hlow]
    simp only [DistanceEndpoint.reverse, F64.key_neg]
    omega

theorem Contradictory.key_le (hcontra : Contradictory low high) :
    high.value.key ≤ low.value.key :=
  (F64.le_iff h.highFinite h.lowFinite).mp hcontra.1

theorem Contradictory.reverse (hcontra : Contradictory low high) :
    Contradictory high.reverse low.reverse := by
  have hle := hcontra.key_le h
  constructor
  · rw [F64.le_iff h.reverse.highFinite h.reverse.lowFinite]
    simp only [DistanceEndpoint.reverse, F64.key_neg]
    omega
  · rcases hcontra.2 with hop | hop
    · exact .inr (by simp [DistanceEndpoint.reverse, hop])
    · exact .inl (by simp [DistanceEndpoint.reverse, hop])

theorem Contradictory.admits (hcontra : Contradictory low high)
    {distance : F64} (hdistance : distance.isFinite) (hlow : low.admits distance = true) :
    high.admits distance = true := by
  have hle := hcontra.key_le h
  rw [low.admits_iff h.lowFinite hdistance] at hlow
  rw [high.admits_iff h.highFinite hdistance]
  rcases h.highOp with hhigh | hhigh
  · have hgt : low.op = .gt := hcontra.2.resolve_right (by simp [hhigh])
    rw [hgt, if_neg (by simp)] at hlow
    rw [hhigh, if_neg (by simp)]
    omega
  · rw [hhigh, if_pos (.inr rfl)]
    split at hlow <;> omega

end

variable {metric : MetricType}

theorem fromRaw_finite {display32 : F32 → String} {cut cut' : F32} (hcut : cut.isFinite)
    (hcut' : cut'.isFinite) (hl2 : metric = .l2 → 0 ≤ cut.key ∧ 0 ≤ cut'.key) :
    fromRaw display32 (.finite cut) (.finite cut') metric =
      if cut'.key < cut.key then .error (invertedBand display32 cut cut')
      else .ok ⟨.finite cut, .finite cut', metric⟩ := by
  have hnan := F32.not_isNan_of_isFinite hcut
  have hnan' := F32.not_isNan_of_isFinite hcut'
  have hchecked : ∀ side, ∀ v : F32, v.isFinite = true → v.isNan = false →
      (metric = .l2 → 0 ≤ v.key) → checkCut display32 side metric (.finite v) = .ok () := by
    intro side v hfinite hnan hnonneg
    have hsign : ¬(metric = .l2 ∧ v.lt F32.zero = true) := by
      rintro ⟨hmetric, hlt⟩
      have hneg : v.key < 0 := by
        simp only [F32.lt, decide_eq_true_eq] at hlt
        exact hlt.2.2
      have := hnonneg hmetric
      omega
    simp only [checkCut]
    rw [rejectIf_bind (by simp [hfinite]), rejectIf_of_not hsign]
  have hlt : cut'.lt cut = decide (cut'.key < cut.key) := by
    simp [F32.lt, hnan, hnan']
  rw [fromRaw, hchecked "lower" cut hcut hnan fun hm => (hl2 hm).1, ok_bind,
    hchecked "upper" cut' hcut' hnan' fun hm => (hl2 hm).2, ok_bind, checkInverted]
  by_cases hinv : cut'.key < cut.key
  · rw [if_pos hinv, rejectIf_of (by simpa [hlt] using hinv)]
    rfl
  · rw [if_neg hinv, rejectIf_of_not (by simpa [hlt] using hinv)]
    rfl

theorem isEmpty_of_key_le {cut cut' : F32} (hcut : cut.isFinite) (hcut' : cut'.isFinite)
    (h : cut'.key ≤ cut.key) :
    (⟨.finite cut, .finite cut', metric⟩ : DistanceBand).isEmpty = true := by
  simp [isEmpty, Scalar.ge, F32.not_isNan_of_isFinite hcut, F32.not_isNan_of_isFinite hcut', h]

theorem fromLinearCuts_ok (display32 : F32 → String) (h : LegalPair low high)
    (hmetric : metric ≠ .l2) :
    ∃ band, fromLinearCuts display32 (some low) (some high) metric = .ok band ∧
      (Contradictory low high → band.isEmpty = true) := by
  have hzero : F32.zero.isFinite = true := rfl
  have hempty : ∃ band, fromRaw display32 (.finite F32.zero) (.finite F32.zero) metric = .ok band ∧
      (Contradictory low high → band.isEmpty = true) := by
    refine ⟨_, (fromRaw_finite hzero hzero fun hm => absurd hm hmetric).trans
      (if_neg (lt_irrefl _)), fun _ => isEmpty_of_key_le hzero hzero le_rfl⟩
  simp only [fromLinearCuts, Option.map_some, Option.bind_some]
  split
  · exact hempty
  · rename_i hproper
    simp only [not_or] at hproper
    obtain ⟨hsome, -, hcrossed⟩ := hproper
    cases hlow : firstLinearCut low with
    | none => exact absurd (by rw [hlow]) hsome
    | some cut =>
      obtain ⟨hcut, hiff⟩ := firstLinearCut_some h.lowFinite hlow
      have hadmits : low.admits (F64.ofF32 cut) = true := (hiff cut hcut).mpr le_rfl
      simp only [Option.join_some, Option.elim_some]
      cases hhigh : firstLinearCut high with
      | none =>
        -- Nothing is excluded, so the pair is no contradiction.
        have hcheck : fromRaw display32 (.finite cut) .unbounded metric =
            .ok ⟨.finite cut, .unbounded, metric⟩ := by
          simp [fromRaw, checkCut, checkInverted, hcut, hmetric, rejectIf_of_not]
        refine ⟨_, hcheck, fun hcontra => ?_⟩
        have hexcluded := hcontra.admits h (F64.isFinite_ofF32 hcut) hadmits
        rw [firstLinearCut_none h.highFinite hhigh hcut] at hexcluded
        cases hexcluded
      | some cut' =>
        obtain ⟨hcut', hiff'⟩ := firstLinearCut_some h.highFinite hhigh
        have hordered : ¬cut'.key < cut.key := by
          simpa [hlow, hhigh, F32.lt, F32.not_isNan_of_isFinite hcut,
            F32.not_isNan_of_isFinite hcut'] using hcrossed
        refine ⟨_, (fromRaw_finite hcut hcut' fun hm => absurd hm hmetric).trans
          (if_neg hordered), fun hcontra => ?_⟩
        exact isEmpty_of_key_le hcut hcut'
          ((hiff' cut hcut).mp (hcontra.admits h (F64.isFinite_ofF32 hcut) hadmits))

variable (display32 : F32 → String) (display64 : F64 → String)

theorem fromEndpoints_eq (h : LegalPair low high) (sqrt : F32 → F32) (metric : MetricType) :
    fromEndpoints display32 display64 sqrt (some low) (some high) metric =
      match metric with
      | .l2 => do
        let lowerBound ← resolve display64 (cutFinder sqrt) (some low)
        let upperBound ← resolve display64 (cutFinder sqrt) (some high)
        fromRaw display32 lowerBound upperBound .l2
      | .innerProduct =>
        fromLinearCuts display32 (some high.reverse) (some low.reverse) .innerProduct
      | .cosine => fromLinearCuts display32 (some low) (some high) .cosine := by
  have hle := h.key_le
  have hinverted : ¬inverted (some low) (some high) = true := by
    rw [inverted, F64.lt_iff h.highFinite h.lowFinite]
    omega
  have hlowOp : ¬(low.op = .le ∨ low.op = .lt) := by
    rcases h.lowOp with hop | hop <;> simp [hop]
  have hhighOp : ¬(high.op = .ge ∨ high.op = .gt) := by
    rcases h.highOp with hop | hop <;> simp [hop]
  rw [fromEndpoints.eq_def, checkEndpoint, rejectIf_bind (by simp [h.lowFinite]),
    checkEndpoint,
    rejectIf_bind (by simp [h.highFinite]), checkLowerOp, rejectIf_bind hlowOp,
    checkUpperOp, rejectIf_bind hhighOp]
  cases metric with
  | l2 => rfl
  | innerProduct =>
    dsimp only
    rw [rejectIf_bind hinverted]
    rfl
  | cosine =>
    dsimp only
    rw [rejectIf_bind hinverted]

theorem fromEndpoints_linear_ok (h : LegalPair low high) (sqrt : F32 → F32)
    (hmetric : metric ≠ .l2) :
    ∃ band, fromEndpoints display32 display64 sqrt (some low) (some high) metric = .ok band ∧
      (Contradictory low high → band.isEmpty = true) := by
  rw [fromEndpoints_eq display32 display64 h]
  cases metric with
  | l2 => exact absurd rfl hmetric
  | innerProduct =>
    obtain ⟨band, hband, hempty⟩ := fromLinearCuts_ok display32 h.reverse hmetric
    exact ⟨band, hband, fun hcontra => hempty (hcontra.reverse h)⟩
  | cosine => exact fromLinearCuts_ok display32 h hmetric

/-! ### The axis of roots -/

section Roots

def largestRoot : F64 := l2PublicValue F32.sqrt 0x7f7fffff

def root (v : F32) : F64 := MetricType.l2.publicDistance F32.sqrt v

theorem isFinite_root {v : F32} (hv : Squared v) : (root v).isFinite :=
  isFinite_publicDistance_l2 F32.monotoneSqrt hv

theorem squared_max : Squared F32.max := by
  constructor <;> decide

theorem isFinite_largestRoot : largestRoot.isFinite = true := by decide +kernel

theorem resolve_cases {endpoint : DistanceEndpoint}
    (hfinite : endpoint.value.isFinite) :
    (endpoint.admits largestRoot = false ∧
      ∃ e, resolve display64 (cutFinder F32.sqrt) (some endpoint) = .error e ∧
        e.kind = .unsupported) ∨
      (endpoint.admits largestRoot = true ∧
        ∃ cut, resolve display64 (cutFinder F32.sqrt) (some endpoint) = .ok (.finite cut) ∧
          Squared cut ∧
          ∀ v, Squared v → (endpoint.admits (root v) = true ↔ cut.key ≤ v.key)) := by
  have hfind := cutFinder_eq F32.monotoneSqrt hfinite
  have hup := root_upClosed F32.monotoneSqrt hfinite
  simp only [resolve, resolveRoot]
  cases hcut : cutFinder F32.sqrt endpoint.op endpoint.value with
  | none =>
    rw [hcut] at hfind
    exact .inl ⟨firstCut_none bits_enumerates hup rfl hfind.symm F32.max squared_max, _, rfl, rfl⟩
  | some bits =>
    rw [hcut] at hfind
    obtain ⟨hsquared, hiff⟩ := firstCut_some bits_enumerates hup rfl hfind.symm
    refine .inr ⟨?_, _, rfl, hsquared, hiff⟩
    by_contra hnone
    have hrejected : (!endpoint.admits (l2PublicValue F32.sqrt 0x7f7fffff)) = true := by
      rw [Bool.not_eq_true']
      exact Bool.not_eq_true _ ▸ hnone
    rw [firstCut, if_pos hrejected] at hfind
    cases hfind

theorem fromEndpoints_l2_cases (h : LegalPair low high) :
    ((low.admits largestRoot = false ∨ high.admits largestRoot = false) ∧
      ∃ e, fromEndpoints display32 display64 F32.sqrt (some low) (some high) .l2 = .error e ∧
        e.kind = .unsupported) ∨
      (low.admits largestRoot = true ∧ high.admits largestRoot = true ∧
        ∃ cut cut', Squared cut ∧ Squared cut' ∧
          (∀ v, Squared v → (low.admits (root v) = true ↔ cut.key ≤ v.key)) ∧
          (∀ v, Squared v → (high.admits (root v) = true ↔ cut'.key ≤ v.key)) ∧
          fromEndpoints display32 display64 F32.sqrt (some low) (some high) .l2 =
            if cut'.key < cut.key then .error (invertedBand display32 cut cut')
            else .ok ⟨.finite cut, .finite cut', .l2⟩) := by
  rw [fromEndpoints_eq display32 display64 h]
  dsimp only
  rcases resolve_cases display64 h.lowFinite with ⟨hlow, e, he, hkind⟩ |
    ⟨hlow, cut, hcut, hsquared, hiff⟩
  · rw [he]
    exact .inl ⟨.inl hlow, e, rfl, hkind⟩
  rw [hcut, ok_bind]
  rcases resolve_cases display64 h.highFinite with ⟨hhigh, e, he, hkind⟩ |
    ⟨hhigh, cut', hcut', hsquared', hiff'⟩
  · rw [he]
    exact .inl ⟨.inr hhigh, e, rfl, hkind⟩
  rw [hcut', ok_bind]
  exact .inr ⟨hlow, hhigh, cut, cut', hsquared, hsquared', hiff, hiff',
    fromRaw_finite hsquared.1 hsquared'.1 fun _ => ⟨hsquared.2, hsquared'.2⟩⟩

/-- Both endpoints leave out one and the same root, strictly, and it is not the
largest one. -/
def LeavesOutRoot (low high : DistanceEndpoint) : Prop :=
  low.op = .gt ∧ high.op = .lt ∧ high.value.le low.value = true ∧
    low.value.lt largestRoot = true ∧ ∃ v, Squared v ∧ (root v).key = low.value.key

/-- The largest root itself is what the pair ends with, or begins after. -/
def EndsAtLargestRoot (low high : DistanceEndpoint) : Prop :=
  high.value.key = largestRoot.key ∧
    (high.op = .le ∨ (low.op = .gt ∧ low.value.key = largestRoot.key))

theorem leavesOutRoot_of_crossed (h : LegalPair low high) {v : F32} (hv : Squared v)
    (hlow : low.admits (root v) = false) (hhigh : high.admits (root v) = true)
    (hlargest : low.admits largestRoot = true) : LeavesOutRoot low high := by
  have hle := h.key_le
  have hroot := isFinite_root hv
  rw [← Bool.not_eq_true, low.admits_iff h.lowFinite hroot] at hlow
  rw [high.admits_iff h.highFinite hroot] at hhigh
  rw [low.admits_iff h.lowFinite isFinite_largestRoot] at hlargest
  rcases h.highOp with hop | hop
  · rw [hop, if_neg (by simp)] at hhigh
    split at hlow <;> omega
  rw [hop, if_pos (.inr rfl)] at hhigh
  rcases h.lowOp with hop' | hop'
  · rw [hop', if_pos (.inl rfl)] at hlow
    omega
  · rw [hop', if_neg (by simp)] at hlow hlargest
    refine ⟨hop', hop, (F64.le_iff h.highFinite h.lowFinite).mpr (by omega),
      (F64.lt_iff h.lowFinite isFinite_largestRoot).mpr hlargest, v, hv, by omega⟩

theorem inverted_of_leavesOutRoot (h : LegalPair low high) (hout : LeavesOutRoot low high) :
    ∃ cut cut', fromEndpoints display32 display64 F32.sqrt (some low) (some high) .l2 =
      .error (invertedBand display32 cut cut') := by
  obtain ⟨hlowOp, hhighOp, hle, hlt, v, hv, hkey⟩ := hout
  rw [F64.le_iff h.highFinite h.lowFinite] at hle
  rw [F64.lt_iff h.lowFinite isFinite_largestRoot] at hlt
  have hroot := isFinite_root hv
  have hlargest : low.admits largestRoot = true ∧ high.admits largestRoot = true := by
    rw [low.admits_iff h.lowFinite isFinite_largestRoot,
      high.admits_iff h.highFinite isFinite_largestRoot, hlowOp, hhighOp, if_neg (by simp),
      if_pos (.inr rfl)]
    omega
  rcases fromEndpoints_l2_cases display32 display64 h with
    ⟨hnone, -⟩ | ⟨-, -, cut, cut', hcut, hcut', hiff, hiff', heq⟩
  · rw [hlargest.1, hlargest.2] at hnone
    simp at hnone
  · have hlow := hiff v hv
    have hhigh := hiff' v hv
    rw [low.admits_iff h.lowFinite hroot, hlowOp, if_neg (by simp)] at hlow
    rw [high.admits_iff h.highFinite hroot, hhighOp, if_pos (.inr rfl)] at hhigh
    have hge := h.key_le
    exact ⟨cut, cut', heq.trans (if_pos (by omega))⟩

theorem beyond_of_unsupported (h : LegalPair low high)
    (hnone : low.admits largestRoot = false ∨ high.admits largestRoot = false)
    (hends : ¬EndsAtLargestRoot low high) :
    largestRoot.lt low.value = true ∨ largestRoot.lt high.value = true := by
  have hle := h.key_le
  rw [F64.lt_iff isFinite_largestRoot h.lowFinite, F64.lt_iff isFinite_largestRoot h.highFinite]
  by_contra hneither
  rw [not_or] at hneither
  rcases hnone with hlow | hhigh
  · rw [← Bool.not_eq_true, low.admits_iff h.lowFinite isFinite_largestRoot] at hlow
    rcases h.lowOp with hop | hop
    · rw [hop, if_pos (.inl rfl)] at hlow
      omega
    · rw [hop, if_neg (by simp)] at hlow
      exact hends ⟨by omega, .inr ⟨hop, by omega⟩⟩
  · rw [← Bool.not_eq_true, high.admits_iff h.highFinite isFinite_largestRoot] at hhigh
    rcases h.highOp with hop | hop
    · rw [hop, if_neg (by simp)] at hhigh
      exact hends ⟨by omega, .inl hop⟩
    · rw [hop, if_pos (.inr rfl)] at hhigh
      omega

theorem unsupported_of_ends (h : LegalPair low high) (hends : EndsAtLargestRoot low high) :
    ∃ e, fromEndpoints display32 display64 F32.sqrt (some low) (some high) .l2 = .error e ∧
      e.kind = .unsupported := by
  rcases fromEndpoints_l2_cases display32 display64 h with
    ⟨-, herror⟩ | ⟨hlow, hhigh, -⟩
  · exact herror
  · rw [low.admits_iff h.lowFinite isFinite_largestRoot] at hlow
    rw [high.admits_iff h.highFinite isFinite_largestRoot] at hhigh
    obtain ⟨hkey, hop | ⟨hop, hkey'⟩⟩ := hends
    · rw [hop, if_neg (by simp)] at hhigh
      omega
    · rw [hop, if_neg (by simp)] at hlow
      omega

end Roots

/-- The axes agree on which pairs they take. -/
structure UniformAcceptance (display32 : F32 → String) (display64 : F64 → String)
    (low high : DistanceEndpoint) : Prop where
  notInverted :
    (∃ band, fromEndpoints display32 display64 F32.sqrt (some low) (some high) .cosine =
      .ok band) →
    (∃ band, fromEndpoints display32 display64 F32.sqrt (some low) (some high) .innerProduct =
      .ok band) →
    ∀ cut cut', fromEndpoints display32 display64 F32.sqrt (some low) (some high) .l2 ≠
      .error (invertedBand display32 cut cut')
  contradictory : Contradictory low high → ∀ metric,
    (∃ band, fromEndpoints display32 display64 F32.sqrt (some low) (some high) metric = .ok band ∧
      band.isEmpty = true) ∨
    ∃ e, fromEndpoints display32 display64 F32.sqrt (some low) (some high) metric = .error e ∧
      e.kind = .unsupported
  unsupported : ∀ metric e,
    fromEndpoints display32 display64 F32.sqrt (some low) (some high) metric = .error e →
    e.kind = .unsupported →
    metric = .l2 ∧ (largestRoot.lt low.value = true ∨ largestRoot.lt high.value = true)

end DistanceBand

/-- The axes agree except on a pair that leaves out one root, which the axis of
roots refuses as inverted, and on one that ends at the largest root. -/
theorem endpoint_acceptance_uniform_iff (display32 : F32 → String) (display64 : F64 → String)
    {low high : DistanceEndpoint} (h : LegalPair low high) :
    UniformAcceptance display32 display64 low high ↔
      ¬LeavesOutRoot low high ∧ ¬EndsAtLargestRoot low high := by
  have hlinear := fun (metric : MetricType) (hmetric : metric ≠ .l2) =>
    fromEndpoints_linear_ok display32 display64 h F32.sqrt hmetric
  constructor
  · intro huniform
    constructor
    · intro hout
      obtain ⟨cut, cut', herror⟩ := inverted_of_leavesOutRoot display32 display64 h
        hout
      obtain ⟨band, hband, -⟩ := hlinear .cosine (by simp)
      obtain ⟨band', hband', -⟩ := hlinear .innerProduct (by simp)
      exact huniform.notInverted ⟨band, hband⟩ ⟨band', hband'⟩ cut cut' herror
    · intro hends
      obtain ⟨e, herror, hkind⟩ := unsupported_of_ends display32 display64 h hends
      obtain ⟨-, hbeyond⟩ := huniform.unsupported .l2 e herror hkind
      have hle := h.key_le
      have hkey := hends.1
      rw [F64.lt_iff isFinite_largestRoot h.lowFinite,
        F64.lt_iff isFinite_largestRoot h.highFinite] at hbeyond
      omega
  · rintro ⟨hout, hends⟩
    have hall : ∀ metric, metric = .l2 ∧
        (low.admits largestRoot = false ∨ high.admits largestRoot = false) ∧
        (∃ e, fromEndpoints display32 display64 F32.sqrt (some low) (some high) metric = .error e ∧
          e.kind = .unsupported) ∨
        ∃ band, fromEndpoints display32 display64 F32.sqrt (some low) (some high) metric =
          .ok band ∧ (Contradictory low high → band.isEmpty = true) := by
      intro metric
      by_cases hmetric : metric = .l2
      · subst hmetric
        rcases fromEndpoints_l2_cases display32 display64 h with
          ⟨hnone, herror⟩ | ⟨hlow, -, cut, cut', hcut, hcut', hiff, hiff', heq⟩
        · exact .inl ⟨rfl, hnone, herror⟩
        · -- Without such a root the cuts do not cross.
          have hordered : ¬cut'.key < cut.key := by
            intro hlt
            refine hout (leavesOutRoot_of_crossed h hcut' ?_ ((hiff' cut' hcut').mpr le_rfl) hlow)
            rw [← Bool.not_eq_true, hiff cut' hcut']
            omega
          rw [if_neg hordered] at heq
          refine .inr ⟨_, heq, fun hcontra => isEmpty_of_key_le hcut.1 hcut'.1 ?_⟩
          exact (hiff' cut hcut).mp (hcontra.admits h (isFinite_root hcut)
            ((hiff cut hcut).mpr le_rfl))
      · exact .inr (hlinear metric hmetric)
    refine ⟨fun _ _ cut cut' herror => ?_, fun hcontra metric => ?_,
      fun metric e herror hkind => ?_⟩
    · rcases hall .l2 with ⟨-, -, e, heq, hkind⟩ | ⟨band, hband, -⟩
      · rw [herror] at heq
        cases heq
        cases hkind
      · rw [herror] at hband
        cases hband
    · rcases hall metric with ⟨-, -, herror⟩ | ⟨band, hband, hempty⟩
      · exact .inr herror
      · exact .inl ⟨band, hband, hempty hcontra⟩
    · rcases hall metric with ⟨hmetric, hnone, -⟩ | ⟨band, hband, -⟩
      · exact ⟨hmetric, beyond_of_unsupported h hnone hends⟩
      · rw [herror] at hband
        cases hband

/-- From one on and strictly below one: an empty band on every axis. -/
theorem endpoint_acceptance_uniform_one :
    UniformAcceptance (fun _ => "") (fun _ => "")
      ⟨⟨0x3FF0000000000000⟩, .ge⟩ ⟨⟨0x3FF0000000000000⟩, .lt⟩ := by
  refine (endpoint_acceptance_uniform_iff _ _ ⟨rfl, rfl, .inl rfl, .inr rfl, rfl⟩).mpr ⟨?_, ?_⟩
  · rintro ⟨⟨⟩, -⟩
  · rintro ⟨hkey, -⟩
    revert hkey
    decide +kernel

/-- Strictly above and strictly below one is empty for cosine and for the inner
product, but refused as inverted for L2. -/
theorem strict_pair_inverted_for_l2 :
    (∃ band, fromEndpoints (fun _ => "") (fun _ => "") F32.sqrt
      (some ⟨⟨0x3FF0000000000000⟩, .gt⟩) (some ⟨⟨0x3FF0000000000000⟩, .lt⟩) .cosine = .ok band ∧
        band.isEmpty = true) ∧
    (∃ band, fromEndpoints (fun _ => "") (fun _ => "") F32.sqrt
      (some ⟨⟨0x3FF0000000000000⟩, .gt⟩) (some ⟨⟨0x3FF0000000000000⟩, .lt⟩) .innerProduct =
        .ok band ∧ band.isEmpty = true) ∧
    fromEndpoints (fun _ => "") (fun _ => "") F32.sqrt
      (some ⟨⟨0x3FF0000000000000⟩, .gt⟩) (some ⟨⟨0x3FF0000000000000⟩, .lt⟩) .l2 =
        .error (invalidInput "inverted band: [, )") := by
  refine ⟨⟨⟨.finite F32.zero, .finite F32.zero, .cosine⟩, ?_, rfl⟩,
    ⟨⟨.finite F32.zero, .finite F32.zero, .innerProduct⟩, ?_, rfl⟩, ?_⟩ <;> decide +kernel

end PaimonVindex
