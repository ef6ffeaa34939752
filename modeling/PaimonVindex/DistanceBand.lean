import PaimonVindex.Float32Sqrt
import PaimonVindex.Lib.Bisect
import PaimonVindex.Scalar

/-! Predicates on public distances, turned into cuts on the distances that an
index stores: the first stored value from which an endpoint is passed is found by
binary search over the bit patterns. -/

namespace PaimonVindex

open Checked Bisect

inductive Bound where
  | unbounded
  | finite (value : F32)
  deriving DecidableEq, Repr

structure DistanceBand where
  lower : Bound
  upper : Bound
  metric : MetricType
  deriving DecidableEq, Repr

inductive CutOperator where
  | ge
  | gt
  | le
  | lt
  deriving DecidableEq, Repr

structure DistanceEndpoint where
  value : F64
  op : CutOperator
  deriving DecidableEq, Repr

def CutOperator.name : CutOperator → String
  | ge => "Ge"
  | gt => "Gt"
  | le => "Le"
  | lt => "Lt"

def MetricType.publicDistance (sqrt : F32 → F32) (metric : MetricType) (distance : F32) : F64 :=
  F64.ofF32 (match metric with
    | .l2 => sqrt distance
    | .cosine => distance
    | .innerProduct => distance.neg)

/-- The finite values in ascending order; both zeros have a place. -/
def orderedValue (key : Nat) : F32 :=
  -- With the top bit set the source clears it, otherwise it flips every bit.
  ⟨UInt32.ofNat (if 2 ^ 31 ≤ key then key - 2 ^ 31 else 2 ^ 32 - 1 - key)⟩

/-- The first place from `low` on that is admitted, unless `high` is `rejected`. -/
def firstCut (admits : Nat → Bool) (rejected : Bool) (low high : Nat) : Option Nat :=
  if rejected then none
  else some (Id.run (bisect (fun middle => pure (!admits middle)) 32 low high))

def DistanceEndpoint.admits (endpoint : DistanceEndpoint) (value : F64) : Bool :=
  match endpoint.op with
  | .ge | .lt => endpoint.value.le value
  | .gt | .le => endpoint.value.lt value

def firstLinearCut (endpoint : DistanceEndpoint) : Option F32 :=
  let admits key := endpoint.admits (F64.ofF32 (orderedValue key))
  (firstCut admits (!admits 0xff7fffff) 0x00800000 0xff7fffff).map orderedValue

def DistanceEndpoint.reverse (endpoint : DistanceEndpoint) : DistanceEndpoint where
  value := endpoint.value.neg
  op := match endpoint.op with
    | .ge => .le
    | .gt => .lt
    | .le => .ge
    | .lt => .gt

section Roots

variable (sqrt : F32 → F32)

def l2PublicValue (storedBits : Nat) : F64 :=
  MetricType.l2.publicDistance sqrt ⟨UInt32.ofNat storedBits⟩

def firstGe (endpoint : F64) : Option Nat :=
  firstCut (fun bits => endpoint.le (l2PublicValue sqrt bits))
    ((l2PublicValue sqrt 0x7f7fffff).lt endpoint) 0 0x7f7fffff

def firstGt (endpoint : F64) : Option Nat :=
  firstCut (fun bits => endpoint.lt (l2PublicValue sqrt bits))
    ((l2PublicValue sqrt 0x7f7fffff).le endpoint) 0 0x7f7fffff

end Roots

namespace DistanceBand

-- How floats are printed.
variable (display32 : F32 → String) (display64 : F64 → String)

def checkCut (side : String) (metric : MetricType) : Bound → IoResult Unit
  | .unbounded => .ok ()
  | .finite value => do
    rejectIf (value.isFinite = false)
      (invalidInput (side ++ " cut is not finite: " ++ display32 value))
    rejectIf (metric = .l2 ∧ value.lt F32.zero = true)
      (invalidInput (side ++ " cut must be non-negative for squared-L2: " ++ display32 value))

def checkInverted : Bound → Bound → IoResult Unit
  | .finite low, .finite high => rejectIf (high.lt low = true)
    (invalidInput ("inverted band: [" ++ display32 low ++ ", " ++ display32 high ++ ")"))
  | _, _ => .ok ()

def fromRaw (lower upper : Bound) (metric : MetricType) : IoResult DistanceBand := do
  checkCut display32 "lower" metric lower
  checkCut display32 "upper" metric upper
  checkInverted display32 lower upper
  return ⟨lower, upper, metric⟩

def aboveLower : Bound → F32 → Bool
  | .unbounded, _ => true
  | .finite low, value => Scalar.ge value low

def belowUpper : Bound → F32 → Bool
  | .unbounded, _ => true
  | .finite high, value => value.lt high

def admitRaw (band : DistanceBand) (value : F32) : Bool :=
  value.isFinite && aboveLower band.lower value && belowUpper band.upper value

def checkEndpoint : Option DistanceEndpoint → IoResult Unit
  | none => .ok ()
  | some endpoint => rejectIf (endpoint.value.isFinite = false)
    (invalidInput ("endpoint is not finite: " ++ display64 endpoint.value))

def checkLowerOp : Option DistanceEndpoint → IoResult Unit
  | none => .ok ()
  | some endpoint => rejectIf (endpoint.op = .le ∨ endpoint.op = .lt)
    (invalidInput ("lower endpoint accepts Ge or Gt, got " ++ endpoint.op.name))

def checkUpperOp : Option DistanceEndpoint → IoResult Unit
  | none => .ok ()
  | some endpoint => rejectIf (endpoint.op = .ge ∨ endpoint.op = .gt)
    (invalidInput ("upper endpoint accepts Le or Lt, got " ++ endpoint.op.name))

def inverted : Option DistanceEndpoint → Option DistanceEndpoint → Bool
  | some low, some high => high.value.lt low.value
  | _, _ => false

def fromLinearCuts (lower upper : Option DistanceEndpoint) (metric : MetricType) :
    IoResult DistanceBand :=
  let lowerCut := lower.map firstLinearCut
  let upperCut := upper.bind firstLinearCut
  if lowerCut = some none ∨ (upperCut.any fun high => high.key = F32.max.neg.key) ∨
      (lowerCut.join.any fun low => upperCut.any fun high => high.lt low) then
    fromRaw display32 (.finite F32.zero) (.finite F32.zero) metric
  else fromRaw display32 (lowerCut.join.elim .unbounded .finite)
    (upperCut.elim .unbounded .finite) metric

def resolveRoot (find : F64 → Option Nat) (endpoint : DistanceEndpoint) : IoResult Bound := do
  let bits ← okOr (find endpoint.value)
    ⟨.unsupported, "endpoint " ++ display64 endpoint.value ++
      " has no representable cut; do not push this predicate down"⟩
  return .finite ⟨UInt32.ofNat bits⟩

def resolve (find : CutOperator → F64 → Option Nat) : Option DistanceEndpoint → IoResult Bound
  | none => .ok .unbounded
  | some endpoint => resolveRoot display64 (find endpoint.op) endpoint

/-- The search for the first admitted value of a lower endpoint and for the
first excluded one of an upper endpoint. -/
def cutFinder (sqrt : F32 → F32) : CutOperator → F64 → Option Nat
  | .ge | .lt => firstGe sqrt
  | .gt | .le => firstGt sqrt

def fromEndpoints (sqrt : F32 → F32) (lower upper : Option DistanceEndpoint)
    (metric : MetricType) : IoResult DistanceBand := do
  checkEndpoint display64 lower
  checkEndpoint display64 upper
  checkLowerOp lower
  checkUpperOp upper
  match metric with
  | .l2 => do
    let lowerBound ← resolve display64 (cutFinder sqrt) lower
    let upperBound ← resolve display64 (cutFinder sqrt) upper
    fromRaw display32 lowerBound upperBound .l2
  | .innerProduct => do
    rejectIf (inverted lower upper = true) (invalidInput "inverted public band")
    fromLinearCuts display32 (upper.map DistanceEndpoint.reverse)
      (lower.map DistanceEndpoint.reverse) .innerProduct
  | .cosine => do
    rejectIf (inverted lower upper = true) (invalidInput "inverted public band")
    fromLinearCuts display32 lower upper .cosine

end DistanceBand

open DistanceBand

/-- The comparison that a predicate makes of a public distance. -/
def DistanceEndpoint.satisfiedBy (endpoint : DistanceEndpoint) (distance : F64) : Bool :=
  match endpoint.op with
  | .ge => endpoint.value.le distance
  | .gt => endpoint.value.lt distance
  | .le => distance.le endpoint.value
  | .lt => distance.lt endpoint.value

/-! ### The search for a cut -/

/-- An ascending list of places for the values of `D`, up to equal values. -/
structure Enumerates (value : Nat → F32) (low high : Nat) (D : F32 → Prop) : Prop where
  le : low ≤ high
  span : high - low < 2 ^ 32
  mono : ∀ i j, low ≤ i → i ≤ j → j ≤ high → (value i).key ≤ (value j).key
  mem : ∀ i, low ≤ i → i ≤ high → D (value i)
  surj : ∀ v, D v → ∃ i, low ≤ i ∧ i ≤ high ∧ (value i).key = v.key

def UpClosed (D : F32 → Prop) (admits : F32 → Bool) : Prop :=
  ∀ v w, D v → D w → v.key ≤ w.key → admits v = true → admits w = true

section Search

variable {value : Nat → F32} {low high : Nat} {D : F32 → Prop} {admits : F32 → Bool}
  {rejected : Bool}

theorem firstCut_none (he : Enumerates value low high D) (hup : UpClosed D admits)
    (hrejected : rejected = !admits (value high))
    (h : firstCut (fun i => admits (value i)) rejected low high = none) :
    ∀ v, D v → admits v = false := by
  intro v hv
  rw [firstCut] at h
  split at h
  · rename_i hr
    obtain ⟨i, hlow, hhigh, hkey⟩ := he.surj v hv
    by_contra hadmits
    have htop := hup v (value high) hv (he.mem high he.le le_rfl)
      (hkey ▸ he.mono i high hlow hhigh le_rfl) (by simpa using hadmits)
    rw [hrejected, htop] at hr
    cases hr
  · cases h

theorem firstCut_some (he : Enumerates value low high D) (hup : UpClosed D admits)
    (hrejected : rejected = !admits (value high)) {cut : Nat}
    (h : firstCut (fun i => admits (value i)) rejected low high = some cut) :
    D (value cut) ∧ ∀ v, D v → (admits v = true ↔ (value cut).key ≤ v.key) := by
  have hdown : ∀ i j, low ≤ i → i ≤ j → j < high → (!admits (value j)) = true →
      (!admits (value i)) = true := by
    intro i j hi hij hj hrej
    rw [Bool.not_eq_true'] at hrej ⊢
    by_contra hadm
    have := hup _ _ (he.mem i hi (by omega)) (he.mem j (by omega) hj.le)
      (he.mono i j hi hij hj.le) (by simpa using hadm)
    rw [this] at hrej
    cases hrej
  obtain ⟨found, hlow, hhigh, hiff⟩ := exists_cut he.le hdown
  have hsearch : bisect (m := Id) (fun middle => pure (!admits (value middle))) 32 low high =
      pure found := by
    refine bisect_eq he.span hlow hhigh fun i hi hlt => ?_
    congr 1
    rw [Bool.eq_iff_iff, hiff i hi hlt, decide_eq_true_iff]
  rw [firstCut] at h
  split at h
  · cases h
  rename_i hr
  have htop : admits (value high) = true := by
    rw [hrejected] at hr
    simpa using hr
  rw [hsearch, Option.some.injEq] at h
  obtain rfl : found = cut := h
  -- A place is admitted exactly from the cut on.
  have hplace : ∀ i, low ≤ i → i ≤ high → (admits (value i) = true ↔ found ≤ i) := by
    intro i hi hle
    rcases Nat.eq_or_lt_of_le hle with rfl | hlt
    · exact ⟨fun _ => hhigh, fun _ => htop⟩
    · have hnot := hiff i hi hlt
      rw [Bool.not_eq_true'] at hnot
      rw [← Nat.not_lt, ← hnot, Bool.not_eq_false]
  have hfound : admits (value found) = true := (hplace found hlow hhigh).mpr le_rfl
  refine ⟨he.mem found hlow hhigh, fun v hv => ⟨fun hadmits => ?_, fun hle => ?_⟩⟩
  · obtain ⟨i, hi, hle, hkey⟩ := he.surj v hv
    have hi' := (hplace i hi hle).mp
      (hup v _ hv (he.mem i hi hle) hkey.ge hadmits)
    exact hkey ▸ he.mono found i hlow hi' hle
  · exact hup _ v (he.mem found hlow hhigh) hv hle hfound

end Search

theorem key_orderedValue {key : Nat} (h : key < 2 ^ 32) :
    (orderedValue key).key =
      if 2 ^ 31 ≤ key then (key : Int) - 2 ^ 31 else (key : Int) - (2 ^ 31 - 1) := by
  by_cases hbig : 2 ^ 31 ≤ key
  · obtain ⟨m, rfl⟩ := Nat.exists_eq_add_of_le' hbig
    obtain ⟨hm, hs⟩ := F32.ofSigned_spec (m := m) (by omega) false
    simp only [Bool.false_eq_true, if_false, Nat.add_zero] at hm hs
    rw [orderedValue, if_pos hbig, if_pos hbig, Nat.add_sub_cancel, F32.key, hm, hs]
    simp only [Bool.false_eq_true, if_false]
    omega
  · obtain ⟨m, hsum⟩ : ∃ m, key + m = 2 ^ 31 - 1 := Nat.exists_eq_add_of_le (by omega) |>.imp
      fun _ => Eq.symm
    obtain ⟨hm, hs⟩ := F32.ofSigned_spec (m := m) (by omega) true
    have hbits : 2 ^ 32 - 1 - key = m + 2 ^ 31 := by omega
    simp only [if_true] at hm hs
    rw [orderedValue, if_neg hbig, if_neg hbig, hbits, F32.key, hm, hs]
    simp only [if_true]
    omega

theorem orderedValue_enumerates :
    Enumerates orderedValue 0x00800000 0xff7fffff fun v => v.isFinite where
  le := by omega
  span := by omega
  mono i j hi hij hj := by
    rw [key_orderedValue (by omega), key_orderedValue (by omega)]
    split <;> split <;> omega
  mem i hi hle := by
    rw [isFinite_iff_key, key_orderedValue (by omega)]
    split <;> omega
  surj v hv := by
    rw [isFinite_iff_key] at hv
    by_cases hneg : v.key < 0
    · refine ⟨(v.key + (2 ^ 31 - 1)).toNat, by omega, by omega, ?_⟩
      rw [key_orderedValue (by omega), if_neg (by omega)]
      omega
    · refine ⟨(v.key + 2 ^ 31).toNat, by omega, by omega, ?_⟩
      rw [key_orderedValue (by omega), if_pos (by omega)]
      omega

theorem bits_enumerates :
    Enumerates (fun bits => ⟨UInt32.ofNat bits⟩) 0 0x7f7fffff Squared where
  le := by omega
  span := by omega
  mono i j hi hij hj := by
    rw [key_ofBits (by omega), key_ofBits (by omega)]
    omega
  mem i hi hle := by
    have hkey := key_ofBits (show i < 2 ^ 31 by omega)
    refine ⟨(isFinite_iff_key _).mpr ?_, by omega⟩
    rw [hkey]
    omega
  surj v hv := by
    obtain ⟨hfinite, hnonneg⟩ := hv
    rw [isFinite_iff_key] at hfinite
    refine ⟨v.key.toNat, by omega, by omega, ?_⟩
    rw [key_ofBits (by omega)]
    omega

/-! ### Membership -/

variable {v : F32} {endpoint : Option DistanceEndpoint}

namespace DistanceBand

theorem key_le_of_aboveLower {low : F32} (h : aboveLower (.finite low) v = true) :
    low.key ≤ v.key := by
  simp only [aboveLower, Scalar.ge, decide_eq_true_eq] at h
  exact h.2.2

theorem key_lt_of_belowUpper {high : F32} (h : belowUpper (.finite high) v = true) :
    v.key < high.key := by
  simp only [belowUpper, F32.lt, decide_eq_true_eq] at h
  exact h.2.2

theorem aboveLower_finite {low : F32} (hlow : low.isFinite) (hv : v.isFinite) :
    aboveLower (.finite low) v = true ↔ low.key ≤ v.key := by
  simp [aboveLower, Scalar.ge, F32.not_isNan_of_isFinite hlow, F32.not_isNan_of_isFinite hv]

theorem belowUpper_finite {high : F32} (hhigh : high.isFinite) (hv : v.isFinite) :
    belowUpper (.finite high) v = true ↔ v.key < high.key := by
  simp [belowUpper, F32.lt, F32.not_isNan_of_isFinite hhigh, F32.not_isNan_of_isFinite hv]

theorem admitRaw_iff (band : DistanceBand) (hv : v.isFinite) :
    band.admitRaw v = true ↔ aboveLower band.lower v = true ∧ belowUpper band.upper v = true := by
  simp [admitRaw, hv]

theorem fromRaw_eq_ok {display32 : F32 → String} {lower upper : Bound} {metric : MetricType}
    {band : DistanceBand} (h : fromRaw display32 lower upper metric = .ok band) :
    band = ⟨lower, upper, metric⟩ := by
  simp only [fromRaw, accepted] at h
  obtain ⟨-, -, -, -, -, -, rfl⟩ := h
  rfl

theorem checkEndpoint_eq_ok {display64 : F64 → String}
    (h : checkEndpoint display64 endpoint = .ok ()) : ∀ e ∈ endpoint, e.value.isFinite := by
  intro e he
  obtain rfl : endpoint = some e := he
  simpa [checkEndpoint, rejectIf_eq_ok] using h

end DistanceBand

section Endpoints

variable {endpoint : DistanceEndpoint} (hfinite : endpoint.value.isFinite)
include hfinite

variable {distance : F64}

theorem DistanceEndpoint.admits_iff (hdistance : distance.isFinite) :
    endpoint.admits distance = true ↔
      if endpoint.op = .ge ∨ endpoint.op = .lt then endpoint.value.key ≤ distance.key
      else endpoint.value.key < distance.key := by
  rw [DistanceEndpoint.admits]
  cases endpoint.op <;> simp [F64.le_iff hfinite hdistance, F64.lt_iff hfinite hdistance]

theorem DistanceEndpoint.admits_mono {distance' : F64} (hdistance : distance.isFinite)
    (hdistance' : distance'.isFinite) (hle : distance.key ≤ distance'.key)
    (h : endpoint.admits distance = true) : endpoint.admits distance' = true := by
  rw [admits_iff hfinite hdistance] at h
  rw [admits_iff hfinite hdistance']
  split at h
  · rename_i hop
    rw [if_pos hop]
    omega
  · rename_i hop
    rw [if_neg hop]
    omega

omit hfinite in
theorem DistanceEndpoint.satisfiedBy_lower (hop : endpoint.op = .ge ∨ endpoint.op = .gt)
    (distance : F64) : endpoint.satisfiedBy distance = endpoint.admits distance := by
  rcases hop with hop | hop <;> rw [satisfiedBy, admits, hop]

theorem DistanceEndpoint.satisfiedBy_upper (hop : endpoint.op = .le ∨ endpoint.op = .lt)
    (hdistance : distance.isFinite) :
    endpoint.satisfiedBy distance = true ↔ endpoint.admits distance = false := by
  rw [← Bool.not_eq_true, admits_iff hfinite hdistance, satisfiedBy]
  rcases hop with hop | hop <;>
    simp [hop, F64.le_iff hdistance hfinite, F64.lt_iff hdistance hfinite]

theorem firstLinearCut_upClosed :
    UpClosed (fun v => v.isFinite) fun v => endpoint.admits (F64.ofF32 v) := by
  intro v w hv hw hle
  exact endpoint.admits_mono hfinite (F64.isFinite_ofF32 hv) (F64.isFinite_ofF32 hw)
    (F64.key_ofF32_mono hv hw hle)

theorem firstLinearCut_none (h : firstLinearCut endpoint = none) (hv : v.isFinite) :
    endpoint.admits (F64.ofF32 v) = false :=
  firstCut_none orderedValue_enumerates (firstLinearCut_upClosed hfinite) rfl
    (Option.map_eq_none_iff.mp h) v hv

theorem firstLinearCut_some {cut : F32} (h : firstLinearCut endpoint = some cut) :
    cut.isFinite ∧ ∀ v : F32, v.isFinite →
      (endpoint.admits (F64.ofF32 v) = true ↔ cut.key ≤ v.key) := by
  obtain ⟨place, hplace, rfl⟩ := Option.map_eq_some_iff.mp h
  exact firstCut_some orderedValue_enumerates (firstLinearCut_upClosed hfinite) rfl hplace

end Endpoints

namespace DistanceBand

section Linear

variable {lower upper : Option DistanceEndpoint}

theorem lowerCut_iff (hlower : ∀ e ∈ lower, e.value.isFinite)
    (hsome : lower.map firstLinearCut ≠ some none) (hv : v.isFinite) :
    aboveLower ((lower.map firstLinearCut).join.elim .unbounded .finite) v = true ↔
      ∀ e ∈ lower, e.admits (F64.ofF32 v) = true := by
  cases lower with
  | none => simp [aboveLower]
  | some endpoint =>
    cases hcut : firstLinearCut endpoint with
    | none => simp [hcut] at hsome
    | some cut =>
      obtain ⟨hfinite, hiff⟩ := firstLinearCut_some (hlower endpoint rfl) hcut
      simp only [Option.map_some, hcut, Option.join_some, Option.elim_some, Option.mem_def,
        Option.some.injEq, forall_eq']
      rw [aboveLower_finite hfinite hv, hiff v hv]

theorem upperCut_iff (hupper : ∀ e ∈ upper, e.value.isFinite) (hv : v.isFinite) :
    belowUpper ((upper.bind firstLinearCut).elim .unbounded .finite) v = true ↔
      ∀ e ∈ upper, e.admits (F64.ofF32 v) = false := by
  cases upper with
  | none => simp [belowUpper]
  | some endpoint =>
    cases hcut : firstLinearCut endpoint with
    | none =>
      have hnone := firstLinearCut_none (hupper endpoint rfl) hcut hv
      simp [hcut, belowUpper, hnone]
    | some cut =>
      obtain ⟨hfinite, hiff⟩ := firstLinearCut_some (hupper endpoint rfl) hcut
      simp only [Option.bind_some, hcut, Option.elim_some, Option.mem_def, Option.some.injEq,
        forall_eq']
      rw [belowUpper_finite hfinite hv, ← Bool.not_eq_true, hiff v hv, Int.not_le]

theorem fromLinearCuts_admits {display32 : F32 → String} (hlower : ∀ e ∈ lower, e.value.isFinite)
    (hupper : ∀ e ∈ upper, e.value.isFinite) {metric : MetricType} {band : DistanceBand}
    (h : fromLinearCuts display32 lower upper metric = .ok band) (hv : v.isFinite) :
    band.admitRaw v = true ↔ (∀ e ∈ lower, e.admits (F64.ofF32 v) = true) ∧
      ∀ e ∈ upper, e.admits (F64.ofF32 v) = false := by
  rw [← upperCut_iff hupper hv]
  simp only [fromLinearCuts] at h
  split at h
  · rename_i hempty
    obtain rfl := fromRaw_eq_ok h
    have hzero : F32.zero.isFinite = true := rfl
    rw [admitRaw_iff _ hv, aboveLower_finite hzero hv, belowUpper_finite hzero hv]
    refine iff_of_false (by omega) ?_
    rintro ⟨habove, hbelow⟩
    rcases hempty with hnone | hlowest | hcrossed
    · -- No value passes the lower endpoint.
      obtain ⟨endpoint, rfl, hcut⟩ := Option.map_eq_some_iff.mp hnone
      have hadmits := habove endpoint rfl
      rw [firstLinearCut_none (hlower endpoint rfl) hcut hv] at hadmits
      cases hadmits
    · -- The smallest value is already excluded.
      cases hhigh : upper.bind firstLinearCut with
      | none => simp [hhigh] at hlowest
      | some high =>
        rw [hhigh, Option.any_some, decide_eq_true_eq] at hlowest
        rw [hhigh, Option.elim_some] at hbelow
        have hlt := key_lt_of_belowUpper hbelow
        have hmax : F32.max.neg.key = -(255 * 2 ^ 23 - 1) := by decide
        rw [isFinite_iff_key] at hv
        omega
    · cases hlow : (lower.map firstLinearCut).join with
      | none => simp [hlow] at hcrossed
      | some low =>
        cases hhigh : upper.bind firstLinearCut with
        | none => simp [hhigh] at hcrossed
        | some high =>
          have hsome : lower.map firstLinearCut ≠ some none := by
            intro hnone
            rw [hnone] at hlow
            cases hlow
          rw [← lowerCut_iff hlower hsome hv, hlow, Option.elim_some] at habove
          rw [hhigh, Option.elim_some] at hbelow
          rw [hlow, hhigh, Option.any_some, Option.any_some] at hcrossed
          have hle := key_le_of_aboveLower habove
          have hlt := key_lt_of_belowUpper hbelow
          have hcross := key_lt_of_belowUpper hcrossed
          omega
  · rename_i hproper
    obtain rfl := fromRaw_eq_ok h
    rw [admitRaw_iff _ hv, lowerCut_iff hlower (fun hnone => hproper (.inl hnone)) hv]

end Linear

section Roots

variable {sqrt : F32 → F32} (hsqrt : MonotoneSqrt sqrt)
include hsqrt

theorem isFinite_publicDistance_l2 (hv : Squared v) :
    (MetricType.l2.publicDistance sqrt v).isFinite :=
  F64.isFinite_ofF32 (hsqrt.finite v hv)

theorem root_upClosed {endpoint : DistanceEndpoint} (hfinite : endpoint.value.isFinite) :
    UpClosed Squared fun v => endpoint.admits (MetricType.l2.publicDistance sqrt v) := by
  intro v w hv hw hle
  exact endpoint.admits_mono hfinite (isFinite_publicDistance_l2 hsqrt hv)
    (isFinite_publicDistance_l2 hsqrt hw)
    (F64.key_ofF32_mono (hsqrt.finite v hv) (hsqrt.finite w hw) (hsqrt.mono v w hv hw hle))

theorem cutFinder_eq {endpoint : DistanceEndpoint} (hfinite : endpoint.value.isFinite) :
    cutFinder sqrt endpoint.op endpoint.value =
      firstCut (fun bits => endpoint.admits (l2PublicValue sqrt bits))
        (!endpoint.admits (l2PublicValue sqrt 0x7f7fffff)) 0 0x7f7fffff := by
  have htop : (l2PublicValue sqrt 0x7f7fffff).isFinite :=
    isFinite_publicDistance_l2 hsqrt (bits_enumerates.mem _ (Nat.zero_le _) le_rfl)
  have hlt : (l2PublicValue sqrt 0x7f7fffff).lt endpoint.value =
      !endpoint.value.le (l2PublicValue sqrt 0x7f7fffff) := by
    rw [Bool.eq_iff_iff, F64.lt_iff htop hfinite, Bool.not_eq_true', ← Bool.not_eq_true,
      F64.le_iff hfinite htop, Int.not_le]
  have hle : (l2PublicValue sqrt 0x7f7fffff).le endpoint.value =
      !endpoint.value.lt (l2PublicValue sqrt 0x7f7fffff) := by
    rw [Bool.eq_iff_iff, F64.le_iff htop hfinite, Bool.not_eq_true', ← Bool.not_eq_true,
      F64.lt_iff hfinite htop, Int.not_lt]
  rw [cutFinder.eq_def]
  cases hop : endpoint.op <;> simp only [DistanceEndpoint.admits, hop, firstGe, firstGt, hlt, hle]

theorem resolve_spec {display64 : F64 → String} (hfinite : ∀ e ∈ endpoint, e.value.isFinite)
    {bound : Bound} (h : resolve display64 (cutFinder sqrt) endpoint = .ok bound) (hv : Squared v) :
    (aboveLower bound v = true ↔
        ∀ e ∈ endpoint, e.admits (MetricType.l2.publicDistance sqrt v) = true) ∧
      (belowUpper bound v = true ↔
        ∀ e ∈ endpoint, e.admits (MetricType.l2.publicDistance sqrt v) = false) := by
  cases endpoint with
  | none =>
    obtain rfl : Bound.unbounded = bound := Except.ok.inj h
    simp [aboveLower, belowUpper]
  | some endpoint =>
    have hendpoint := hfinite endpoint rfl
    simp only [resolve, resolveRoot, accepted] at h
    obtain ⟨bits, hbits, rfl⟩ := h
    rw [cutFinder_eq hsqrt hendpoint] at hbits
    obtain ⟨hcut, hiff⟩ := firstCut_some bits_enumerates (root_upClosed hsqrt hendpoint) rfl hbits
    simp only [Option.mem_def, Option.some.injEq, forall_eq']
    rw [aboveLower_finite hcut.1 hv.1, belowUpper_finite hcut.1 hv.1, ← Bool.not_eq_true,
      hiff v hv, Int.not_le]
    exact ⟨Iff.rfl, Iff.rfl⟩

end Roots

theorem checkLowerOp_eq_ok (h : checkLowerOp endpoint = .ok ()) :
    ∀ e ∈ endpoint, e.op = .ge ∨ e.op = .gt := by
  intro e he
  obtain rfl : endpoint = some e := he
  rw [checkLowerOp, rejectIf_eq_ok] at h
  cases hop : e.op <;> simp [hop] at h ⊢

theorem checkUpperOp_eq_ok (h : checkUpperOp endpoint = .ok ()) :
    ∀ e ∈ endpoint, e.op = .le ∨ e.op = .lt := by
  intro e he
  obtain rfl : endpoint = some e := he
  rw [checkUpperOp, rejectIf_eq_ok] at h
  cases hop : e.op <;> simp [hop] at h ⊢

theorem reverse_admits {endpoint : DistanceEndpoint} (hfinite : endpoint.value.isFinite)
    (hv : v.isFinite) :
    endpoint.reverse.admits (F64.ofF32 v) =
      if endpoint.op = .le ∨ endpoint.op = .lt then endpoint.satisfiedBy (F64.ofF32 v.neg)
      else !endpoint.satisfiedBy (F64.ofF32 v.neg) := by
  have hvalue : endpoint.value.neg.isFinite := by rwa [F64.isFinite_neg]
  have hwide := F64.isFinite_ofF32 hv
  have hwide' : (F64.ofF32 v.neg).isFinite := F64.isFinite_ofF32 (by rwa [F32.isFinite_neg])
  have hkey := F64.key_ofF32_neg hv
  have hneg := endpoint.value.key_neg
  rw [DistanceEndpoint.admits, DistanceEndpoint.satisfiedBy]
  cases hop : endpoint.op <;> simp only [DistanceEndpoint.reverse, hop, reduceCtorEq, or_self,
    or_false, or_true, if_true, if_false] <;>
    rw [Bool.eq_iff_iff] <;>
    simp only [Bool.not_eq_true', ← Bool.not_eq_true, F64.le_iff, F64.lt_iff, hvalue, hwide,
      hwide', hfinite] <;>
    omega

end DistanceBand

/-- An accepted band admits a stored distance exactly when its public distance
passes both endpoints. -/
theorem distance_band_decides_public_predicate (display32 : F32 → String)
    (display64 : F64 → String) (sqrt : F32 → F32) (hsqrt : MonotoneSqrt sqrt)
    (lower upper : Option DistanceEndpoint) (metric : MetricType) {band : DistanceBand}
    (h : fromEndpoints display32 display64 sqrt lower upper metric = .ok band)
    (v : F32) (hv : v.isFinite) (hnonneg : metric = .l2 → Scalar.ge v F32.zero = true) :
    band.admitRaw v = true ↔
      (∀ e ∈ lower, e.satisfiedBy (metric.publicDistance sqrt v) = true) ∧
        ∀ e ∈ upper, e.satisfiedBy (metric.publicDistance sqrt v) = true := by
  simp only [fromEndpoints, bind_eq_ok] at h
  obtain ⟨⟨⟩, hlower, ⟨⟩, hupper, ⟨⟩, hlowerOp, ⟨⟩, hupperOp, h⟩ := h
  have hlower := checkEndpoint_eq_ok hlower
  have hupper := checkEndpoint_eq_ok hupper
  have hlowerOp := checkLowerOp_eq_ok hlowerOp
  have hupperOp := checkUpperOp_eq_ok hupperOp
  cases metric with
  | l2 =>
    simp only [bind_eq_ok] at h
    obtain ⟨lowerBound, hlowerBound, upperBound, hupperBound, hband⟩ := h
    obtain rfl := fromRaw_eq_ok hband
    have hkey := key_le_of_aboveLower (hnonneg rfl)
    have hsquared : Squared v := ⟨hv, hkey⟩
    have hwide := isFinite_publicDistance_l2 hsqrt hsquared
    rw [admitRaw_iff _ hv,
      (resolve_spec hsqrt hlower hlowerBound hsquared).1,
      (resolve_spec hsqrt hupper hupperBound hsquared).2]
    refine and_congr (forall₂_congr fun e he => ?_) (forall₂_congr fun e he => ?_)
    · rw [e.satisfiedBy_lower (hlowerOp e he)]
    · rw [e.satisfiedBy_upper (hupper e he) (hupperOp e he) hwide]
  | cosine =>
    simp only [bind_eq_ok] at h
    obtain ⟨-, -, hband⟩ := h
    rw [fromLinearCuts_admits hlower hupper hband hv]
    refine and_congr (forall₂_congr fun e he => ?_) (forall₂_congr fun e he => ?_)
    · rw [e.satisfiedBy_lower (hlowerOp e he)]
      rfl
    · exact (e.satisfiedBy_upper (hupper e he) (hupperOp e he) (F64.isFinite_ofF32 hv)).symm
  | innerProduct =>
    simp only [bind_eq_ok] at h
    obtain ⟨-, -, hband⟩ := h
    have hreverse : ∀ {side : Option DistanceEndpoint}, (∀ e ∈ side, e.value.isFinite) →
        ∀ e ∈ side.map DistanceEndpoint.reverse, e.value.isFinite := by
      intro side hside e he
      obtain ⟨e', he', rfl⟩ := Option.map_eq_some_iff.mp he
      exact (F64.isFinite_neg _).trans (hside e' he')
    rw [fromLinearCuts_admits (hreverse hupper) (hreverse hlower) hband hv, and_comm]
    simp only [Option.mem_map, forall_exists_index, and_imp, forall_apply_eq_imp_iff₂]
    refine and_congr (forall₂_congr fun e he => ?_) (forall₂_congr fun e he => ?_)
    · rw [reverse_admits (hlower e he) hv]
      rcases hlowerOp e he with hop | hop <;> simp [hop, MetricType.publicDistance]
    · rw [reverse_admits (hupper e he) hv]
      rcases hupperOp e he with hop | hop <;> simp [hop, MetricType.publicDistance]

def oneToTwo : Option DistanceEndpoint × Option DistanceEndpoint :=
  (some ⟨⟨0x3FF0000000000000⟩, .ge⟩, some ⟨⟨0x4000000000000000⟩, .le⟩)

/-- The root of the first value is rounded to two, that of the next one is not. -/
theorem distance_band_decides_public_predicate_two :
    ∃ band, fromEndpoints (fun _ => "") (fun _ => "") F32.sqrt oneToTwo.1 oneToTwo.2 .l2 =
        .ok band ∧
      band.admitRaw ⟨0x40800001⟩ = true ∧ band.admitRaw ⟨0x40800002⟩ = false := by
  have hband : fromEndpoints (fun _ => "") (fun _ => "") F32.sqrt oneToTwo.1 oneToTwo.2
      .l2 = .ok ⟨.finite ⟨0x3F800000⟩, .finite ⟨0x40800002⟩, .l2⟩ := by decide +kernel
  have hmember := distance_band_decides_public_predicate (fun _ => "") (fun _ => "") F32.sqrt
    F32.monotoneSqrt oneToTwo.1 oneToTwo.2 .l2 hband
  refine ⟨_, hband, (hmember ⟨0x40800001⟩ rfl fun _ => rfl).mpr ?_, ?_⟩
  · simp only [oneToTwo, Option.mem_def, Option.some.injEq, forall_eq']
    decide +kernel
  · rw [← Bool.not_eq_true, hmember ⟨0x40800002⟩ rfl fun _ => rfl]
    simp only [oneToTwo, Option.mem_def, Option.some.injEq, forall_eq']
    decide +kernel

end PaimonVindex
