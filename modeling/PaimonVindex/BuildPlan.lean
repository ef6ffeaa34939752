import PaimonVindex.DiskAnn.ReadPlan
import PaimonVindex.DistanceBand
import PaimonVindex.Ivf.Width
import Mathlib.Tactic.Linarith

/-! The build plan of an IVF-PQ index from its options. The number of
subquantizers is inferred from the size that a vector may take: the divisor of the
dimension that is nearest to the bytes left for the code, whether it fits or not.
The size is then checked on its own. -/

namespace PaimonVindex

open Checked

/-! ### Doubles as numbers -/

namespace Double

def scale (exponent : Int) : Rat :=
  if 0 ≤ exponent then 2 ^ exponent.toNat else 1 / 2 ^ (-exponent).toNat

/-- The place of the leading digit of a number that is not zero. -/
def leading (x : Rat) : Int :=
  let guess := (Nat.log2 x.num.natAbs : Int) - Nat.log2 x.den
  if scale guess ≤ |x| then guess else guess - 1

def nearestEven (x : Rat) : Int :=
  let rest := x - x.floor
  if rest < 1 / 2 ∨ (rest = 1 / 2 ∧ x.floor % 2 = 0) then x.floor else x.floor + 1

/-- The nearest number of 53 digits; the numbers here are far from both ends of
the exponents. -/
def round (x : Rat) : Rat :=
  if x = 0 then 0
  else
    let unit := scale (leading x - 52)
    nearestEven (x / unit) * unit

end Double

/-- The number that a finite double stands for. -/
def F64.value (x : F64) : Rat :=
  let fraction : Nat := x.magnitude % 2 ^ 52
  let exponent : Nat := x.magnitude / 2 ^ 52
  let size : Rat := if exponent = 0 then (fraction : Rat) * Double.scale (-1074)
    else (2 ^ 52 + fraction : Nat) * Double.scale ((exponent : Int) - 1075)
  if x.isNegative then -size else size

/-! ### The number of subquantizers -/

def persistedRowIdEstimateBytes : Nat := 10

def defaultPqCodeRatio : Rat := 1 / 16

/-- The ratio as it is compared; `none` is a double that is not finite. -/
def validatePqCodeRatio (pqBits : Nat) (codeRatio : Option Rat) : IoResult Unit := do
  rejectIf (pqBits ≠ 4 ∧ pqBits ≠ 8) (invalidInput s!"pq.bits must be 4 or 8, got {pqBits}")
  let maxRatio := if pqBits = 4 then "0.125" else "0.25"
  rejectIf (codeRatio.all fun ratio => ratio ≤ 0 ∨ (pqBits : Rat) / 32 < ratio)
    (invalidInput s!"pq.code-ratio must be finite and in (0, {maxRatio}] for {pqBits}-bit PQ")

def targetM (dimension pqBits : Nat) (codeRatio : Rat) : Rat :=
  Double.round (Double.round (Double.round (Double.round dimension * 32) * codeRatio) / pqBits)

def targetDistance (target : Rat) (candidate : Nat) : Rat :=
  |Double.round (Double.round candidate - target)|

def consider (target : Rat) (best : Nat × Option Rat) (candidate : Nat) : Nat × Option Rat :=
  let distance := targetDistance target candidate
  if best.2.all (distance < ·) ∨ (best.2 = some distance ∧ best.1 < candidate) then
    (candidate, some distance)
  else best

/-- Each divisor up to the root is considered with the one it is paired with. -/
def considerDivisors (dimension : Nat) (target : Rat) :
    Nat → Nat → Nat × Option Rat → Nat × Option Rat
  | 0, _, best => best
  | fuel + 1, divisor, best =>
    if divisor ≤ dimension / divisor then
      let best :=
        if dimension % divisor = 0 then
          let best := consider target best divisor
          let paired := dimension / divisor
          if paired ≠ divisor then consider target best paired else best
        else best
      considerDivisors dimension target fuel (divisor + 1) best
    else best

def inferUniformPqM (dimension pqBits : Nat) (codeRatio : Option Rat) : IoResult Nat := do
  validatePositive dimension "dimension"
  validatePqCodeRatio pqBits codeRatio
  return (considerDivisors dimension (targetM dimension pqBits (codeRatio.getD 0)) dimension 1
    (1, none)).1

def persistedCodeBudget (maxBytesPerVector : Nat) (indexName : String) : IoResult Nat :=
  okOr ((checkedSub maxBytesPerVector persistedRowIdEstimateBytes).filter (0 < ·))
    (invalidInput (s!"max-bytes-per-vector {maxBytesPerVector} cannot fit the persisted " ++
      s!"row-ID encoding for {indexName}"))

def budgetRatio (dimension pqBits bytes : Nat) : Rat :=
  let rawBytes := max (saturatingMul dimension 4) 1
  min (Double.round (Double.round bytes / Double.round rawBytes)) (pqBits / 32)

/-! ### Options -/

inductive IndexType where
  | ivfFlat
  | ivfPq
  | ivfRq
  | diskAnn
  | ivfSq
  deriving DecidableEq, Repr

structure TextParsers where
  trim : String → String
  usize : String → Option Nat
  f32 : String → Option F32
  f64 : String → Option F64
  inferIvfNlist : Nat → IoResult Nat

abbrev ConfigOptions := List (String × String)

section Options

variable (text : TextParsers)

def ConfigOptions.new (options : List (String × String)) : IoResult ConfigOptions :=
  options.foldlM (fun values entry => do
    let key := text.trim entry.1
    rejectIf (key = "") (invalidInput "option key must not be empty")
    rejectIf (values.any fun value => value.1 = key) (invalidInput s!"duplicate option key '{key}'")
    return values ++ [(key, entry.2)]) []

namespace ConfigOptions

def optional (options : ConfigOptions) (key : String) : Option String := options.lookup key

def required (options : ConfigOptions) (key : String) : IoResult String :=
  okOr (options.optional key) (invalidInput s!"missing required option '{key}'")

/-- The options that this index reads; each is asked for before the others are
refused. -/
def ivfPqKeys : List String :=
  ["index.type", "dimension", "expected-vector-count", "metric", "target-recall",
    "max-bytes-per-vector", "max-build-seconds", "deployment-profile", "ivf.coarse-assignment",
    "ivf.pq-encoding", "nlist", "pq.m", "pq.code-ratio", "use-opq",
    "ivf.train.max-points-per-centroid", "pq.train.max-points-per-centroid"]

def rejectUnknown (options : ConfigOptions) (used : List String) : IoResult Unit :=
  let unknown := (options.map Prod.fst).filter fun key => key ∉ used
  let names := ", ".intercalate (unknown.mergeSort fun a b => a ≤ b)
  rejectIf (unknown ≠ []) (invalidInput s!"unknown vector index option(s): {names}")

end ConfigOptions

def parseUsizeOption (name value : String) : IoResult Nat :=
  okOr (text.usize (text.trim value)) (invalidInput s!"option '{name}' must be a positive integer")

def parseF32Option (name value : String) : IoResult F32 :=
  okOr (text.f32 (text.trim value)) (invalidInput s!"option '{name}' must be a number")

def parseF64Option (name value : String) : IoResult F64 :=
  okOr (text.f64 (text.trim value)) (invalidInput s!"option '{name}' must be a number")

def parseBoolOption (name value : String) : IoResult Bool :=
  match text.trim value with
  | "true" => .ok true
  | "false" => .ok false
  | _ => .error (invalidInput s!"option '{name}' must be true or false")

/-- An option that may be missing. -/
def parseOptional {α : Type} (parse : String → String → IoResult α) (options : ConfigOptions)
    (key : String) : IoResult (Option α) :=
  match options.optional key with
  | none => .ok none
  | some value => some <$> parse key value

def parseIndexTypeOption (value : String) : IoResult IndexType :=
  match text.trim value with
  | "ivf_flat" => .ok .ivfFlat
  | "ivf_pq" => .ok .ivfPq
  | "ivf_rq" => .ok .ivfRq
  | "ivf_sq" => .ok .ivfSq
  | "diskann" => .ok .diskAnn
  | _ => .error (invalidInput
      s!"unknown index.type '{value}'; expected ivf_flat, ivf_sq, ivf_pq, ivf_rq, or diskann")

def parseMetricOption (value : String) : IoResult MetricType :=
  match text.trim value with
  | "l2" => .ok .l2
  | "inner_product" => .ok .innerProduct
  | "cosine" => .ok .cosine
  | _ => .error (invalidInput s!"unknown metric '{value}'; expected l2, inner_product, or cosine")

def parseDeploymentProfileOption (name value : String) : IoResult DeploymentProfile :=
  match text.trim value with
  | "auto" => .ok .auto
  | "memory" => .ok .memory
  | "local" | "local_storage" => .ok .localStorage
  | "remote" | "remote_storage" => .ok .remoteStorage
  | "object_store" => .ok .objectStore
  | _ => .error (invalidInput (s!"option '{name}' must be auto, memory, local_storage, " ++
      "remote_storage, or object_store"))

def parseNlistOptions (options : ConfigOptions) (expectedVectorCount : Option Nat) :
    IoResult Nat :=
  match (options.optional "nlist").map text.trim with
  | some "auto" | none => do
    let vectorCount ← okOr expectedVectorCount (invalidInput
      ("automatic nlist requires option 'expected-vector-count'; " ++
        "set nlist explicitly when the final row count is unknown"))
    text.inferIvfNlist vectorCount
  | some value => parseUsizeOption text "nlist" value

def parseIvfCoarseAssignmentOption (options : ConfigOptions) : IoResult Bool :=
  match (options.optional "ivf.coarse-assignment").map text.trim with
  | none | some "auto" => .ok true
  | some "exact" => .ok false
  | some _ => .error (invalidInput "option 'ivf.coarse-assignment' must be auto or exact")

def parseIvfPqEncodingOption (options : ConfigOptions) : IoResult Bool :=
  match (options.optional "ivf.pq-encoding").map text.trim with
  | none | some "auto" => .ok false
  | some "canonical" => .ok true
  | some _ => .error (invalidInput "option 'ivf.pq-encoding' must be auto or canonical")

/-- At 8 bits and in equal chunks. -/
def parsePqMOptions (options : ConfigOptions) (dimension pqBits : Nat)
    (maxCodeBytes : Option Nat) : IoResult Nat := do
  let explicitM ← parseOptional (parseUsizeOption text) options "pq.m"
  let explicitCodeRatio ← parseOptional (parseF64Option text) options "pq.code-ratio"
  let codeRatio := match explicitCodeRatio with
    | some ratio => if ratio.isFinite then some ratio.value else none
    | none => some ((maxCodeBytes.map (budgetRatio dimension pqBits)).getD defaultPqCodeRatio)
  validatePqCodeRatio pqBits codeRatio
  match explicitM with
  | some m => return m
  | none => inferUniformPqM dimension pqBits codeRatio

def parseUseOpq (options : ConfigOptions) (targetRecall : Option F32) : IoResult Bool :=
  -- The bit pattern is that of 0.9.
  let highRecall := targetRecall.any fun value => Scalar.ge value ⟨0x3F666666⟩
  match options.optional "use-opq" with
  | some value => if text.trim value = "auto" then .ok highRecall
    else parseBoolOption text "use-opq" value
  | none => .ok highRecall

def parseTrainingMaxPointsPerCentroid (options : ConfigOptions) (key : String) : IoResult Nat := do
  return (← parseOptional (parseUsizeOption text) options key).getD 256

end Options

/-! ### The plan -/

structure IvfPqConfig where
  dimension : Nat
  nlist : Nat
  m : Nat
  metric : MetricType
  useOpq : Bool
  useApproximateCoarseAssignment : Bool
  canonicalPqEncoding : Bool
  ivfTrainMaxPointsPerCentroid : Nat
  pqTrainMaxPointsPerCentroid : Nat
  deriving DecidableEq, Repr

structure TuningObjective where
  targetRecall : Option F32
  maxBytesPerVector : Option Nat
  maxBuildSeconds : Option F64
  deploymentProfile : DeploymentProfile
  deriving DecidableEq

structure VectorIndexBuildPlan where
  config : IvfPqConfig
  expectedVectorCount : Option Nat
  objective : TuningObjective
  deriving DecidableEq

def validateConfig (config : IvfPqConfig) : IoResult Unit := do
  validatePositive config.dimension "dimension"
  validatePositive config.nlist "nlist"
  validatePositive config.m "m"
  let dimension := config.dimension
  let m := config.m
  rejectIf (config.dimension % config.m ≠ 0)
    (invalidInput s!"dimension {dimension} must be divisible by m {m}")
  validatePositive config.ivfTrainMaxPointsPerCentroid "ivf.train.max-points-per-centroid"
  let _ ← okOr (checkedMul config.nlist config.ivfTrainMaxPointsPerCentroid)
    (invalidInput "ivf.train.max-points-per-centroid times centroid count overflows usize")
  validatePositive config.pqTrainMaxPointsPerCentroid "pq.train.max-points-per-centroid"
  let _ ← okOr (checkedMul 256 config.pqTrainMaxPointsPerCentroid)
    (invalidInput "pq.train.max-points-per-centroid times centroid count overflows usize")

def persistedFixedBytes (config : IvfPqConfig) : IoResult Nat := do
  let centroidBytes ← okOr
    ((checkedMul config.nlist config.dimension).bind (checkedMul · 4))
    (invalidInput "persisted centroid size estimate overflows usize")
  let listMetadataBytes ← okOr (checkedMul config.nlist 24)
    (invalidInput "persisted list metadata estimate overflows usize")
  let codebookBytes ← okOr ((checkedMul config.dimension 256).bind (checkedMul · 4))
    (invalidInput "IVF-PQ codebook estimate overflows usize")
  let opqBytes ← (if config.useOpq then
      okOr ((checkedMul config.dimension config.dimension).bind (checkedMul · 4))
        (invalidInput "OPQ matrix estimate overflows usize")
    else .ok 0 : IoResult Nat)
  -- The source has counted the row before it gives up on the sum.
  let _ ← okOr (checkedAdd config.m persistedRowIdEstimateBytes)
    (invalidInput "IVF-PQ row byte estimate overflows usize")
  okOr (((checkedAdd centroidBytes listMetadataBytes).bind (checkedAdd · codebookBytes)).bind
    (checkedAdd · opqBytes)) (invalidInput "persisted fixed-size estimate overflows usize")

def validatePersistedSizeObjective (config : IvfPqConfig) (expectedVectorCount : Option Nat)
    (maxBytesPerVector : Nat) : IoResult Unit := do
  let fixedBytes ← persistedFixedBytes config
  let rowBytes := config.m + persistedRowIdEstimateBytes
  let amortizedFixedBytes := (expectedVectorCount.map fun count =>
    saturatingAdd fixedBytes (count - 1) / count).getD 0
  let estimatedBytes ← okOr (checkedAdd rowBytes amortizedFixedBytes)
    (invalidInput "persisted per-vector estimate overflows usize")
  rejectIf (maxBytesPerVector < estimatedBytes) (invalidInput
    (s!"max-bytes-per-vector {maxBytesPerVector} cannot be satisfied by ivf_pq: " ++
      s!"estimated persisted size is {estimatedBytes} bytes per vector " ++
      s!"({rowBytes} row bytes + {amortizedFixedBytes} amortized fixed bytes)"))

section Plan

variable (text : TextParsers)

def parseObjective (options : ConfigOptions) : IoResult TuningObjective := do
  let targetRecall ← parseOptional (parseF32Option text) options "target-recall"
  rejectIf (targetRecall.any fun value => !value.isFinite ||
      !(Scalar.ge value F32.zero && Scalar.ge F32.one value))
    (invalidInput "target-recall must be finite and in [0, 1]")
  let maxBytesPerVector ← parseOptional (parseUsizeOption text) options "max-bytes-per-vector"
  let maxBuildSeconds ← parseOptional (parseF64Option text) options "max-build-seconds"
  rejectIf (maxBuildSeconds.any fun seconds => !seconds.isFinite || seconds.le ⟨0⟩)
    (invalidInput "max-build-seconds must be finite and greater than 0")
  let profile ← parseOptional (parseDeploymentProfileOption text) options "deployment-profile"
  return ⟨targetRecall, maxBytesPerVector, maxBuildSeconds, profile.getD .auto⟩

def parseIvfPqConfig (options : ConfigOptions) (dimension : Nat)
    (expectedVectorCount : Option Nat) (metric : MetricType) (objective : TuningObjective) :
    IoResult IvfPqConfig := do
  let useApproximateCoarseAssignment ← parseIvfCoarseAssignmentOption text options
  let canonicalPqEncoding ← parseIvfPqEncodingOption text options
  let nlist ← parseNlistOptions text options expectedVectorCount
  let maxCodeBytes ← (match objective.maxBytesPerVector with
    | none => .ok none
    | some bytes => some <$> persistedCodeBudget bytes "IVF-PQ" : IoResult (Option Nat))
  let m ← parsePqMOptions text options dimension 8 maxCodeBytes
  let useOpq ← parseUseOpq text options objective.targetRecall
  let ivfTrainMaxPointsPerCentroid ← parseTrainingMaxPointsPerCentroid text options
    "ivf.train.max-points-per-centroid"
  let pqTrainMaxPointsPerCentroid ← parseTrainingMaxPointsPerCentroid text options
    "pq.train.max-points-per-centroid"
  return ⟨dimension, nlist, m, metric, useOpq, useApproximateCoarseAssignment,
    canonicalPqEncoding, ivfTrainMaxPointsPerCentroid, pqTrainMaxPointsPerCentroid⟩

def parseIvfPqPlan (options : ConfigOptions) : IoResult VectorIndexBuildPlan := do
  let dimension ← parseUsizeOption text "dimension" (← options.required "dimension")
  let expectedVectorCount ← parseOptional (parseUsizeOption text) options "expected-vector-count"
  rejectIf (expectedVectorCount = some 0)
    (invalidInput "expected-vector-count must be greater than 0")
  let metric ← parseMetricOption text (← options.required "metric")
  let objective ← parseObjective text options
  let config ← parseIvfPqConfig text options dimension expectedVectorCount metric objective
  options.rejectUnknown ConfigOptions.ivfPqKeys
  validateConfig config
  return ⟨config, expectedVectorCount, objective⟩

/-- `others` is what the other types of index make of the options. -/
def VectorIndexBuildPlan.fromOptions
    (others : IndexType → ConfigOptions → IoResult VectorIndexBuildPlan)
    (options : List (String × String)) : IoResult VectorIndexBuildPlan := do
  let options ← ConfigOptions.new text options
  let indexType ← parseIndexTypeOption text (← options.required "index.type")
  if indexType = .ivfPq then do
    let plan ← parseIvfPqPlan text options
    match plan.objective.maxBytesPerVector with
    | none => return plan
    | some maxBytes => do
      validatePersistedSizeObjective plan.config plan.expectedVectorCount maxBytes
      return plan
  else others indexType options

end Plan

/-! ### The nearest divisor -/

/-- A member at the least distance, the largest of those. -/
def Nearest (target : Rat) (members : Nat → Prop) (m : Nat) : Prop :=
  members m ∧ ∀ other, members other → targetDistance target m < targetDistance target other ∨
    (targetDistance target m = targetDistance target other ∧ other ≤ m)

variable {members : Nat → Prop}

theorem Nearest.unique {target : Rat} {m m' : Nat} (h : Nearest target members m)
    (h' : Nearest target members m') : m = m' := by
  rcases h.2 m' h'.1 with hlt | ⟨heq, hle⟩
  · rcases h'.2 m h.1 with hlt' | ⟨heq', -⟩
    · exact absurd hlt' hlt.not_gt
    · exact absurd heq' hlt.ne'
  · rcases h'.2 m h.1 with hlt' | ⟨-, hle'⟩
    · exact absurd heq hlt'.ne'
    · exact Nat.le_antisymm hle' hle

/-- The state of the search when the candidates so far are `members`. -/
def Searched (target : Rat) (members : Nat → Prop) (best : Nat × Option Rat) : Prop :=
  (best.2 = none ∧ ∀ m, ¬members m) ∨
    (best.2 = some (targetDistance target best.1) ∧ Nearest target members best.1)

theorem consider_searched {target : Rat} {best : Nat × Option Rat}
    (h : Searched target members best) (candidate : Nat) :
    Searched target (fun m => members m ∨ m = candidate) (consider target best candidate) := by
  obtain ⟨m, distance⟩ := best
  right
  simp only [consider]
  rcases h with ⟨hnone, hempty⟩ | ⟨hsome, hmember, hnearest⟩
  · obtain rfl : distance = none := hnone
    rw [if_pos (.inl rfl)]
    refine ⟨rfl, .inr rfl, fun other hother => ?_⟩
    rcases hother with hother | rfl
    · exact absurd hother (hempty other)
    · exact .inr ⟨rfl, le_rfl⟩
  · obtain rfl : distance = some (targetDistance target m) := hsome
    simp only [Option.all_some, decide_eq_true_eq, Option.some.injEq] at hnearest ⊢
    split
    · rename_i hbetter
      refine ⟨rfl, .inr rfl, fun other hother => ?_⟩
      rcases hother with hother | rfl
      · rcases hbetter with hlt | ⟨heq, hlarger⟩
        · rcases hnearest other hother with hother | ⟨hother, -⟩
          · exact .inl (hlt.trans hother)
          · exact .inl (hother ▸ hlt)
        · rcases hnearest other hother with hother | ⟨hother, hle⟩
          · exact .inl (heq ▸ hother)
          · exact .inr ⟨heq.symm.trans hother, hle.trans hlarger.le⟩
      · exact .inr ⟨rfl, le_rfl⟩
    · rename_i hkeep
      rw [not_or, not_lt, not_and, not_lt] at hkeep
      refine ⟨rfl, .inl hmember, fun other hother => ?_⟩
      rcases hother with hother | rfl
      · exact hnearest other hother
      · rcases hkeep.1.lt_or_eq with hlt | heq
        · exact .inl hlt
        · exact .inr ⟨heq, hkeep.2 heq⟩

theorem Searched.congr {target : Rat} {members' : Nat → Prop} {best : Nat × Option Rat}
    (h : Searched target members best) (hiff : ∀ m, members m ↔ members' m) :
    Searched target members' best := by
  obtain rfl : members = members' := funext fun m => propext (hiff m)
  exact h

/-- The divisors that have been considered before `divisor`. -/
def ConsideredBefore (dimension divisor m : Nat) : Prop :=
  m ∣ dimension ∧ 0 < m ∧ (m < divisor ∨ dimension / m < divisor)

section Divisors

variable {dimension divisor : Nat} {target : Rat} {best : Nat × Option Rat}

theorem Searched.all (hdivisor : 0 < divisor) (hend : ¬divisor ≤ dimension / divisor)
    (h : Searched target (ConsideredBefore dimension divisor) best) :
    Searched target (fun m => m ∣ dimension ∧ 0 < m) best := by
  refine h.congr fun m => ⟨fun hm => ⟨hm.1, hm.2.1⟩, fun hm => ⟨hm.1, hm.2, ?_⟩⟩
  by_contra hneither
  rw [not_or, not_lt, not_lt] at hneither
  have hle : dimension / m ≤ dimension / divisor := Nat.div_le_div_left hneither.1 hdivisor
  omega

theorem consideredBefore_succ {paired : Nat} (hdivisor : 0 < divisor) (hpaired : 0 < paired)
    (hpair : dimension = divisor * paired) (m : Nat) :
    ConsideredBefore dimension (divisor + 1) m ↔
      (ConsideredBefore dimension divisor m ∨ m = divisor) ∨ m = paired := by
  constructor
  · rintro ⟨hm, hmpos, hlt⟩
    by_cases hold : m < divisor ∨ dimension / m < divisor
    · exact .inl (.inl ⟨hm, hmpos, hold⟩)
    · rw [not_or, not_lt, not_lt] at hold
      by_cases hsmall : m < divisor + 1
      · exact .inl (.inr (by omega))
      · have hpartner : dimension / m = divisor := by omega
        obtain ⟨other, hother⟩ := hm
        rw [hother, Nat.mul_div_cancel_left _ hmpos] at hpartner
        rw [hpair, hpartner, Nat.mul_comm] at hother
        exact .inr (Nat.eq_of_mul_eq_mul_right hdivisor hother).symm
  · rintro ((⟨hm, hmpos, hlt⟩ | rfl) | rfl)
    · exact ⟨hm, hmpos, by omega⟩
    · exact ⟨⟨paired, hpair⟩, hdivisor, .inl (Nat.lt_succ_self _)⟩
    · refine ⟨⟨divisor, by rw [hpair, Nat.mul_comm]⟩, hpaired, .inr ?_⟩
      rw [hpair, Nat.mul_div_cancel _ hpaired]
      exact Nat.lt_succ_self _

theorem consideredBefore_succ_of_not_dvd (hdvd : ¬divisor ∣ dimension) (m : Nat) :
    ConsideredBefore dimension divisor m ↔ ConsideredBefore dimension (divisor + 1) m := by
  refine ⟨fun hm => ⟨hm.1, hm.2.1, by have := hm.2.2; omega⟩, fun hm => ⟨hm.1, hm.2.1, ?_⟩⟩
  by_contra hneither
  rw [not_or, not_lt, not_lt] at hneither
  obtain ⟨⟨other, hother⟩, hmpos, hlt⟩ := hm
  rw [hother, Nat.mul_div_cancel_left _ hmpos] at hneither hlt
  rcases hlt with hlt | hlt
  · obtain rfl : m = divisor := by omega
    exact hdvd ⟨other, hother⟩
  · obtain rfl : other = divisor := by omega
    exact hdvd ⟨m, by rw [hother, Nat.mul_comm]⟩

theorem considerDivisors_searched {fuel : Nat} (hdivisor : 0 < divisor)
    (hfuel : dimension + 1 ≤ fuel + divisor)
    (h : Searched target (ConsideredBefore dimension divisor) best) :
    Searched target (fun m => m ∣ dimension ∧ 0 < m)
      (considerDivisors dimension target fuel divisor best) := by
  induction fuel generalizing divisor best with
  | zero =>
    refine h.all hdivisor ?_
    rw [Nat.div_eq_of_lt (by omega)]
    omega
  | succ fuel ih =>
    rw [considerDivisors]
    by_cases hloop : divisor ≤ dimension / divisor
    · rw [if_pos hloop]
      refine ih (Nat.succ_pos _) (by omega) ?_
      by_cases hdvd : dimension % divisor = 0
      · obtain ⟨paired, hpair⟩ := Nat.dvd_of_mod_eq_zero hdvd
        have hquotient : dimension / divisor = paired := by
          rw [hpair, Nat.mul_div_cancel_left _ hdivisor]
        have hsucc := consideredBefore_succ hdivisor (show 0 < paired by omega) hpair
        dsimp only
        rw [if_pos hdvd, hquotient]
        by_cases hsame : paired = divisor
        · rw [if_neg (not_not.mpr hsame)]
          refine (consider_searched h divisor).congr fun m => ?_
          rw [hsucc, hsame, or_assoc, or_self]
        · rw [if_pos hsame]
          exact (consider_searched (consider_searched h divisor) paired).congr
            fun m => (hsucc m).symm
      · rw [if_neg hdvd]
        exact h.congr (consideredBefore_succ_of_not_dvd fun hdiv =>
          hdvd (Nat.mod_eq_zero_of_dvd hdiv))
    · rw [if_neg hloop]
      exact h.all hdivisor hloop

end Divisors

theorem inferUniformPqM_nearest {dimension pqBits m : Nat} {ratio : Rat}
    (h : inferUniformPqM dimension pqBits (some ratio) = .ok m) :
    Nearest (targetM dimension pqBits ratio) (fun m => m ∣ dimension ∧ 0 < m) m := by
  simp only [inferUniformPqM, validatePositive, accepted, Option.getD_some] at h
  obtain ⟨hpos, -, -, rfl⟩ := h
  have hstart : Searched (targetM dimension pqBits ratio) (ConsideredBefore dimension 1)
      (1, none) := by
    refine .inl ⟨rfl, fun m hm => ?_⟩
    obtain ⟨⟨other, hother⟩, hmpos, hlt⟩ := hm
    rw [hother, Nat.mul_div_cancel_left _ hmpos] at hlt
    have : other ≠ 0 := by
      rintro rfl
      exact hpos hother
    omega
  rcases considerDivisors_searched Nat.one_pos le_rfl hstart with
    ⟨-, hnone⟩ | ⟨-, hnearest⟩
  · exact absurd ⟨one_dvd dimension, Nat.one_pos⟩ (hnone 1)
  · exact hnearest

/-! ### The size objective -/

namespace VectorIndexBuildPlan

/-- The plan with another number of subquantizers keeps the size. -/
def Fits (plan : VectorIndexBuildPlan) (budget m : Nat) : Prop :=
  validatePersistedSizeObjective { plan.config with m } plan.expectedVectorCount budget = .ok ()

def Satisfiable (plan : VectorIndexBuildPlan) (budget : Nat) : Prop :=
  ∃ m, m ∣ plan.config.dimension ∧ plan.Fits budget m

/-- The nearest divisor to the bytes that are left for the code keeps the size. -/
def NearestFits (plan : VectorIndexBuildPlan) (budget : Nat) : Prop :=
  ∃ m, Nearest
    (targetM plan.config.dimension 8
      (budgetRatio plan.config.dimension 8 (budget - persistedRowIdEstimateBytes)))
    (fun m => m ∣ plan.config.dimension ∧ 0 < m) m ∧ plan.Fits budget m

end VectorIndexBuildPlan

open VectorIndexBuildPlan

theorem parseOptional_missing {α : Type} {parse : String → String → IoResult α}
    {options : ConfigOptions} {key : String} (h : options.optional key = none) :
    parseOptional parse options key = .ok none := by
  rw [parseOptional, h]

theorem parseIvfPqPlan_nearest {text : TextParsers} {options : ConfigOptions}
    {plan : VectorIndexBuildPlan} (h : parseIvfPqPlan text options = .ok plan)
    (hm : options.optional "pq.m" = none) (hratio : options.optional "pq.code-ratio" = none)
    {budget : Nat} (hbudget : plan.objective.maxBytesPerVector = some budget) :
    Nearest (targetM plan.config.dimension 8
        (budgetRatio plan.config.dimension 8 (budget - persistedRowIdEstimateBytes)))
      (fun m => m ∣ plan.config.dimension ∧ 0 < m) plan.config.m := by
  simp only [parseIvfPqPlan, bind_eq_ok, pure_ok_iff] at h
  obtain ⟨_, -, dimension, -, count, -, -, -, _, -, metric, -, objective, -, config, hconfig, -, -,
    -, -, rfl⟩ := h
  dsimp only at hbudget ⊢
  simp only [parseIvfPqConfig, bind_eq_ok, pure_ok_iff, hbudget] at hconfig
  obtain ⟨_, -, _, -, nlist, -, maxCodeBytes, hcode, m, hparse, _, -, _, -, _, -, rfl⟩ := hconfig
  dsimp only
  simp only [persistedCodeBudget] at hcode
  obtain ⟨bytes, hbytes, rfl⟩ : ∃ bytes, budget - persistedRowIdEstimateBytes = bytes ∧
      some bytes = maxCodeBytes := by
    cases hfound : (checkedSub budget persistedRowIdEstimateBytes).filter (0 < ·) with
    | none =>
      rw [hfound] at hcode
      cases hcode
    | some bytes =>
      rw [hfound] at hcode
      cases hcode
      obtain ⟨hsub, -⟩ := Option.filter_eq_some_iff.mp hfound
      exact ⟨bytes, (checkedSub_eq_some.mp hsub).2, rfl⟩
  simp only [parsePqMOptions, parseOptional_missing hm, parseOptional_missing hratio, ok_bind,
    Option.map_some, Option.getD_some, bind_eq_ok] at hparse
  obtain ⟨-, -, hinfer⟩ := hparse
  rw [hbytes]
  exact inferUniformPqM_nearest hinfer

/-- A size that some divisor of the dimension keeps is honoured exactly when the
nearest divisor keeps it too. -/
theorem size_objective_honoured_iff (text : TextParsers)
    (others : IndexType → ConfigOptions → IoResult VectorIndexBuildPlan)
    {given : List (String × String)} {options : ConfigOptions}
    (hoptions : ConfigOptions.new text given = .ok options)
    (htype : (options.required "index.type" >>= parseIndexTypeOption text) = .ok .ivfPq)
    {plan : VectorIndexBuildPlan} (hplan : parseIvfPqPlan text options = .ok plan)
    (hm : options.optional "pq.m" = none) (hratio : options.optional "pq.code-ratio" = none)
    {budget : Nat} (hbudget : plan.objective.maxBytesPerVector = some budget) :
    (plan.Satisfiable budget →
        fromOptions text others given = .ok plan) ↔
      (plan.Satisfiable budget → plan.NearestFits budget) := by
  have hnearest := parseIvfPqPlan_nearest hplan hm hratio hbudget
  have hsize : fromOptions text others given = .ok plan ↔
      plan.Fits budget plan.config.m := by
    obtain ⟨typeName, hname, htype⟩ := bind_eq_ok.mp htype
    rw [fromOptions, hoptions, ok_bind, hname, ok_bind, htype, ok_bind,
      if_pos rfl, hplan, ok_bind, hbudget]
    rw [Fits, bind_eq_ok]
    exact ⟨fun ⟨⟨⟩, hok, _⟩ => hok, fun hok => ⟨(), hok, rfl⟩⟩
  refine forall_congr' fun _ => hsize.trans ⟨fun hfits => ⟨_, hnearest, hfits⟩, ?_⟩
  rintro ⟨m, hm, hfits⟩
  rwa [hnearest.unique hm]

def fewNumbers : TextParsers where
  trim := id
  usize
    | "1" => some 1
    | "7" => some 7
    | "8" => some 8
    | "14" => some 14
    | "15" => some 15
    | _ => none
  f32 _ := none
  f64 _ := none
  inferIvfNlist _ := .ok 1

def sizedOptions (dimension budget : String) : List (String × String) :=
  [("index.type", "ivf_pq"), ("dimension", dimension), ("nlist", "1"), ("metric", "l2"),
    ("max-bytes-per-vector", budget)]

def sizedPlan (dimension m budget : Nat) : VectorIndexBuildPlan :=
  ⟨⟨dimension, 1, m, .l2, false, true, false, 256, 256⟩, none, ⟨none, some budget, none, .auto⟩⟩

/-- Of eight dimensions four fit into fourteen bytes, and are the nearest. -/
theorem size_objective_honoured_eight :
    fromOptions fewNumbers (fun _ _ => .error (panicked ""))
      (sizedOptions "8" "14") = .ok (sizedPlan 8 4 14) := by
  have hplan : parseIvfPqPlan fewNumbers (sizedOptions "8" "14") = .ok (sizedPlan 8 4 14) := by
    decide +kernel
  have hfits : (sizedPlan 8 4 14).Fits 14 4 := by
    simp only [Fits]
    decide +kernel
  have hoptions : ConfigOptions.new fewNumbers (sizedOptions "8" "14") =
      .ok (sizedOptions "8" "14") := by decide +kernel
  refine (size_objective_honoured_iff fewNumbers _ hoptions (by decide +kernel) hplan
    (by decide +kernel) (by decide +kernel) rfl).mpr (fun _ => ⟨4, ?_, hfits⟩)
    ⟨4, by decide, hfits⟩
  exact parseIvfPqPlan_nearest hplan (by decide +kernel) (by decide +kernel) rfl

/-- Fifteen bytes leave five for the code of seven dimensions. The nearest divisor
is seven, which does not fit, although one would. -/
theorem size_objective_of_seven_refused :
    (sizedPlan 7 1 15).Fits 15 1 ∧
    fromOptions fewNumbers (fun _ _ => .error (panicked ""))
      (sizedOptions "7" "15") =
        .error (invalidInput ("max-bytes-per-vector 15 cannot be satisfied by ivf_pq: " ++
          "estimated persisted size is 17 bytes per vector " ++
          "(17 row bytes + 0 amortized fixed bytes)")) := by
  constructor
  · simp only [Fits]
    decide +kernel
  · decide +kernel

end PaimonVindex
