import PaimonVindex.Float32

/-! What the search uses of single-precision values apart from arithmetic. The
arithmetic itself is taken from the operations of the type, which need not be
those of exact numbers. -/

namespace PaimonVindex

class Scalar (K : Type) where
  ofF32 : F32 → K
  isNan : K → Bool
  isFinite : K → Bool
  /-- `a.total_cmp(&b).is_lt()`. -/
  totalLt : K → K → Bool
  /-- The comparison `a >= b` of values, false for a NaN. -/
  ge : K → K → Bool
  maxValue : K
  infinity : K
  /-- The comparison with `f32::MAX` as values. -/
  isMaxValue : K → Bool
  isMaxValue_maxValue : isMaxValue maxValue = true

namespace F32

/-- The position of a bit pattern in the total order. -/
def totalKey (x : F32) : Int := if x.isNegative then -(x.magnitude : Int) - 1 else x.magnitude

def infinity : F32 := ⟨0x7F800000⟩

end F32

instance : Scalar F32 where
  ofF32 := id
  isNan := F32.isNan
  isFinite := F32.isFinite
  totalLt x y := x.totalKey < y.totalKey
  ge x y := !x.isNan ∧ !y.isNan ∧ y.key ≤ x.key
  maxValue := F32.max
  infinity := F32.infinity
  isMaxValue x := x = F32.max
  isMaxValue_maxValue := by decide

theorem map_ofF32 (data : List F32) : data.map Scalar.ofF32 = data := List.map_id _

namespace F32

/-- The value of a finite bit pattern. An infinity gets the value 2^128. -/
def toRat (x : F32) : Rat :=
  let fraction : Nat := x.bits.toNat % 2 ^ 23
  let value : Rat :=
    if x.exponent = 0 then mkRat fraction (2 ^ 149)
    else mkRat (((2 ^ 23 + fraction) * 2 ^ x.exponent : Nat) : Int) (2 ^ 150)
  if x.isNegative then -value else value

end F32

/-- Exact values. They are never NaN, and the largest finite one is that of
single precision. -/
instance : Scalar Rat where
  ofF32 := F32.toRat
  isNan _ := false
  isFinite x := -((2 ^ 128 : Int) : Rat) < x ∧ x < ((2 ^ 128 : Int) : Rat)
  totalLt x y := x < y
  ge x y := y ≤ x
  maxValue := ((2 ^ 128 - 2 ^ 104 : Int) : Rat)
  infinity := ((2 ^ 128 : Int) : Rat)
  isMaxValue x := x = ((2 ^ 128 - 2 ^ 104 : Int) : Rat)
  isMaxValue_maxValue := decide_eq_true rfl

/-- Ranks that order the values as `total_cmp` does. -/
structure Ranked {K R : Type} [Scalar K] [LinearOrder R] (rank : K → R) : Prop where
  totalLt_iff : ∀ x y, Scalar.totalLt x y = true ↔ rank x < rank y
  injective : Function.Injective rank

theorem ranked_rat : Ranked (id : Rat → Rat) :=
  ⟨fun _ _ => decide_eq_true_iff, fun _ _ h => h⟩

inductive MetricType where
  | l2
  | innerProduct
  | cosine
  deriving DecidableEq, Repr

namespace MetricType

def code : MetricType → UInt32
  | l2 => 0
  | innerProduct => 1
  | cosine => 2

def fromCode (code : UInt32) : Option MetricType :=
  if code = 0 then some l2
  else if code = 1 then some innerProduct
  else if code = 2 then some cosine
  else none

@[simp] theorem fromCode_code (metric : MetricType) : fromCode metric.code = some metric := by
  cases metric <;> rfl

end MetricType

end PaimonVindex
