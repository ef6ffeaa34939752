import PaimonVindex.Float32

/-! Double-precision values by their bit patterns, and the widening of single
precision, which keeps the order. -/

namespace PaimonVindex

structure F64 where
  bits : UInt64
  deriving DecidableEq, Repr

namespace F64

def magnitude (x : F64) : Nat := x.bits.toNat % 2 ^ 63

def isNegative (x : F64) : Bool := 2 ^ 63 ≤ x.bits.toNat

def isNan (x : F64) : Bool := 2047 * 2 ^ 52 < x.magnitude

def isFinite (x : F64) : Bool := x.magnitude < 2047 * 2 ^ 52

/-- The order of the values, both zeros alike. -/
def key (x : F64) : Int := if x.isNegative then -(x.magnitude : Int) else x.magnitude

def lt (x y : F64) : Bool := !x.isNan ∧ !y.isNan ∧ x.key < y.key

def le (x y : F64) : Bool := !x.isNan ∧ !y.isNan ∧ x.key ≤ y.key

def neg (x : F64) : F64 :=
  ⟨UInt64.ofNat (x.magnitude + if x.isNegative then 0 else 2 ^ 63)⟩

/-- The bits of a single-precision magnitude in double precision. A subnormal
one gets its leading bit as the implicit one. -/
def widenMagnitude (m : Nat) : Nat :=
  if m = 0 then 0
  else if m < 2 ^ 23 then (m.log2 + 874) * 2 ^ 52 + (m - 2 ^ m.log2) * 2 ^ (52 - m.log2)
  else if m < 255 * 2 ^ 23 then (m + 896 * 2 ^ 23) * 2 ^ 29
  else 2047 * 2 ^ 52 + (m - 255 * 2 ^ 23) * 2 ^ 29

def ofF32 (x : F32) : F64 :=
  ⟨UInt64.ofNat (widenMagnitude x.magnitude + if x.isNegative then 2 ^ 63 else 0)⟩

end F64

variable {x : F32} {m : Nat}

namespace F32

def neg (x : F32) : F32 :=
  ⟨UInt32.ofNat (x.magnitude + if x.isNegative then 0 else 2 ^ 31)⟩

theorem magnitude_lt (x : F32) : x.magnitude < 2 ^ 31 := Nat.mod_lt _ (by omega)

theorem isFinite_iff (x : F32) : x.isFinite ↔ x.magnitude < 255 * 2 ^ 23 := by
  rw [isFinite, decide_eq_true_iff, exponent, magnitude]
  omega

theorem not_isNan_of_isFinite (h : x.isFinite) : x.isNan = false := by
  simp only [isFinite, decide_eq_true_eq] at h
  simp [isNan, h]

theorem ofSigned_spec (hm : m < 2 ^ 31) (negative : Bool) :
    (⟨UInt32.ofNat (m + if negative then 2 ^ 31 else 0)⟩ : F32).magnitude = m ∧
      (⟨UInt32.ofNat (m + if negative then 2 ^ 31 else 0)⟩ : F32).isNegative = negative := by
  have hbits : (UInt32.ofNat (m + if negative then 2 ^ 31 else 0)).toNat =
      m + if negative then 2 ^ 31 else 0 := by
    rw [UInt32.toNat_ofNat']
    apply Nat.mod_eq_of_lt
    cases negative <;> simp <;> omega
  simp only [magnitude, isNegative, hbits]
  cases negative <;> simp <;> omega

theorem neg_spec (x : F32) : x.neg.magnitude = x.magnitude ∧ x.neg.isNegative = !x.isNegative := by
  have h := ofSigned_spec x.magnitude_lt (!x.isNegative)
  cases hx : x.isNegative <;> simpa [neg, hx] using h

theorem isFinite_neg (x : F32) : x.neg.isFinite = x.isFinite := by
  rw [Bool.eq_iff_iff, isFinite_iff, isFinite_iff, x.neg_spec.1]

end F32

namespace F64

theorem magnitude_lt (x : F64) : x.magnitude < 2 ^ 63 := Nat.mod_lt _ (by omega)

theorem not_isNan_of_isFinite {x : F64} (h : x.isFinite) : x.isNan = false := by
  simp only [isFinite, isNan, decide_eq_true_eq, decide_eq_false_iff_not] at *
  omega

theorem ofSigned_spec (hm : m < 2 ^ 63) (negative : Bool) :
    (⟨UInt64.ofNat (m + if negative then 2 ^ 63 else 0)⟩ : F64).magnitude = m ∧
      (⟨UInt64.ofNat (m + if negative then 2 ^ 63 else 0)⟩ : F64).isNegative = negative := by
  have hbits : (UInt64.ofNat (m + if negative then 2 ^ 63 else 0)).toNat =
      m + if negative then 2 ^ 63 else 0 := by
    rw [UInt64.toNat_ofNat']
    apply Nat.mod_eq_of_lt
    cases negative <;> simp <;> omega
  simp only [magnitude, isNegative, hbits]
  cases negative <;> simp <;> omega

theorem neg_spec (x : F64) : x.neg.magnitude = x.magnitude ∧ x.neg.isNegative = !x.isNegative := by
  have h := ofSigned_spec x.magnitude_lt (!x.isNegative)
  cases hx : x.isNegative <;> simpa [neg, hx] using h

theorem key_neg (x : F64) : x.neg.key = -x.key := by
  obtain ⟨hm, hs⟩ := x.neg_spec
  rw [key, key, hm, hs]
  cases x.isNegative <;> simp

theorem isFinite_neg (x : F64) : x.neg.isFinite = x.isFinite := by
  rw [isFinite, isFinite, x.neg_spec.1]

theorem lt_iff {x y : F64} (hx : x.isFinite) (hy : y.isFinite) : x.lt y ↔ x.key < y.key := by
  simp [lt, not_isNan_of_isFinite hx, not_isNan_of_isFinite hy]

theorem le_iff {x y : F64} (hx : x.isFinite) (hy : y.isFinite) : x.le y ↔ x.key ≤ y.key := by
  simp [le, not_isNan_of_isFinite hx, not_isNan_of_isFinite hy]

/-! ### Widening -/

theorem widenMagnitude_subnormal {k : Nat} (hlow : 2 ^ k ≤ m) (hhigh : m < 2 ^ (k + 1))
    (hk : k < 23) : widenMagnitude m = (k + 873) * 2 ^ 52 + m * 2 ^ (52 - k) := by
  have hpos : m ≠ 0 := by
    have := Nat.two_pow_pos k
    omega
  have hlog : m.log2 = k := (Nat.log2_eq_iff hpos).mpr ⟨hlow, hhigh⟩
  have hlt : m < 2 ^ 23 := hhigh.trans_le (Nat.pow_le_pow_right (by omega) hk)
  have hunit : 2 ^ k * 2 ^ (52 - k) = 2 ^ 52 := by
    rw [← Nat.pow_add]
    congr 1
    omega
  have hle : 2 ^ k * 2 ^ (52 - k) ≤ m * 2 ^ (52 - k) := Nat.mul_le_mul_right _ hlow
  rw [widenMagnitude, if_neg hpos, if_pos hlt, hlog, Nat.sub_mul]
  omega

theorem exists_leading_bit (hpos : 0 < m) (hlt : m < 2 ^ 23) :
    ∃ k < 23, 2 ^ k ≤ m ∧ m < 2 ^ (k + 1) := by
  obtain ⟨hlow, hhigh⟩ := (Nat.log2_eq_iff (Nat.ne_of_gt hpos)).mp (rfl : m.log2 = m.log2)
  refine ⟨m.log2, ?_, hlow, hhigh⟩
  by_contra hge
  have := Nat.pow_le_pow_right (show 0 < 2 by omega) (Nat.le_of_not_lt hge)
  omega

theorem widenMagnitude_subnormal_bounds {k : Nat} (hlow : 2 ^ k ≤ m) (hhigh : m < 2 ^ (k + 1))
    (hk : k < 23) :
    (k + 874) * 2 ^ 52 ≤ widenMagnitude m ∧ widenMagnitude m < (k + 875) * 2 ^ 52 := by
  rw [widenMagnitude_subnormal hlow hhigh hk]
  have hunit : 2 ^ k * 2 ^ (52 - k) = 2 ^ 52 := by
    rw [← Nat.pow_add]
    congr 1
    omega
  have hle : 2 ^ k * 2 ^ (52 - k) ≤ m * 2 ^ (52 - k) := Nat.mul_le_mul_right _ hlow
  have hlt : m * 2 ^ (52 - k) < 2 ^ (k + 1) * 2 ^ (52 - k) :=
    Nat.mul_lt_mul_of_pos_right hhigh (Nat.two_pow_pos _)
  rw [Nat.pow_succ] at hlt
  have hdouble : 2 ^ k * 2 * 2 ^ (52 - k) = 2 * 2 ^ 52 := by
    rw [Nat.mul_right_comm, hunit, Nat.mul_comm]
  omega

theorem widenMagnitude_normal (hlow : 2 ^ 23 ≤ m) (hhigh : m < 255 * 2 ^ 23) :
    widenMagnitude m = (m + 896 * 2 ^ 23) * 2 ^ 29 := by
  rw [widenMagnitude, if_neg (by omega), if_neg (by omega), if_pos hhigh]

theorem widenMagnitude_zero : widenMagnitude 0 = 0 := rfl

theorem widenMagnitude_finite (h : m < 255 * 2 ^ 23) : widenMagnitude m < 2047 * 2 ^ 52 := by
  rcases Nat.eq_zero_or_pos m with hzero | hpos
  · have hwidened : widenMagnitude m = 0 := if_pos hzero
    omega
  by_cases hsub : m < 2 ^ 23
  · obtain ⟨k, hk, hlow, hhigh⟩ := exists_leading_bit hpos hsub
    have hbound := (widenMagnitude_subnormal_bounds hlow hhigh hk).2
    have hexponent : k + 875 ≤ 2047 := by omega
    exact hbound.trans_le (Nat.mul_le_mul_right _ hexponent)
  · rw [widenMagnitude_normal (by omega) h]
    omega

theorem widenMagnitude_mono {n : Nat} (hmn : m ≤ n) (hn : n < 255 * 2 ^ 23) :
    widenMagnitude m ≤ widenMagnitude n := by
  rcases Nat.eq_zero_or_pos m with rfl | hpos
  · exact Nat.zero_le _
  by_cases hm : m < 2 ^ 23
  · obtain ⟨k, hk, hlow, hhigh⟩ := exists_leading_bit hpos hm
    have hbounds := widenMagnitude_subnormal_bounds hlow hhigh hk
    by_cases hn' : n < 2 ^ 23
    · obtain ⟨k', hk', hlow', hhigh'⟩ := exists_leading_bit (by omega) hn'
      rcases Nat.lt_trichotomy k k' with hlt | rfl | hgt
      · -- The leading bit moves up, and so does the exponent.
        have hbounds' := widenMagnitude_subnormal_bounds hlow' hhigh' hk'
        omega
      · rw [widenMagnitude_subnormal hlow hhigh hk, widenMagnitude_subnormal hlow' hhigh' hk']
        exact Nat.add_le_add_left (Nat.mul_le_mul_right _ hmn) _
      · have hpow := Nat.pow_le_pow_right (show 0 < 2 by omega) (Nat.succ_le_of_lt hgt)
        exfalso
        exact absurd (hhigh'.trans_le hpow) (by omega)
    · rw [widenMagnitude_normal (by omega) hn]
      omega
  · rw [widenMagnitude_normal (by omega) (by omega), widenMagnitude_normal (by omega) hn]
    omega

theorem ofF32_spec (h : x.isFinite) :
    (ofF32 x).magnitude = widenMagnitude x.magnitude ∧ (ofF32 x).isNegative = x.isNegative := by
  have hfinite := widenMagnitude_finite (x.isFinite_iff.mp h)
  exact ofSigned_spec (by omega) x.isNegative

theorem isFinite_ofF32 (h : x.isFinite) : (ofF32 x).isFinite := by
  rw [isFinite, (ofF32_spec h).1]
  exact decide_eq_true (widenMagnitude_finite (x.isFinite_iff.mp h))

theorem key_ofF32 (h : x.isFinite) :
    (ofF32 x).key =
      if x.isNegative then -(widenMagnitude x.magnitude : Int) else widenMagnitude x.magnitude := by
  obtain ⟨hm, hs⟩ := ofF32_spec h
  rw [key, hm, hs]

theorem key_ofF32_neg (h : x.isFinite) : (ofF32 x.neg).key = -(ofF32 x).key := by
  rw [key_ofF32 h, key_ofF32 (by rwa [F32.isFinite_neg]), x.neg_spec.1, x.neg_spec.2]
  cases x.isNegative <;> simp

theorem key_ofF32_mono {y : F32} (hx : x.isFinite) (hy : y.isFinite) (hxy : x.key ≤ y.key) :
    (ofF32 x).key ≤ (ofF32 y).key := by
  rw [key_ofF32 hx, key_ofF32 hy]
  rw [F32.key, F32.key] at hxy
  have hxlt := x.isFinite_iff.mp hx
  have hylt := y.isFinite_iff.mp hy
  cases hsx : x.isNegative <;> cases hsy : y.isNegative <;>
    simp only [hsx, hsy, Bool.false_eq_true, if_true, if_false] at hxy ⊢
  · have := widenMagnitude_mono (show x.magnitude ≤ y.magnitude by omega) hylt
    omega
  · -- A negative value below which there is a positive one: both are zero.
    have hx0 : x.magnitude = 0 := by omega
    have hy0 : y.magnitude = 0 := by omega
    rw [hx0, hy0, widenMagnitude_zero]
    omega
  · omega
  · have := widenMagnitude_mono (show y.magnitude ≤ x.magnitude by omega) hxlt
    omega

end F64

end PaimonVindex
