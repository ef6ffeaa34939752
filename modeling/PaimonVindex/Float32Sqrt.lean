import PaimonVindex.Float64
import Mathlib.Data.Nat.Log

/-! The square root of single-precision values by their bit patterns: it is correctly
rounded and monotone. -/

namespace PaimonVindex

theorem isFinite_iff_key (v : F32) :
    v.isFinite ↔ -(255 * 2 ^ 23) < v.key ∧ v.key < 255 * 2 ^ 23 := by
  rw [F32.isFinite_iff, F32.key]
  split <;> omega

/-- A stored squared distance. -/
def Squared (v : F32) : Prop := v.isFinite = true ∧ 0 ≤ v.key

theorem key_ofBits {bits : Nat} (h : bits < 2 ^ 31) : (⟨UInt32.ofNat bits⟩ : F32).key = bits := by
  obtain ⟨hm, hs⟩ := F32.ofSigned_spec h false
  simp only [Bool.false_eq_true, if_false, Nat.add_zero] at hm hs
  rw [F32.key, hm, hs]
  rfl

/-- What is used of the square root: it is monotone and has finite values where
it is taken. -/
structure MonotoneSqrt (sqrt : F32 → F32) : Prop where
  finite : ∀ v, Squared v → (sqrt v).isFinite
  mono : ∀ v w, Squared v → Squared w → v.key ≤ w.key → (sqrt v).key ≤ (sqrt w).key

namespace F32

/-- The value in units of the smallest one. -/
def scaledMagnitude (n : Nat) : Nat :=
  if n < 2 ^ 23 then n else (2 ^ 23 + n % 2 ^ 23) * 2 ^ (n / 2 ^ 23 - 1)

/-- Twice the root, with a last bit that is set when it is not exact. -/
def stickyRoot (n : Nat) : Nat :=
  2 * Nat.sqrt n + if Nat.sqrt n * Nat.sqrt n < n then 1 else 0

/-- The nearest number of 24 digits. A root is never half way between two. -/
def roundToMagnitude (root : Nat) : Nat :=
  let shift := Nat.log2 root - 23
  (shift + 25) * 2 ^ 23 + (root + 2 ^ (shift - 1)) / 2 ^ shift

/-- `f32::sqrt`, which is correctly rounded. -/
def sqrt (v : F32) : F32 :=
  if v.isNan ∨ (v.isNegative ∧ v.magnitude ≠ 0) then ⟨0x7FC00000⟩
  else if v.magnitude = 0 ∨ v.isFinite = false then v
  else ⟨UInt32.ofNat (roundToMagnitude (stickyRoot (2 * scaledMagnitude v.magnitude * 4 ^ 48)))⟩

example : sqrt ⟨0x40000000⟩ = ⟨0x3FB504F3⟩ := by decide +kernel

theorem scaledMagnitude_mono {m n : Nat} (h : m ≤ n) : scaledMagnitude m ≤ scaledMagnitude n := by
  rw [scaledMagnitude, scaledMagnitude]
  have hm := Nat.mod_lt m (show 2 ^ 23 > 0 by omega)
  by_cases hn : n < 2 ^ 23
  · rw [if_pos hn, if_pos (by omega)]
    exact h
  rw [if_neg hn]
  by_cases hsmall : m < 2 ^ 23
  · rw [if_pos hsmall]
    calc m ≤ (2 ^ 23 + n % 2 ^ 23) * 1 := by omega
      _ ≤ _ := Nat.mul_le_mul_left _ Nat.one_le_two_pow
  rw [if_neg hsmall]
  by_cases hexp : m / 2 ^ 23 = n / 2 ^ 23
  · rw [hexp]
    exact Nat.mul_le_mul_right _ (by omega)
  · -- A larger exponent outweighs every fraction.
    have hstep : m / 2 ^ 23 - 1 + 1 ≤ n / 2 ^ 23 - 1 := by omega
    calc (2 ^ 23 + m % 2 ^ 23) * 2 ^ (m / 2 ^ 23 - 1)
        ≤ (2 ^ 23 + 2 ^ 23) * 2 ^ (m / 2 ^ 23 - 1) := Nat.mul_le_mul_right _ (by omega)
      _ = 2 ^ 23 * 2 ^ (m / 2 ^ 23 - 1 + 1) := by rw [Nat.pow_succ]; ring
      _ ≤ 2 ^ 23 * 2 ^ (n / 2 ^ 23 - 1) :=
        Nat.mul_le_mul_left _ (Nat.pow_le_pow_right (by omega) hstep)
      _ ≤ _ := Nat.mul_le_mul_right _ (by omega)

theorem scaledMagnitude_bounds {n : Nat} (hpos : 0 < n) (hfinite : n < 255 * 2 ^ 23) :
    1 ≤ scaledMagnitude n ∧ scaledMagnitude n < 2 ^ 278 := by
  constructor
  · exact scaledMagnitude_mono (show 1 ≤ n from hpos)
  · calc scaledMagnitude n ≤ scaledMagnitude (255 * 2 ^ 23) := scaledMagnitude_mono hfinite.le
      _ < 2 ^ 278 := by decide +kernel

theorem stickyRoot_mono {m n : Nat} (h : m ≤ n) : stickyRoot m ≤ stickyRoot n := by
  rw [stickyRoot, stickyRoot]
  have hroot := Nat.sqrt_le_sqrt h
  by_cases heq : Nat.sqrt m = Nat.sqrt n
  · rw [heq]
    split <;> split <;> omega
  · split <;> split <;> omega

theorem roundToMagnitude_bounds {root : Nat} (h : 2 ^ 24 ≤ root) :
    (Nat.log2 root - 23 + 26) * 2 ^ 23 ≤ roundToMagnitude root ∧
      roundToMagnitude root ≤ (Nat.log2 root - 23 + 27) * 2 ^ 23 := by
  have hlog : 24 ≤ Nat.log2 root := (Nat.le_log2 (by omega)).mpr h
  have hlow : 2 ^ 23 * 2 ^ (Nat.log2 root - 23) ≤ root := by
    rw [← Nat.pow_add, show 23 + (Nat.log2 root - 23) = Nat.log2 root by omega]
    exact Nat.log2_self_le (by omega)
  have hhigh : root < 2 ^ 24 * 2 ^ (Nat.log2 root - 23) := by
    rw [← Nat.pow_add, show 24 + (Nat.log2 root - 23) = Nat.log2 root + 1 by omega]
    exact Nat.lt_log2_self
  have hhalf : 2 ^ (Nat.log2 root - 23) = 2 * 2 ^ (Nat.log2 root - 23 - 1) := by
    rw [← Nat.pow_succ', Nat.succ_eq_add_one, Nat.sub_add_cancel (by omega)]
  simp only [roundToMagnitude]
  generalize Nat.log2 root - 23 = shift at *
  have hdigits : 2 ^ 23 ≤ (root + 2 ^ (shift - 1)) / 2 ^ shift := by
    rw [Nat.le_div_iff_mul_le (Nat.two_pow_pos _)]
    omega
  have hcarry : (root + 2 ^ (shift - 1)) / 2 ^ shift ≤ 2 ^ 24 := by
    rw [← Nat.lt_succ_iff, Nat.div_lt_iff_lt_mul (Nat.two_pow_pos _), Nat.succ_mul]
    omega
  omega

theorem roundToMagnitude_mono {root root' : Nat} (hroot : 2 ^ 24 ≤ root) (h : root ≤ root') :
    roundToMagnitude root ≤ roundToMagnitude root' := by
  have hlog : Nat.log2 root ≤ Nat.log2 root' := by
    rw [Nat.log2_eq_log_two, Nat.log2_eq_log_two]
    exact Nat.log_mono_right h
  have hlow : 24 ≤ Nat.log2 root := (Nat.le_log2 (by omega)).mpr hroot
  by_cases heq : Nat.log2 root = Nat.log2 root'
  · simp only [roundToMagnitude, heq]
    exact Nat.add_le_add_left (Nat.div_le_div_right (Nat.add_le_add_right h _)) _
  · have hroot' := (roundToMagnitude_bounds (hroot.trans h)).1
    have hroot := (roundToMagnitude_bounds hroot).2
    calc roundToMagnitude root ≤ (Nat.log2 root - 23 + 27) * 2 ^ 23 := hroot
      _ ≤ (Nat.log2 root' - 23 + 26) * 2 ^ 23 := Nat.mul_le_mul_right _ (by omega)
      _ ≤ _ := hroot'

theorem stickyRoot_bounds {n : Nat} (hpos : 0 < n) (hfinite : n < 255 * 2 ^ 23) :
    2 ^ 49 ≤ stickyRoot (2 * scaledMagnitude n * 4 ^ 48) ∧
      stickyRoot (2 * scaledMagnitude n * 4 ^ 48) < 2 ^ 190 := by
  obtain ⟨hlow, hhigh⟩ := scaledMagnitude_bounds hpos hfinite
  constructor
  · calc 2 ^ 49 ≤ stickyRoot (2 * 1 * 4 ^ 48) := by decide +kernel
      _ ≤ _ := stickyRoot_mono (by omega)
  · calc stickyRoot (2 * scaledMagnitude n * 4 ^ 48) ≤ stickyRoot (2 * 2 ^ 278 * 4 ^ 48) :=
        stickyRoot_mono (by omega)
      _ < 2 ^ 190 := by decide +kernel

end F32

theorem F32.key_of_squared {v : F32} (hv : Squared v) : v.key = v.magnitude := by
  obtain ⟨-, hnonneg⟩ := hv
  rw [F32.key] at hnonneg ⊢
  split
  · rename_i hneg
    rw [if_pos hneg] at hnonneg
    omega
  · rfl

theorem F32.key_sqrt {v : F32} (hv : Squared v) :
    v.sqrt.key = (if v.magnitude = 0 then 0
      else roundToMagnitude (stickyRoot (2 * scaledMagnitude v.magnitude * 4 ^ 48)) : Nat) ∧
      v.sqrt.isFinite := by
  have hkey := F32.key_of_squared hv
  have hfinite := (F32.isFinite_iff v).mp hv.1
  have hproper : ¬(v.isNan ∨ (v.isNegative ∧ v.magnitude ≠ 0)) := by
    rintro (hnan | ⟨hneg, hzero⟩)
    · rw [F32.not_isNan_of_isFinite hv.1] at hnan
      cases hnan
    · rw [F32.key, if_pos hneg] at hkey
      omega
  rw [F32.sqrt, if_neg hproper]
  by_cases hzero : v.magnitude = 0
  · rw [if_pos (.inl hzero), if_pos hzero, hkey, hzero]
    exact ⟨rfl, hv.1⟩
  · rw [if_neg (by simp [hzero, hv.1]), if_neg hzero]
    obtain ⟨hlow, hhigh⟩ := stickyRoot_bounds (Nat.pos_of_ne_zero hzero) hfinite
    generalize stickyRoot (2 * scaledMagnitude v.magnitude * 4 ^ 48) = root at *
    have hround := (roundToMagnitude_bounds (show 2 ^ 24 ≤ root by omega)).2
    have hlog : Nat.log2 root < 190 := (Nat.log2_lt (by omega)).mpr hhigh
    have hmagnitude : roundToMagnitude root < 255 * 2 ^ 23 := by omega
    have hbits := key_ofBits (show roundToMagnitude root < 2 ^ 31 by omega)
    refine ⟨hbits, (isFinite_iff_key _).mpr ?_⟩
    rw [hbits]
    omega

theorem F32.monotoneSqrt : MonotoneSqrt F32.sqrt where
  finite v hv := (F32.key_sqrt hv).2
  mono v w hv hw hle := by
    have hmagnitude : v.magnitude ≤ w.magnitude := by
      rw [F32.key_of_squared hv, F32.key_of_squared hw] at hle
      omega
    rw [(F32.key_sqrt hv).1, (F32.key_sqrt hw).1]
    refine Int.ofNat_le.mpr ?_
    by_cases hzero : v.magnitude = 0
    · rw [if_pos hzero]
      exact Nat.zero_le _
    · rw [if_neg hzero, if_neg (by omega)]
      have hroot := (F32.stickyRoot_bounds (Nat.pos_of_ne_zero hzero)
        ((F32.isFinite_iff v).mp hv.1)).1
      refine F32.roundToMagnitude_mono (by omega) (F32.stickyRoot_mono ?_)
      have := F32.scaledMagnitude_mono hmagnitude
      omega

end PaimonVindex
