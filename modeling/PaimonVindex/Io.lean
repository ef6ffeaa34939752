import PaimonVindex.Lib.Checked
import PaimonVindex.Lib.Words

/-! Errors of the reader and the writer, and the words of the file formats. -/

namespace PaimonVindex

open Checked Words

/-- The error kinds in use; `panicked` stands for a call that does not return. -/
inductive ErrorKind where
  | invalidInput
  | invalidData
  | unexpectedEof
  | unsupported
  | other
  | panicked
  deriving DecidableEq, Repr

structure IoError where
  kind : ErrorKind
  message : String
  deriving DecidableEq, Repr

abbrev IoResult (α : Type) := Except IoError α

def invalidInput (message : String) : IoError := ⟨.invalidInput, message⟩

def invalidData (message : String) : IoError := ⟨.invalidData, message⟩

def panicked (message : String) : IoError := ⟨.panicked, message⟩

def saturatingAdd (a b : Nat) : Nat := min (a + b) (wordSize - 1)

def saturatingMul (a b : Nat) : Nat := min (a * b) (wordSize - 1)

def toU16 (n : Nat) : Option UInt16 := if n < 2 ^ 16 then some (UInt16.ofNat n) else none

def toU32 (n : Nat) : Option UInt32 := if n < 2 ^ 32 then some (UInt32.ofNat n) else none

theorem toU16_eq_some {n : Nat} {x : UInt16} : toU16 n = some x ↔ x.toNat = n := by
  unfold toU16
  split
  · rename_i h
    rw [Option.some.injEq]
    constructor
    · rintro rfl
      simpa using Nat.mod_eq_of_lt h
    · intro hx
      rw [← hx, UInt16.ofNat_toNat]
  · rename_i h
    have hx : x.toNat < 2 ^ 16 := x.toNat_lt
    simp only [reduceCtorEq, false_iff]
    omega

theorem toU32_eq_some {n : Nat} {x : UInt32} : toU32 n = some x ↔ x.toNat = n := by
  unfold toU32
  split
  · rename_i h
    rw [Option.some.injEq]
    constructor
    · rintro rfl
      simpa using Nat.mod_eq_of_lt h
    · intro hx
      rw [← hx, UInt32.ofNat_toNat]
  · rename_i h
    have hx : x.toNat < 2 ^ 32 := x.toNat_lt
    simp only [reduceCtorEq, false_iff]
    omega

def u16Bytes (x : UInt16) : List UInt8 := leBytes 2 x.toNat

def u32Bytes (x : UInt32) : List UInt8 := leBytes 4 x.toNat

def u64Bytes (x : UInt64) : List UInt8 := leBytes 8 x.toNat

variable (bs : List UInt8)

def u16OfBytes : UInt16 := UInt16.ofNat (leNat bs)

def u32OfBytes : UInt32 := UInt32.ofNat (leNat bs)

def u64OfBytes : UInt64 := UInt64.ofNat (leNat bs)

@[simp] theorem u16Bytes_length (x : UInt16) : (u16Bytes x).length = 2 := leBytes_length _ _

@[simp] theorem u32Bytes_length (x : UInt32) : (u32Bytes x).length = 4 := leBytes_length _ _

@[simp] theorem u64Bytes_length (x : UInt64) : (u64Bytes x).length = 8 := leBytes_length _ _

@[simp] theorem u16OfBytes_u16Bytes (x : UInt16) : u16OfBytes (u16Bytes x) = x := by
  have h : x.toNat < 256 ^ 2 := x.toNat_lt
  rw [u16OfBytes, u16Bytes, leNat_leBytes_of_lt h, UInt16.ofNat_toNat]

@[simp] theorem u32OfBytes_u32Bytes (x : UInt32) : u32OfBytes (u32Bytes x) = x := by
  have h : x.toNat < 256 ^ 4 := x.toNat_lt
  rw [u32OfBytes, u32Bytes, leNat_leBytes_of_lt h, UInt32.ofNat_toNat]

@[simp] theorem u64OfBytes_u64Bytes (x : UInt64) : u64OfBytes (u64Bytes x) = x := by
  have h : x.toNat < 256 ^ 8 := x.toNat_lt
  rw [u64OfBytes, u64Bytes, leNat_leBytes_of_lt h, UInt64.ofNat_toNat]

theorem u32Bytes_u32OfBytes {bs : List UInt8} (h : bs.length = 4) :
    u32Bytes (u32OfBytes bs) = bs := by
  have hlt : leNat bs < 2 ^ 32 := by
    have := leNat_lt bs
    rwa [h] at this
  rw [u32Bytes, u32OfBytes, UInt32.toNat_ofNat', Nat.mod_eq_of_lt hlt, ← h, leBytes_leNat]

theorem u64Bytes_u64OfBytes {bs : List UInt8} (h : bs.length = 8) :
    u64Bytes (u64OfBytes bs) = bs := by
  have hlt : leNat bs < 2 ^ 64 := by
    have := leNat_lt bs
    rwa [h] at this
  rw [u64Bytes, u64OfBytes, UInt64.toNat_ofNat', Nat.mod_eq_of_lt hlt, ← h, leBytes_leNat]

def i32Bytes (x : Int32) : List UInt8 := u32Bytes x.toUInt32

def i64Bytes (x : Int64) : List UInt8 := u64Bytes x.toUInt64

def i32OfBytes : Int32 := (u32OfBytes bs).toInt32

def i64OfBytes : Int64 := (u64OfBytes bs).toInt64

@[simp] theorem i32Bytes_length (x : Int32) : (i32Bytes x).length = 4 := u32Bytes_length _

@[simp] theorem i64Bytes_length (x : Int64) : (i64Bytes x).length = 8 := u64Bytes_length _

@[simp] theorem i32OfBytes_i32Bytes (x : Int32) : i32OfBytes (i32Bytes x) = x := by
  rw [i32OfBytes, i32Bytes, u32OfBytes_u32Bytes, Int32.toInt32_toUInt32]

@[simp] theorem i64OfBytes_i64Bytes (x : Int64) : i64OfBytes (i64Bytes x) = x := by
  rw [i64OfBytes, i64Bytes, u64OfBytes_u64Bytes, Int64.toInt64_toUInt64]

end PaimonVindex
