import PaimonVindex.Io

/-! Single-precision values by their bit patterns: classification and order. -/

namespace PaimonVindex

structure F32 where
  bits : UInt32
  deriving DecidableEq, Repr

namespace F32

variable (x : F32)

def exponent : Nat := x.bits.toNat / 2 ^ 23 % 2 ^ 8

def magnitude : Nat := x.bits.toNat % 2 ^ 31

def isNegative : Bool := 2 ^ 31 ≤ x.bits.toNat

def isNan : Bool := x.exponent = 255 ∧ x.bits.toNat % 2 ^ 23 ≠ 0

def isFinite : Bool := x.exponent ≠ 255

/-- The order of the values, both zeros alike. -/
def key : Int := if x.isNegative then -(x.magnitude : Int) else x.magnitude

def lt (x y : F32) : Bool := !x.isNan ∧ !y.isNan ∧ x.key < y.key

def zero : F32 := ⟨0⟩

def one : F32 := ⟨0x3F800000⟩

def max : F32 := ⟨0x7F7FFFFF⟩

def toBytes : List UInt8 := u32Bytes x.bits

def ofBytes (bs : List UInt8) : F32 := ⟨u32OfBytes bs⟩

@[simp] theorem toBytes_length : x.toBytes.length = 4 := u32Bytes_length _

@[simp] theorem ofBytes_toBytes : ofBytes x.toBytes = x := by
  simp [ofBytes, toBytes]

end F32

/-- Finiteness of a half-precision bit pattern. -/
def f16IsFinite (bits : UInt16) : Bool := bits.toNat / 2 ^ 10 % 2 ^ 5 ≠ 31

end PaimonVindex
