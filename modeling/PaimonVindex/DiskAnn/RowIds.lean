import PaimonVindex.Lib.BitPack
import PaimonVindex.DiskAnn.Header

/-! The row-id section: offsets from the smallest id, packed with as many bits as
the largest offset needs, or the ids themselves if they need a whole word. -/

namespace PaimonVindex

open Checked BitPack

inductive RowIdStorage where
  | raw (rowIds : List Int64)
  | forBitPacked (base : Int64) (bitWidth count : Nat) (payload : List UInt8)
  deriving DecidableEq

/-- `u64::try_from` of a wider integer. -/
def u64OfInt (x : Int) : Option Nat := if 0 ≤ x ∧ x < 2 ^ 64 then some x.toNat else none

/-- `i64::try_from` of a wider integer. -/
def i64OfInt (x : Int) : Option Int64 :=
  if -2 ^ 63 ≤ x ∧ x < 2 ^ 63 then some (Int64.ofInt x) else none

def packedRowIdPayloadLen (count bitWidth : Nat) : IoResult Nat :=
  okOr (((checkedMul count bitWidth).bind (checkedAdd · 7)).map (· / 8))
    (invalidInput "DiskANN packed row-ID length overflows usize")

def packRowIdDelta (payload : List UInt8) (node bitWidth delta : Nat) : IoResult (List UInt8) :=
  if bitWidth = 0 then .ok payload
  else do
    let bitOffset ← okOr (checkedMul node bitWidth)
      (invalidInput "DiskANN packed row-ID offset overflows usize")
    rejectIf (payload.length < bitOffset / 8 + byteCount bitOffset bitWidth)
      (invalidInput "DiskANN packed row-ID payload is truncated")
    return orField payload bitOffset bitWidth delta

def unpackRowIdDeltaAtBitOffset (payload : List UInt8) (bitOffset bitWidth : Nat) : Option Nat :=
  if bitWidth = 0 then some 0
  else if payload.length < bitOffset / 8 + byteCount bitOffset bitWidth then none
  else some (field payload bitOffset bitWidth)

def unpackRowIdDelta (payload : List UInt8) (node bitWidth : Nat) : Option Nat :=
  (checkedMul node bitWidth).bind fun bitOffset =>
    unpackRowIdDeltaAtBitOffset payload bitOffset bitWidth

def rowIdBounds (count : Nat) (rowIdAt : Nat → Int64) : Int64 × Int64 :=
  (List.range' 1 (count - 1)).foldl (fun bounds node =>
    (min bounds.1 (rowIdAt node), max bounds.2 (rowIdAt node))) (rowIdAt 0, rowIdAt 0)

def significantBits (span : Nat) : Nat := if span = 0 then 0 else span.log2 + 1

namespace RowIdStorage

/-- `Vec::try_reserve_exact`, as far as it depends on the size alone: no vector has
more than `isize::MAX` bytes. -/
def tryReserveExact (bytes : Nat) (error : IoError) : IoResult Unit :=
  rejectIf (2 ^ 63 ≤ bytes) error

def encodeFromFn (count : Nat) (rowIdAt : Nat → Int64) : IoResult RowIdStorage := do
  rejectIf (count = 0) (invalidInput "DiskANN row IDs must not be empty")
  let (base, maximum) := rowIdBounds count rowIdAt
  let span ← okOr (u64OfInt (maximum.toInt - base.toInt))
    (panicked "the difference between two i64 values fits in u64")
  let bitWidth := significantBits span
  if bitWidth = 64 then do
    tryReserveExact (count * 8) (invalidInput "DiskANN raw row-ID allocation failed")
    return .raw ((List.range count).map rowIdAt)
  else do
    let payloadLen ← packedRowIdPayloadLen count bitWidth
    tryReserveExact payloadLen (invalidInput "DiskANN packed row-ID allocation failed")
    let payload ← (List.range count).foldlM (fun payload node => do
      let delta ← okOr (u64OfInt ((rowIdAt node).toInt - base.toInt))
        (panicked "the row ID is not below the selected base")
      packRowIdDelta payload node bitWidth delta) (List.replicate payloadLen 0)
    return .forBitPacked base bitWidth count payload

def encode (rowIds : List Int64) : IoResult RowIdStorage :=
  encodeFromFn rowIds.length fun node => rowIds.getD node 0

def bitWidth : RowIdStorage → Nat
  | raw _ => 64
  | forBitPacked _ bitWidth _ _ => bitWidth

def get (storage : RowIdStorage) (node : Nat) : Option Int64 :=
  match storage with
  | raw rowIds => rowIds[node]?
  | forBitPacked base bitWidth count payload =>
    if count ≤ node then none
    else (unpackRowIdDelta payload node bitWidth).bind fun delta => i64OfInt (base.toInt + delta)

/-- The visits of the packed ids from `node` on. -/
def visitPacked {σ : Type} (visitor : Nat → Int64 → σ → IoResult σ) (base : Int64) (bitWidth : Nat)
    (payload : List UInt8) : (remaining node bitOffset : Nat) → σ → IoResult σ
  | 0, _, _, state => .ok state
  | remaining + 1, node, bitOffset, state => do
    let delta ← okOr (unpackRowIdDeltaAtBitOffset payload bitOffset bitWidth)
      (invalidData "DiskANN packed row-ID payload is truncated")
    let rowId ← okOr (i64OfInt (base.toInt + delta))
      (invalidData "DiskANN packed row ID overflows i64")
    let state ← visitor node rowId state
    let bitOffset ← okOr (checkedAdd bitOffset bitWidth)
      (invalidData "DiskANN packed row-ID offset overflows")
    visitPacked visitor base bitWidth payload remaining (node + 1) bitOffset state

def visitAll {σ : Type} (visitor : Nat → Int64 → σ → IoResult σ) (rowIds : List Int64)
    (start : Nat) (state : σ) : IoResult σ :=
  (rowIds.zipIdx start).foldlM (fun state item => visitor item.2 item.1 state) state

def tryForEach {σ : Type} (storage : RowIdStorage) (visitor : Nat → Int64 → σ → IoResult σ)
    (state : σ) : IoResult σ :=
  match storage with
  | raw rowIds => visitAll visitor rowIds 0 state
  | forBitPacked base bitWidth count payload =>
    visitPacked visitor base bitWidth payload count 0 0 state

end RowIdStorage

def rowIdEncodingRawI64 : UInt32 := 0

def rowIdEncodingForBitpack : UInt32 := 1

namespace RowIdStorage

def headerFields : RowIdStorage → List (List UInt8)
  | raw rowIds => [u32Bytes rowIdEncodingRawI64, u32Bytes 64, u64Bytes (UInt64.ofNat rowIds.length),
      List.replicate 8 0, List.replicate 8 0]
  | forBitPacked base bitWidth count _ => [u32Bytes rowIdEncodingForBitpack,
      u32Bytes (UInt32.ofNat bitWidth), u64Bytes (UInt64.ofNat count), i64Bytes base,
      List.replicate 8 0]

def sectionHeader (storage : RowIdStorage) : List UInt8 := storage.headerFields.flatten

end RowIdStorage

def writeRowIdSection (storage : RowIdStorage) : List UInt8 :=
  storage.sectionHeader ++
    match storage with
    | .raw rowIds => rowIds.flatMap i64Bytes
    | .forBitPacked _ _ _ payload => payload

structure RowIdSectionHeader where
  encoding : UInt32
  bitWidth : Nat
  count : Nat
  base : Int64

/-- The bit width and the length of the payload that a header asks for. -/
def rowIdSectionShape (encoding width : UInt32) (base : Int64) (count : Nat) :
    IoResult (Nat × Nat) :=
  if encoding = rowIdEncodingRawI64 then do
    rejectIf (width ≠ 64 ∨ base ≠ 0) (invalidData "invalid DiskANN raw row-ID metadata")
    let payloadLen ← okOr (checkedMul count 8)
      (invalidData "DiskANN raw row-ID length overflows usize")
    return (64, payloadLen)
  else if encoding = rowIdEncodingForBitpack then do
    -- Widths that do not fit a byte are rejected with the same words.
    rejectIf (64 ≤ width.toNat) (invalidData "invalid DiskANN FOR row-ID bit width")
    let payloadLen ← okOr (packedRowIdPayloadLen count width.toNat).toOption
      (invalidData "DiskANN packed row-ID length overflows usize")
    return (width.toNat, payloadLen)
  else .error (invalidData "unsupported DiskANN row-ID encoding")

def decodeRowIdSectionHeader (bytes : List UInt8) (sectionLen expectedCount : Nat) :
    IoResult RowIdSectionHeader := do
  rejectIf (bytes.length < rowIdSectionHeaderSize)
    (invalidData "DiskANN row-ID section header is truncated")
  rejectIf (((bytes.drop 24).take 8).any (· ≠ 0))
    (invalidData "DiskANN row-ID section reserved bytes must be zero")
  let count := (u64OfBytes ((bytes.drop 8).take 8)).toNat
  rejectIf (count ≠ expectedCount) (invalidData "DiskANN row-ID count does not match header")
  let encoding := u32OfBytes (bytes.take 4)
  let width := u32OfBytes ((bytes.drop 4).take 4)
  let base := i64OfBytes ((bytes.drop 16).take 8)
  let (bitWidth, payloadLen) ← rowIdSectionShape encoding width base count
  rejectIf (checkedAdd rowIdSectionHeaderSize payloadLen ≠ some sectionLen)
    (invalidData "invalid DiskANN row-ID payload length")
  return ⟨encoding, bitWidth, count, base⟩

/-- The bits behind the last offset are zero. -/
def checkTailBits : RowIdStorage → IoResult Unit
  | .raw _ => .ok ()
  | .forBitPacked _ bitWidth count payload => do
    let usedBits ← okOr (checkedMul count bitWidth)
      (invalidData "DiskANN packed row-ID length overflows usize")
    let tailBits := usedBits % 8
    rejectIf (tailBits ≠ 0 ∧ payload.getLast?.any fun byte =>
        byte &&& ~~~((1 <<< UInt8.ofNat tailBits) - 1) ≠ 0)
      (invalidData "DiskANN packed row-ID tail bits must be zero")

def validateRowIdStorage (storage : RowIdStorage) : IoResult Unit := do
  checkTailBits storage
  storage.tryForEach (fun _ _ _ => .ok ()) ()

def RowIdSectionHeader.storage (header : RowIdSectionHeader) (payload : List UInt8) :
    IoResult RowIdStorage :=
  if header.encoding = rowIdEncodingRawI64 then do
    RowIdStorage.tryReserveExact (header.count * 8)
      (invalidData "DiskANN raw row-ID allocation failed")
    return .raw ((Words.chunksExact 8 payload).map i64OfBytes)
  else return .forBitPacked header.base header.bitWidth header.count payload

def decodeRowIdSectionOwned (bytes : List UInt8) (expectedCount : Nat) : IoResult RowIdStorage := do
  let header ← decodeRowIdSectionHeader bytes bytes.length expectedCount
  let storage ← header.storage (bytes.drop rowIdSectionHeaderSize)
  validateRowIdStorage storage
  return storage

end PaimonVindex
