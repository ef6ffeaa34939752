import PaimonVindex.Float32
import PaimonVindex.Lib.Effect

/-! The disk shuffler: vectors are written to one file per partition, through
buffered writers of which only a few are open at a time, and the files are put
together at the end. Every file operation may fail, and the state that it leaves
is the one the next call starts from. -/

namespace PaimonVindex

open Checked Effect

def recordOverhead : Nat := 4 + 8

def maxOpenPartitionWriters : Nat := 64

def partitionBufferBytes : Nat := 8 * 1024 * 1024

structure DiskShuffler where
  dim : Nat
  nlist : Nat
  partitionWriters : Nat → Option (List UInt8)
  writerLru : List Nat
  partitionOpened : Nat → Bool
  count : Nat
  partitionCounts : Nat → Nat
  partitionOffsets : Nat → Nat
  finalized : Bool
  partitionFiles : Nat → List UInt8
  file : List UInt8
  /-- How many file operations there have been. -/
  clock : Nat

/-- How the file operations turn out: a failed one has taken the bytes up to some
point. -/
abbrev Faults := Nat → Option (Nat × IoError)

structure ShuffledRecord where
  rowId : Int64
  vector : List F32
  deriving DecidableEq

def recordPieces (partitionId : UInt32) (record : ShuffledRecord) : List (List UInt8) :=
  u32Bytes partitionId :: i64Bytes record.rowId :: record.vector.map F32.toBytes

def shuffledBytes (partitionId : UInt32) (record : ShuffledRecord) : List UInt8 :=
  (recordPieces partitionId record).flatten

def decodeRecord (dim : Nat) (recordBuf : List UInt8) : ShuffledRecord :=
  ⟨i64OfBytes ((recordBuf.drop 4).take 8),
    (List.range dim).map fun i => F32.ofBytes ((recordBuf.drop (recordOverhead + i * 4)).take 4)⟩

def recordPartition (recordBuf : List UInt8) : Nat := (u32OfBytes (recordBuf.take 4)).toNat

namespace DiskShuffler

def new (dim nlist : Nat) (partitionFiles : Nat → List UInt8) (file : List UInt8) :
    DiskShuffler where
  dim := dim
  nlist := nlist
  partitionWriters _ := none
  writerLru := []
  partitionOpened _ := false
  count := 0
  partitionCounts _ := 0
  partitionOffsets _ := 0
  finalized := false
  partitionFiles := partitionFiles
  file := file
  clock := 0

section

variable (self : DiskShuffler)

def recordSize : Nat := recordOverhead + self.dim * 4

def openWriters : List Nat :=
  (List.range self.nlist).filter fun p => (self.partitionWriters p).isSome

def setWriter (p : Nat) (writer : Option (List UInt8)) : DiskShuffler :=
  { self with partitionWriters := Function.update self.partitionWriters p writer }

def setFile (p : Nat) (bytes : List UInt8) : DiskShuffler :=
  { self with partitionFiles := Function.update self.partitionFiles p bytes }

def tick : DiskShuffler := { self with clock := self.clock + 1 }

def countRecord (p : Nat) : DiskShuffler :=
  { self with
    partitionCounts := Function.update self.partitionCounts p (self.partitionCounts p + 1)
    count := self.count + 1 }

end

abbrev Step := Effect IoError DiskShuffler

section Steps

variable (faults : Faults)

section

variable (p : Nat)

/-- Writes bytes at the end of a partition's file; what a failed write has not taken
is returned. -/
def writeFile (bytes : List UInt8) (self : DiskShuffler) :
    Option IoError × List UInt8 × DiskShuffler :=
  match faults self.clock with
  | none => (none, [], (self.setFile p (self.partitionFiles p ++ bytes)).tick)
  | some (taken, e) =>
    (some e, bytes.drop taken, (self.setFile p (self.partitionFiles p ++ bytes.take taken)).tick)

/-- `BufWriter::flush_buf`. -/
def flushBuf : Step Unit := fun self =>
  match self.partitionWriters p with
  | none => (.ok (), self)
  | some buffer =>
    let (failure, rest, self) := writeFile faults p buffer self
    let self := self.setWriter p (some rest)
    match failure with
    | none => (.ok (), self)
    | some e => (.error e, self)

def appendBuffer (bytes : List UInt8) : Step Unit :=
  modify fun self => self.setWriter p ((self.partitionWriters p).map (· ++ bytes))

def writeDirect (bytes : List UInt8) : Step Unit := fun self =>
  match writeFile faults p bytes self with
  | (none, _, self) => (.ok (), self)
  | (some e, _, self) => (.error e, self)

/-- `BufWriter::write_all`. -/
def writeAll (bytes : List UInt8) : Step Unit := do
  let self ← get
  let spare := partitionBufferBytes - ((self.partitionWriters p).getD []).length
  if bytes.length < spare then appendBuffer p bytes
  else do
    (if spare < bytes.length then flushBuf faults p else pure () : Step Unit)
    if partitionBufferBytes ≤ bytes.length then writeDirect faults p bytes
    else appendBuffer p bytes

/-- A writer that has left the map is flushed. When that fails it is dropped, which
tries once more and ignores the outcome. -/
def closeWriter (buffer : List UInt8) : Step Unit := fun self =>
  match writeFile faults p buffer self with
  | (none, _, self) => (.ok (), self)
  | (some e, rest, self) => (.error e, (writeFile faults p rest self).2.2)

def evictWriter : Step Unit := fun self =>
  match self.writerLru with
  | [] => (.ok (), self)
  | evicted :: rest =>
    let self := { self with writerLru := rest }
    match self.partitionWriters evicted with
    | none => (.ok (), self)
    | some buffer => closeWriter faults evicted buffer (self.setWriter evicted none)

/-- The first open truncates. A failed one may have done so or not. -/
def openPartition : Step Unit := fun self =>
  if self.partitionOpened p then
    match faults self.clock with
    | none => (.ok (), self.tick)
    | some (_, e) => (.error e, self.tick)
  else
    let self := { self with partitionOpened := Function.update self.partitionOpened p true }
    match faults self.clock with
    | none => (.ok (), (self.setFile p []).tick)
    | some (kept, e) => (.error e, (self.setFile p ((self.partitionFiles p).take kept)).tick)

def touchWriter : Step Unit :=
  modify fun self => { self with writerLru := self.writerLru.erase p ++ [p] }

def openWriter : Step Unit := do
  let self ← get
  (if self.openWriters.length = maxOpenPartitionWriters then evictWriter faults
    else pure () : Step Unit)
  openPartition faults p
  modify fun self => self.setWriter p (some [])

def partitionWriter : Step Unit := do
  let self ← get
  (if (self.partitionWriters p).isNone then openWriter faults p else pure () : Step Unit)
  touchWriter p
  let self ← get
  lift (rejectIf ((self.partitionWriters p).isNone)
    ⟨.other, "failed to open partition writer"⟩)

def writeVector (partitionId : UInt32) (record : ShuffledRecord) : Step Unit := do
  let self ← get
  let len := record.vector.length
  let dim := self.dim
  let nlist := self.nlist
  lift (rejectIf (record.vector.length ≠ self.dim)
    (invalidInput s!"vector length {len} does not match expected dim {dim}"))
  lift (rejectIf (self.nlist ≤ partitionId.toNat)
    (invalidInput s!"partition_id {partitionId} out of range (nlist={nlist})"))
  lift (rejectIf (self.finalized = true) ⟨.other, "shuffler has already been finalized"⟩)
  partitionWriter faults partitionId.toNat
  forEach (recordPieces partitionId record) (writeAll faults partitionId.toNat)
  modify (·.countRecord partitionId.toNat)

/-- An operation on the file that the partitions are put together in. -/
def writeOutput (change : List UInt8 → List UInt8) : Step Unit := fun self =>
  match faults self.clock with
  | none => (.ok (), { self with file := change self.file }.tick)
  | some (taken, e) => (.error e, { self with file := (change self.file).take taken }.tick)

def copyPartition : Step Unit := do
  let self ← get
  -- The file is opened, and then copied.
  writeOutput faults id
  writeOutput faults (· ++ self.partitionFiles p)

end

/-- The offset of a partition is the number of bytes copied before it. -/
def copyPartitions : List Nat → Nat → Step Unit
  | [], _ => pure ()
  | p :: ps, offset => do
    modify fun self =>
      { self with partitionOffsets := Function.update self.partitionOffsets p offset }
    let self ← get
    if self.partitionCounts p = 0 then copyPartitions ps offset
    else do
      copyPartition faults p
      copyPartitions ps (offset + (self.partitionFiles p).length)

def closeWriters : Step Unit := do
  let self ← get
  forEach self.openWriters (flushBuf faults)
  modify fun self => { self with partitionWriters := fun _ => none, writerLru := [] }

def combinePartitions : Step Unit := do
  let self ← get
  writeOutput faults fun _ => []
  copyPartitions faults (List.range self.nlist) 0
  writeOutput faults id

def finishWrite : Step Unit := do
  let self ← get
  if self.finalized then pure ()
  else do
    closeWriters faults
    combinePartitions faults
    modify fun self => { self with finalized := true }

end Steps

/-! ### Reading -/

def unexpectedEof : IoError := ⟨.unexpectedEof, "failed to fill whole buffer"⟩

def readRecords (size : Nat) : Nat → List UInt8 → IoResult (List (List UInt8))
  | 0, _ => .ok []
  | count + 1, bytes => do
    rejectIf (bytes.length < size) unexpectedEof
    let rest ← readRecords size count (bytes.drop size)
    return bytes.take size :: rest

def validateFinalized (self : DiskShuffler) : IoResult Unit :=
  rejectIf (self.finalized = false) ⟨.other, "finish_write must be called before reading"⟩

def validatePartitionId (self : DiskShuffler) (partitionId : UInt32) : IoResult Nat := do
  let nlist := self.nlist
  rejectIf (self.nlist ≤ partitionId.toNat)
    (invalidInput s!"partition_id {partitionId} out of range (nlist={nlist})")
  return partitionId.toNat

def readPartition (self : DiskShuffler) (partitionId : UInt32) :
    IoResult (List Int64 × List F32) := do
  self.validateFinalized
  let p ← self.validatePartitionId partitionId
  let records ← readRecords self.recordSize (self.partitionCounts p)
    (self.file.drop (self.partitionOffsets p))
  let rows := records.map (decodeRecord self.dim)
  return (rows.map (·.rowId), rows.flatMap (·.vector))

/-- One record after the other, each to the partition it names. -/
def readAllFrom (dim nlist : Nat) : Nat → List UInt8 → (Nat → List ShuffledRecord) →
    IoResult (Nat → List ShuffledRecord)
  | 0, _, rows => .ok rows
  | count + 1, bytes, rows => do
    let size := recordOverhead + dim * 4
    rejectIf (bytes.length < size) unexpectedEof
    let recordBuf := bytes.take size
    let p := recordPartition recordBuf
    rejectIf (nlist ≤ p) (panicked s!"index out of bounds: the len is {nlist} but the index is {p}")
    readAllFrom dim nlist count (bytes.drop size)
      (Function.update rows p (rows p ++ [decodeRecord dim recordBuf]))

def readAllPartitions (self : DiskShuffler) : IoResult (List (List Int64) × List (List F32)) := do
  self.validateFinalized
  let rows ← readAllFrom self.dim self.nlist self.count self.file fun _ => []
  let partitions := List.range self.nlist
  return (partitions.map fun p => (rows p).map (·.rowId),
    partitions.map fun p => (rows p).flatMap (·.vector))

/-! ### Runs -/

inductive Call where
  | write (partitionId : UInt32) (record : ShuffledRecord)
  | finish

def call (faults : Faults) : Call → Step Unit
  | .write partitionId record => writeVector faults partitionId record
  | .finish => finishWrite faults

/-- The state after some calls, with the records that were accepted. -/
structure Run where
  shuffler : DiskShuffler
  accepted : Nat → List ShuffledRecord

def Run.step (faults : Faults) (run : Run) (c : Call) : Run :=
  match (call faults c).run run.shuffler, c with
  | (.ok _, shuffler), .write partitionId record =>
    ⟨shuffler, Function.update run.accepted partitionId.toNat
      (run.accepted partitionId.toNat ++ [record])⟩
  | (_, shuffler), _ => ⟨shuffler, run.accepted⟩

def Run.after (faults : Faults) (start : DiskShuffler) (calls : List Call) : Run :=
  calls.foldl (Run.step faults) ⟨start, fun _ => []⟩

end DiskShuffler

end PaimonVindex
