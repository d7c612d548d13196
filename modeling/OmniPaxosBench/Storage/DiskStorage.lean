import OmniPaxosBench.Lib.RecordFile

/-! # The Raft log on disk

`DiskStorageCore` keeps a log of entries in three memory-mapped files: the serialised entries one
behind the other, each after its length; the byte offset of each entry; and the first and last index.
Entries are written through the file, whose cursor stays where the last write ended, and are read
through the map, which has the size the file was created with. What is written through the file is
visible through the map.

A write may fail after some of its bytes (`Fault`). Of a call of `append_log` at most the first failing
write matters: a failed write of a length returns an error, a failed write of an entry panics.
Functions that can panic return `none` there, `append_log` returns `panic`. Flushing does not fail.

What the storage uses of the raft and protobuf crates is `Raft`. The hard state, the configuration
state and the directory are left out. -/

namespace OmniPaxosBench.Storage

open OmniPaxosBench.Lib

/-- What the storage uses of an entry, of its protobuf code and of `limit_size`. Indices, terms and
lengths are 64-bit words. -/
class Raft (E : Type) where
  index : E → ℕ
  term : E → ℕ
  writeToBytes : E → Bytes
  parseFromBytes : Bytes → Option E
  limitSize : List E → Option ℕ → List E
  index_lt : ∀ e, index e < 2 ^ 64
  length_lt : ∀ e, (writeToBytes e).length < 2 ^ 64
  parse_write : ∀ e, parseFromBytes (writeToBytes e) = some e
  limitSize_none : ∀ es, limitSize es none = es

/-- The errors of the readers. -/
inductive StorageError
  | compacted
  | unavailable
  deriving DecidableEq, Repr

/-- How `append_log` ends. -/
inductive AppendResult
  | ok
  | err
  | panic
  deriving DecidableEq, Repr

/-- The write that fails in a call of `append_log`: that of the length or that of the bytes of the
`i`-th entry, after `written` bytes. -/
inductive Fault
  | length (i written : ℕ)
  | entry (i written : ℕ)
  deriving DecidableEq, Repr

/-- `FILE_SIZE`. -/
def fileSize : ℕ := 20971520

/-- A file and its memory map. -/
structure FileMmap where
  bytes : ByteFile
  cursor : ℕ

namespace FileMmap

/-- A file of zeros. -/
def new : FileMmap := ⟨.empty, 0⟩

variable (f : FileMmap)

/-- A range of the memory map. -/
def memMap (start stop : ℕ) : Option Bytes :=
  if start ≤ stop ∧ stop ≤ fileSize then some (f.bytes.read start (stop - start)) else none

/-- Write through the memory map. -/
def writeMap (start stop : ℕ) (bs : Bytes) : Option FileMmap :=
  if start ≤ stop ∧ stop ≤ fileSize then some { f with bytes := f.bytes.write start bs } else none

/-- `seek(SeekFrom::Start(pos))`. -/
def seek (pos : ℕ) : FileMmap := { f with cursor := pos }

/-- Write at the cursor. -/
def put (bs : Bytes) : FileMmap := ⟨f.bytes.write f.cursor bs, f.cursor + bs.length⟩

/-- `write_all`; with `some k` the disk takes `k` bytes and fails at the next one. -/
def writeAll (bs : Bytes) (room : Option ℕ) : FileMmap × Bool :=
  match room with
  | some k => if k < bs.length then (f.put (bs.take k), false) else (f.put bs, true)
  | none => (f.put bs, true)

end FileMmap

/-- The words in `raft_metadata`. -/
inductive MetadataField
  | firstIndex
  | lastIndex
  deriving DecidableEq, Repr

namespace MetadataField

/-- `FIRST_INDEX_IS_SET` and `LAST_INDEX_IS_SET`: where the byte lies that says whether the word is
set. -/
def isSet : MetadataField → ℕ
  | .firstIndex => 0
  | .lastIndex => 9

/-- `FIRST_INDEX` and `LAST_INDEX`: where the word starts. -/
def start : MetadataField → ℕ
  | .firstIndex => 1
  | .lastIndex => 10

end MetadataField

structure SnapshotMetadata where
  index : ℕ
  term : ℕ
  deriving DecidableEq, Repr

structure DiskStorageCore where
  log : FileMmap
  offset : FileMmap
  raftMetadata : ByteFile
  numEntries : ℕ
  snapshotMetadata : SnapshotMetadata

namespace DiskStorageCore

/-- `new_with_conf_state`. -/
def newWithConfState : DiskStorageCore where
  log := .new
  offset := .new
  raftMetadata := .empty
  numEntries := 0
  snapshotMetadata := ⟨1, 1⟩

variable {E : Type} [Raft E] (d : DiskStorageCore)

/-! ### Metadata -/

def setRaftMetadata (field : MetadataField) (value : ℕ) : DiskStorageCore :=
  { d with raftMetadata :=
      (d.raftMetadata.write field.isSet [1]).write field.start (putU64 value) }

def getRaftMetadata (field : MetadataField) : Option ℕ :=
  if d.raftMetadata field.isSet = 0 then none
  else some (uintFrom 0 (d.raftMetadata.read field.start 8))

def firstIndex : ℕ :=
  match d.getRaftMetadata .firstIndex with
  | some index => index
  | none => d.snapshotMetadata.index + 1

def lastIndex : ℕ :=
  match d.getRaftMetadata .lastIndex with
  | some index => index
  | none => d.snapshotMetadata.index

/-! ### Reading -/

/-- The byte offset of an entry in the log. -/
def getLogOffset (logIndex : ℕ) : Option ℕ := do
  let start := logIndex * 8
  let bytes ← d.offset.memMap start (start + 8)
  return uintFrom 0 bytes

variable (E) in
def getEntry (index : ℕ) : Option E := do
  let start ← d.getLogOffset index
  let stop := start + 8
  let entryLen ← d.log.memMap start stop
  let desEntryLen := uintFrom 0 entryLen
  let entry ← d.log.memMap stop (stop + desEntryLen)
  Raft.parseFromBytes entry

variable (E) in
/-- `None` of `max_size` is `none`; the result is `none` where the code panics. -/
def entries (low high : ℕ) (maxSize : Option ℕ) : Option (Except StorageError (List E)) :=
  let firstIndex := d.firstIndex
  if low < firstIndex then some (.error .compacted)
  else
    let lastIndex := d.lastIndex
    if high > lastIndex + 1 then none
    else if high < firstIndex then none -- the subtraction below overflows
    else
      let lo := low - firstIndex
      let hi := high - firstIndex
      ((List.range' lo (hi - lo)).mapM (d.getEntry E)).map fun ents =>
        .ok (Raft.limitSize ents maxSize)

variable (E) in
def term (idx : ℕ) : Option (Except StorageError ℕ) :=
  if idx = d.snapshotMetadata.index then some (.ok d.snapshotMetadata.term)
  else
    let offset := d.firstIndex
    if idx < offset then some (.error .compacted)
    else
      let logIndex := idx - offset
      if logIndex ≥ d.numEntries then some (.error .unavailable)
      else (d.getEntry E logIndex).map fun e => .ok (Raft.term e)

/-! ### Appending -/

/-- The room the disk has for the length of the `i`-th entry. -/
def lengthRoom (fault : Option Fault) (i : ℕ) : Option ℕ :=
  match fault with
  | some (.length j k) => if j = i then some k else none
  | _ => none

/-- The room the disk has for the bytes of the `i`-th entry. -/
def entryRoom (fault : Option Fault) (i : ℕ) : Option ℕ :=
  match fault with
  | some (.entry j k) => if j = i then some k else none
  | _ => none

/-- The loop of `append_entries`, from the `i`-th entry on. -/
def writeEntries (fault : Option Fault) (fromLogIndex : ℕ) :
    ℕ → List E → DiskStorageCore → DiskStorageCore × AppendResult
  | _, [], d => (d, .ok)
  | i, e :: es, d =>
    let currentOffset := d.log.cursor
    let serEntry := Raft.writeToBytes e
    let serLen := putU64 serEntry.length
    match d.log.writeAll serLen (lengthRoom fault i) with
    | (log, false) => ({ d with log := log }, .err)
    | (log, true) =>
      match log.writeAll serEntry (entryRoom fault i) with
      | (log, false) => ({ d with log := log }, .panic)
      | (log, true) =>
        let start := (fromLogIndex + i) * 8
        match d.offset.writeMap start (start + 8) (putU64 currentOffset) with
        | none => ({ d with log := log }, .panic)
        | some offset => writeEntries fault fromLogIndex (i + 1) es { d with log := log, offset := offset }

/-- The end of `append_entries`: the counters. -/
def countEntries (fromLogIndex newFirstIndex newLastIndex numAddedEntries : ℕ) : DiskStorageCore :=
  let d := if fromLogIndex = 0 then d.setRaftMetadata .firstIndex newFirstIndex else d
  let numRemovedEntries := d.numEntries - fromLogIndex
  let d := { d with numEntries := d.numEntries + numAddedEntries - numRemovedEntries }
  d.setRaftMetadata .lastIndex newLastIndex

/-- Where `append_entries` starts to write: at the cursor, or over the entry it replaces. -/
def writePos (fromLogIndex : ℕ) : Option ℕ :=
  if fromLogIndex ≥ d.numEntries then some d.log.cursor else d.getLogOffset fromLogIndex

/-- `append_entries` for the entries `e :: es`. -/
def appendEntries (fault : Option Fault) (e : E) (es : List E) (fromLogIndex : ℕ) :
    DiskStorageCore × AppendResult :=
  match d.writePos fromLogIndex with
  | none => (d, .panic)
  | some pos =>
    match writeEntries fault fromLogIndex 0 (e :: es) { d with log := d.log.seek pos } with
    | (d, .ok) =>
      (d.countEntries fromLogIndex (Raft.index e) (Raft.index ((e :: es).getLast (by simp)))
        (e :: es).length, .ok)
    | (d, r) => (d, r)

def appendLog (fault : Option Fault) (entries : List E) : DiskStorageCore × AppendResult :=
  match entries with
  | [] => (d, .ok)
  | e :: es =>
    let firstIndex := d.firstIndex
    if firstIndex > Raft.index e then (d, .panic)
    else
      let lastIndex := d.lastIndex
      if lastIndex + 1 < Raft.index e then (d, .panic)
      else d.appendEntries fault e es (Raft.index e - firstIndex)

end DiskStorageCore

end OmniPaxosBench.Storage
