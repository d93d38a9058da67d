import Arbitro.Server.CommandLog
import Arbitro.Lib.Sparse

/-!
# The Raft log storage

`FileRaftStorage` keeps the log of a Raft node in one file of records, with an index of them in
memory, and the latest snapshot in a file of its own. Every call ends in an fsync; a compaction
writes a new file and renames it over the log.

A *fault* of a call says which of its file operations fails. Where a compaction fails behind
its rename, the open handle stays on the file that has been replaced: `detached` is its content.
The hard state (term and vote) has a file of its own and is left out, and so are the temporary
files, which are never read.
-/

namespace Arbitro

open LittleEndian

variable (crc : Crc32)

namespace RaftLog

def recHeader : ℕ := 24

def recCrcOffset : ℕ := 20

def maxPayloadLen : ℕ := 64 * 1024 * 1024

structure LogEntry where
  index : UInt64
  term : UInt64
  payload : Bytes
  deriving DecidableEq, Repr

structure StoredEntry extends LogEntry where
  /-- Where the record starts in the file. -/
  offset : ℕ
  deriving DecidableEq, Repr

/-! ## Records -/

/-- The part of a record's header that its CRC covers. -/
def headerFront (e : LogEntry) : Bytes :=
  layout [(8, e.index.toNat), (8, e.term.toNat), (4, e.payload.length)]

def encodeRecord (e : LogEntry) : Bytes :=
  headerFront e ++ encode 4 (crc (headerFront e ++ e.payload)).toNat ++ e.payload

/-- A batch of entries as one buffer. -/
def records (es : List LogEntry) : Bytes := es.flatMap (encodeRecord crc)

/-- The index of entries whose records are written from an offset on. -/
def stage : ℕ → List LogEntry → List StoredEntry
  | _, [] => []
  | offset, e :: es => { e with offset := offset } :: stage (offset + recHeader + e.payload.length) es

/-! ## Replay -/

/-- The error of a record with a wrong CRC that others follow. -/
structure Damage where
  offset : ℕ
  index : ℕ
  term : ℕ
  storedCrc : ℕ
  computedCrc : ℕ
  deriving DecidableEq, Repr

/-- The state of the loop in `open_and_replay`. -/
structure Cursor where
  off : ℕ := 0
  /-- The index of the last entry read. -/
  last : Option ℕ := none
  damage : Option Damage := none
  deriving DecidableEq, Repr

/-- A turn of the loop: none where it is left. -/
def replayRecord (data : Bytes) (c : Cursor) : Option (Option StoredEntry × Cursor) :=
  if c.damage.isSome then none
  else if data.length - c.off < recHeader then none
  else
    let here := data.drop c.off
    let index := field here 0 8
    let term := field here 8 8
    let len := field here 16 4
    let storedCrc := field here 20 4
    if maxPayloadLen < len then none
    -- the append never completed
    else if data.length - c.off - recHeader < len then none
    else
      let payload := (here.drop recHeader).take len
      let computedCrc := (crc (here.take recCrcOffset ++ payload)).toNat
      if computedCrc ≠ storedCrc then
        -- the last record of the file is taken for one that was never acknowledged
        if c.off + recHeader + len = data.length then none
        else some (none, { c with damage := some ⟨c.off, index, term, storedCrc, computedCrc⟩ })
      else if c.last.any (index ≤ ·) then none
      else
        some (some { index := UInt64.ofNat index, term := UInt64.ofNat term, payload := payload, offset := c.off },
          { off := c.off + recHeader + len, last := some index })

/-- `open_and_replay`: the entries, and the offset behind the last of them. -/
def openAndReplay (data : Bytes) : Except Damage (List StoredEntry × ℕ) :=
  let r := Scan.walk (replayRecord crc data) (data.length + 2) {}
  match r.2.damage with
  | some d => .error d
  | none => .ok (r.1, r.2.off)

/-! ## Snapshots -/

structure SnapshotMeta where
  lastIncludedIndex : UInt64
  lastIncludedTerm : UInt64
  deriving DecidableEq, Repr

/-- `SNAP_MAGIC`, the bytes `ASNP`. -/
def snapMagic : Bytes := [0x41, 0x53, 0x4E, 0x50]

def snapVersion : ℕ := 1

def snapHeader : ℕ := 36

def snapCrcOffset : ℕ := 32

/-- The part of the snapshot's header that its CRC covers. -/
def snapFront (m : SnapshotMeta) (snapshot : Bytes) : Bytes :=
  snapMagic ++ layout [(4, snapVersion), (8, m.lastIncludedIndex.toNat), (8, m.lastIncludedTerm.toNat),
    (8, snapshot.length)]

/-- The bytes that `save_snapshot` writes. -/
def encodeSnapshot (m : SnapshotMeta) (snapshot : Bytes) : Bytes :=
  snapFront m snapshot ++ encode 4 (crc (snapFront m snapshot ++ snapshot)).toNat ++ snapshot

/-- Why a snapshot file is not read. -/
inductive SnapshotError where
  | short (len : ℕ)
  | magic (found : Bytes)
  | version (found : ℕ)
  | length (actual claimed : ℕ)
  | crc (stored computed : ℕ)
  deriving DecidableEq, Repr

def readSnapshotFile (file : Option Bytes) : Except SnapshotError (Option (SnapshotMeta × Bytes)) :=
  match file with
  | none => .ok none
  | some data =>
    if data.length < snapHeader then .error (.short data.length)
    else if data.take 4 ≠ snapMagic then .error (.magic (data.take 4))
    else
      let version := field data 4 4
      if version ≠ snapVersion then .error (.version version)
      else
        let payloadLen := field data 24 8
        let storedCrc := field data snapCrcOffset 4
        let payload := data.drop snapHeader
        if payload.length ≠ payloadLen then .error (.length payload.length payloadLen)
        else
          let computedCrc := (crc (data.take snapCrcOffset ++ payload)).toNat
          if computedCrc ≠ storedCrc then .error (.crc storedCrc computedCrc)
          else
            .ok (some (⟨UInt64.ofNat (field data 8 8), UInt64.ofNat (field data 16 8)⟩,
              payload))

/-! ## Errors and faults -/

inductive ErrorKind where
  | storageFull
  | quotaExceeded
  | outOfMemory
  | other
  deriving DecidableEq, Repr

inductive RaftError where
  | storage (text : String)
  | io (kind : ErrorKind) (text : String)
  deriving DecidableEq, Repr

/-- `storage_write_err`, without the text of the operating system. -/
def storageWriteErr (what : String) : ErrorKind → RaftError
  | .other => .storage what
  | kind => .io kind what

inductive TruncateFault where
  | setLen (kind : ErrorKind)
  | sync (kind : ErrorKind)
  deriving DecidableEq, Repr

inductive AppendFault where
  | truncate (fault : TruncateFault)
  | seek (kind : ErrorKind)
  /-- So many bytes have been written. -/
  | write (bytes : ℕ) (kind : ErrorKind)
  | sync (kind : ErrorKind)
  deriving DecidableEq, Repr

inductive CompactFault where
  | create (kind : ErrorKind)
  | write (kind : ErrorKind)
  | sync (kind : ErrorKind)
  | rename (kind : ErrorKind)
  | syncDir (kind : ErrorKind)
  | reopen
  deriving DecidableEq, Repr

inductive SnapshotFault where
  | create (kind : ErrorKind)
  | write (kind : ErrorKind)
  | sync (kind : ErrorKind)
  | rename (kind : ErrorKind)
  | syncDir (kind : ErrorKind)
  deriving DecidableEq, Repr

inductive OpenFault where
  /-- An operation up to the cut of a torn tail. -/
  | before
  /-- An operation behind it. -/
  | after
  deriving DecidableEq, Repr

/-! ## The storage -/

/-- The files of the data directory. -/
structure Dir where
  wal : Bytes := []
  snapshot : Option Bytes := none
  deriving DecidableEq, Repr

structure Storage where
  dir : Dir
  /-- The content of the open file, where the log has been replaced by another one. -/
  detached : Option Bytes := none
  tail : ℕ
  entries : List StoredEntry
  snapshot : Option (SnapshotMeta × Bytes)
  deriving DecidableEq, Repr

variable (s : Storage)

namespace Storage

/-- The content of the open file. -/
def file : Bytes := s.detached.getD s.dir.wal

def setFile (bytes : Bytes) : Storage :=
  match s.detached with
  | none => { s with dir := { s.dir with wal := bytes } }
  | some _ => { s with detached := some bytes }

/-- The log that the index holds. -/
def log : List LogEntry := s.entries.map StoredEntry.toLogEntry

/-- `entries.partition_point(|e| e.index < from)`. -/
def partitionPoint (index : UInt64) : ℕ := (s.entries.takeWhile (·.index < index)).length

/-- `file.set_len`. -/
def setLen (bytes : Bytes) (len : ℕ) : Bytes := bytes.take len ++ List.replicate (len - bytes.length) 0

/-- `truncate_suffix_locked`. -/
def truncateSuffix (index : UInt64) (fault : Option TruncateFault) : Option RaftError × Storage :=
  match s.entries[s.partitionPoint index]? with
  | none => (none, s)
  | some e =>
    match fault with
    | some (.setLen kind) => (some (storageWriteErr "truncate raft log" kind), s)
    | some (.sync kind) => (some (storageWriteErr "fsync raft log" kind), s.setFile (setLen s.file e.offset))
    | none =>
      (none, { s.setFile (setLen s.file e.offset) with
        entries := s.entries.take (s.partitionPoint index), tail := e.offset })

/-- The batch indexes are strictly increasing. -/
def increasing : List LogEntry → Bool
  | e :: e' :: es => e.index < e'.index && increasing (e' :: es)
  | _ => true

/-- `write_all` behind a seek. A write of no bytes does not extend the file. -/
def writeAt (bytes : Bytes) : Storage :=
  if bytes = [] then s else s.setFile (Sparse.write s.file s.tail bytes)

/-- The write of a batch, behind the cut of a conflicting suffix. -/
def writeBatch (batch : List LogEntry) (fault : Option AppendFault) : Option RaftError × Storage :=
  let buf := records crc batch
  match fault with
  | some (.seek kind) => (some (storageWriteErr "seek raft log" kind), s)
  | some (.write n kind) =>
    (some (storageWriteErr "write raft log" kind), s.writeAt (buf.take n))
  | some (.sync kind) => (some (storageWriteErr "fsync raft log" kind), s.writeAt buf)
  | _ =>
    (none, { s.writeAt buf with
      tail := s.tail + buf.length, entries := s.entries ++ stage s.tail batch })

/-- The batch overlaps the log. -/
def conflicts (first : LogEntry) : Bool := s.entries.getLast?.any (first.index ≤ ·.index)

/-- The fault of the cut that an append begins with. -/
def truncation : Option AppendFault → Option TruncateFault
  | some (.truncate f) => some f
  | _ => none

def appendEntries (batch : List LogEntry) (fault : Option AppendFault) : Option RaftError × Storage :=
  match batch with
  | [] => (none, s)
  | first :: _ =>
    if increasing batch then
      let cut := if s.conflicts first then s.truncateSuffix first.index (truncation fault) else (none, s)
      if cut.1.isSome then cut else cut.2.writeBatch crc batch fault
    else (some (.storage "append_entries: batch indexes not strictly increasing"), s)

def truncateBefore (upTo : UInt64) (fault : Option CompactFault) : Option RaftError × Storage :=
  let pos := s.partitionPoint upTo
  if pos = 0 then (none, s)
  else
    let kept := s.log.drop pos
    let buf := records crc kept
    let renamed : Storage := { s with dir := { s.dir with wal := buf }, detached := some s.file }
    match fault with
    | some (.create kind) => (some (storageWriteErr "create compact tmp" kind), s)
    | some (.write kind) => (some (storageWriteErr "write compact tmp" kind), s)
    | some (.sync kind) => (some (storageWriteErr "fsync compact tmp" kind), s)
    | some (.rename kind) => (some (storageWriteErr "rename compacted log" kind), s)
    -- the new file is in place, the handle and the index are those of the old one
    | some (.syncDir kind) => (some (storageWriteErr "fsync data dir" kind), renamed)
    | some .reopen => (some (.storage "reopen compacted log"), renamed)
    | none => (none, { renamed with detached := none, tail := buf.length, entries := stage 0 kept })

def saveSnapshot (m : SnapshotMeta) (snapshot : Bytes) (fault : Option SnapshotFault) : Option RaftError × Storage :=
  let saved : Storage := { s with dir := { s.dir with snapshot := some (encodeSnapshot crc m snapshot) } }
  match fault with
  | some (.create kind) | some (.write kind) | some (.sync kind) | some (.rename kind) =>
    (some (storageWriteErr "write snapshot" kind), s)
  | some (.syncDir kind) => (some (storageWriteErr "write snapshot" kind), saved)
  | none => (none, { saved with snapshot := some (m, snapshot) })

/-- `FileRaftStorage::new`: the files it leaves, and the storage unless it refuses to open. -/
def new (dir : Dir) (fault : Option OpenFault) : Dir × Option Storage :=
  if fault = some .before then (dir, none)
  else
    match openAndReplay crc dir.wal with
    | .error _ => (dir, none)
    | .ok (entries, good) =>
      let dir := { dir with wal := dir.wal.take good }
      if fault = some .after then (dir, none)
      else
        match readSnapshotFile crc dir.snapshot with
        | .error _ => (dir, none)
        | .ok snapshot => (dir, some { dir := dir, tail := good, entries := entries, snapshot := snapshot })

def lastLogPosition : UInt64 × UInt64 :=
  match s.entries.getLast? with
  | some e => (e.index, e.term)
  | none => (0, 0)

/-! ## Runs -/

/-- A call, and which of its file operations fails. -/
inductive Call where
  | append (batch : List LogEntry) (fault : Option AppendFault)
  | truncateSuffix (index : UInt64) (fault : Option TruncateFault)
  | truncateBefore (upTo : UInt64) (fault : Option CompactFault)
  | saveSnapshot (m : SnapshotMeta) (snapshot : Bytes) (fault : Option SnapshotFault)
  deriving DecidableEq, Repr

def call : Call → Option RaftError × Storage
  | .append batch fault => s.appendEntries crc batch fault
  | .truncateSuffix index fault => s.truncateSuffix index fault
  | .truncateBefore upTo fault => s.truncateBefore crc upTo fault
  | .saveSnapshot m snapshot fault => s.saveSnapshot crc m snapshot fault

end Storage

end RaftLog

end Arbitro
