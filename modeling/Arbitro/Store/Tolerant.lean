import Arbitro.Store.Segment

/-!
# The tolerant store

`TolerantStore` with its files: appends into the active segment, rotation to the next
one, and `init`, which rebuilds the index from the sidecars and a scan of the segments.

Files are named after a seq with leading zeros, so the directory is listed in the order of
the seqs. No retention limit is set by the broker, and fsync has no effect on what a
process reads, so `enforce_limits` and the fsync policy are left out. So are tombstones
and the list `segments`, which `truncate_front` and `compact` read; neither do calls to
the file system fail.
-/

namespace Arbitro

variable (crc : Crc32)

/-! ## The directory -/

/-- The directory of a store: the segments in the order of their names, and the sidecars. -/
structure Disk where
  logs : List (ℕ × SegmentFile) := []
  idx : ℕ → Option Bytes := fun _ => none

variable (d : Disk)

/-- Create or replace a file in a listing that is in the order of the names. -/
def putLog (name : ℕ) (f : SegmentFile) : List (ℕ × SegmentFile) → List (ℕ × SegmentFile)
  | [] => [(name, f)]
  | (n, g) :: logs =>
    if name < n then (name, f) :: (n, g) :: logs
    else if name = n then (name, f) :: logs
    else (n, g) :: putLog name f logs

namespace Disk

/-- A segment file; an empty one if there is none. -/
def log (name : ℕ) : SegmentFile := (d.logs.lookup name).getD {}

def put (name : ℕ) (f : SegmentFile) : Disk := { d with logs := putLog name f d.logs }

/-- `fs::write` of a sidecar. -/
def putIdx (name : ℕ) (bytes : Bytes) : Disk :=
  { d with idx := Function.update d.idx name (some bytes) }

/-- `create_active_segment`: an existing file is kept as it is. -/
def createActiveSegment (name : ℕ) : Disk := d.put name ((d.log name).setLen maxSegmentBytes)

def sealSegment (name len : ℕ) : Disk := d.put name ((d.log name).setLen len)

end Disk

/-! ## The store -/

inductive StoreError where
  | invalidSubjectLength
  | entryTooLarge
  deriving DecidableEq, Repr

structure TolerantStore where
  disk : Disk
  /-- Is there an active mapping? -/
  active : Bool := false
  activeSegmentId : ℕ := 0
  sealedSegments : List SegmentFile := []
  index : List LogMetadata := []
  nextSeq : ℕ := 1
  firstSeq : ℕ := 1
  totalBytes : ℕ := 0
  currentSegmentOffset : ℕ := 0

variable (s : TolerantStore) (hash : WireHash)

namespace TolerantStore

/-- The index entries of the active segment. -/
def segEntries : List LogMetadata :=
  s.index.filter fun m => m.segmentIdx = s.sealedSegments.length

/-- The first half of `rotate`: seal the active segment and write its sidecar. -/
def sealActive : TolerantStore :=
  if s.active then
    let d := s.disk.sealSegment s.activeSegmentId s.currentSegmentOffset
    let firstSeq := (s.segEntries.head?.map (·.seq)).getD s.activeSegmentId
    { s with
      disk := d.putIdx firstSeq (idxSidecar s.segEntries)
      active := false
      sealedSegments := s.sealedSegments ++ [d.log s.activeSegmentId] }
  else s

def rotate : TolerantStore :=
  let s := s.sealActive
  { s with
    disk := s.disk.createActiveSegment s.nextSeq
    active := true
    activeSegmentId := s.nextSeq
    currentSegmentOffset := 0 }

/-- `append_no_rotate`; the seq it returns is `next_seq` before. -/
def appendNoRotate (s : TolerantStore) (entry : EntryRef) (timestamp : ℕ) : TolerantStore :=
  let start := s.currentSegmentOffset
  let f := (s.disk.log s.activeSegmentId).write start (recordBytes crc s.nextSeq entry timestamp)
  let m : LogMetadata :=
    { seq := s.nextSeq
      ts := timestamp
      subjLen := entry.subject.length
      payloadLen := entry.payload.length
      offset := start + headerSize
      segmentIdx := s.sealedSegments.length
      subjectHash := hash entry.subject
      streamId := entry.streamId
      flags := entry.flags }
  { s with
    disk := s.disk.put s.activeSegmentId f
    index := s.index ++ [m]
    nextSeq := s.nextSeq + 1
    totalBytes := s.totalBytes + (entry.subject.length + entry.payload.length)
    currentSegmentOffset := start + entry.needed }

/-- What `append` and `append_batch` refuse an entry for. -/
def refuses (entry : EntryRef) : Option StoreError :=
  if 65535 < entry.subject.length then some .invalidSubjectLength
  else if maxSegmentBytes < entry.needed then some .entryTooLarge
  else none

/-- The rotation before an entry that the active segment has no room for. -/
def makeRoom (entry : EntryRef) : TolerantStore :=
  if maxSegmentBytes ≤ s.currentSegmentOffset + entry.needed then s.rotate else s

def append (s : TolerantStore) (entry : EntryRef) (timestamp : ℕ) : Except StoreError (TolerantStore × ℕ) :=
  match refuses entry with
  | some e => .error e
  | none =>
    let s := s.makeRoom entry
    .ok (s.appendNoRotate crc hash entry timestamp, s.nextSeq)

/-- `append_batch`, with the seq of its first entry. -/
def appendBatch (s : TolerantStore) (entries : List EntryRef) (timestamp : ℕ) :
    Except StoreError (TolerantStore × ℕ) :=
  if entries = [] then .ok (s, s.nextSeq)
  else
    match entries.findSome? refuses with
    | some e => .error e
    | none =>
      let totalNeeded := (entries.map EntryRef.needed).sum
      if s.currentSegmentOffset + totalNeeded < maxSegmentBytes then
        -- the whole batch fits: no check per entry
        .ok (entries.foldl (fun s e => s.appendNoRotate crc hash e timestamp) s, s.nextSeq)
      else
        .ok (entries.foldl (fun s e => (s.makeRoom e).appendNoRotate crc hash e timestamp) s, s.nextSeq)

/-- The bytes an index entry points into. -/
def data (m : LogMetadata) : SegmentFile :=
  if m.segmentIdx = s.sealedSegments.length then s.disk.log s.activeSegmentId
  else s.sealedSegments[m.segmentIdx]?.getD {}

/-- What `get` and `read` hand out for an index entry. -/
def entryAt (m : LogMetadata) : StoreEntry := m.entry (s.data m)

/-- All that the store holds. -/
def entries : List StoreEntry := s.index.map s.entryAt

/-! ## Recovery -/

/-- `load_segment`. A segment without a record is not mapped. -/
def loadSegment (s : TolerantStore) (log : ℕ × SegmentFile) : TolerantStore :=
  let f := log.2
  if f.len < headerSize then s
  else
    let segmentIdx := s.sealedSegments.length
    let covered := ((s.disk.idx log.1).bind (loadIdxSidecar segmentIdx)).getD []
    -- the scan goes on behind the last record that the sidecar covers
    let start := (covered.getLast?.map LogMetadata.stop).getD 0
    let scanned := (Scan.walk (scanRecord crc hash segmentIdx f) (f.len + 1) start).1
    let found := covered ++ scanned
    let first := (((covered.head?.toList ++ scanned).map (·.seq)).find? (· ≠ 0)).getD 0
    { s with
      index := s.index ++ found
      nextSeq := (found.getLast?.map (·.seq + 1)).getD s.nextSeq
      totalBytes := s.totalBytes + (found.map fun m => m.subjLen + m.payloadLen).sum
      sealedSegments := if first = 0 then s.sealedSegments else s.sealedSegments ++ [f] }

/-- `init` of a new store on a directory. -/
def init (disk : Disk) : TolerantStore :=
  let s := disk.logs.foldl (loadSegment crc hash) { disk := disk }
  let s := s.rotate
  { s with firstSeq := (s.index.head?.map (·.seq)).getD s.firstSeq }

/-- `shutdown`: the active segment is sealed, with a sidecar if it holds a record. -/
def shutdown : Disk :=
  let d := s.disk.sealSegment s.activeSegmentId s.currentSegmentOffset
  match s.segEntries with
  | [] => d
  | m :: ms => d.putIdx m.seq (idxSidecar (m :: ms))

/-! ## Crashes -/

/-- Where a crash stops the process. Inside a batch it is as after the entries before. -/
inductive Tear where
  /-- Between two appends. -/
  | between
  /-- In `rotate`, before the next segment is created. -/
  | sealing
  /-- In `append`, with so many bytes of the record written. -/
  | inRecord (entry : EntryRef) (timestamp written : ℕ)

/-- The segments a crash leaves. -/
def tear : Tear → Disk
  | .between => s.disk
  | .sealing => s.sealActive.disk
  | .inRecord entry timestamp written =>
    match refuses entry with
    | some _ => s.disk
    | none =>
      let s := s.makeRoom entry
      let bytes := (recordBytes crc s.nextSeq entry timestamp).take written
      s.disk.put s.activeSegmentId ((s.disk.log s.activeSegmentId).write s.currentSegmentOffset bytes)

end TolerantStore

/-- Sidecars after a crash: of each there are some first bytes, or none is left. -/
def Disk.cutIdx (left : ℕ → Option ℕ) : Disk :=
  { d with idx := fun name => (left name).bind fun k => (d.idx name).map (·.take k) }

/-- `init` after a crash. -/
def TolerantStore.recover (s : TolerantStore) (t : TolerantStore.Tear) (left : ℕ → Option ℕ) : TolerantStore :=
  TolerantStore.init crc hash ((s.tear crc t).cutIdx left)

/-! ## Runs -/

/-- The entry that an append stores under a seq. -/
def EntryRef.stored (entry : EntryRef) (seq timestamp : ℕ) : StoreEntry :=
  ⟨seq, entry.streamId, timestamp, entry.subject, entry.payload, entry.flags⟩

/-- The entries of a batch under seqs one after the other. -/
def storedFrom (timestamp : ℕ) : ℕ → List EntryRef → List StoreEntry
  | _, [] => []
  | seq, entry :: entries => entry.stored seq timestamp :: storedFrom timestamp (seq + 1) entries

/-- Do the bytes that a crash has left make the whole record, because the others are zero? -/
def isWhole (seq : ℕ) (entry : EntryRef) (timestamp written : ℕ) : Bool :=
  ((recordBytes crc seq entry timestamp).drop written).all (· == 0)

/-- The entry a crash has stopped the append of, if its record is whole. -/
def TolerantStore.completed : TolerantStore.Tear → List StoreEntry
  | .between => []
  | .sealing => []
  | .inRecord entry timestamp written =>
    if TolerantStore.refuses entry = none ∧ isWhole crc s.nextSeq entry timestamp written then
      [entry.stored s.nextSeq timestamp]
    else []

inductive StoreAction where
  | append (entry : EntryRef) (timestamp : ℕ)
  | appendBatch (entries : List EntryRef) (timestamp : ℕ)
  /-- `shutdown`, and `init` of a new store. -/
  | reopen
  /-- A crash, and `init` of a new store. -/
  | crash (tear : TolerantStore.Tear) (left : ℕ → Option ℕ)

/-- A store, and the entries whose records were completed, with the seqs that were returned. -/
structure StoreRun where
  store : TolerantStore
  appended : List StoreEntry := []

def StoreRun.step (r : StoreRun) : StoreAction → StoreRun
  | .append entry timestamp =>
    match r.store.append crc hash entry timestamp with
    | .error _ => r
    | .ok (store, seq) => { store := store, appended := r.appended ++ [entry.stored seq timestamp] }
  | .appendBatch entries timestamp =>
    match r.store.appendBatch crc hash entries timestamp with
    | .error _ => r
    | .ok (store, first) => { store := store, appended := r.appended ++ storedFrom timestamp first entries }
  | .reopen => { r with store := TolerantStore.init crc hash r.store.shutdown }
  | .crash tear left =>
    { store := r.store.recover crc hash tear left, appended := r.appended ++ r.store.completed crc tear }

/-- A store opened on an empty directory. -/
def StoreRun.start : StoreRun := { store := TolerantStore.init crc hash {} }

def StoreRun.run (actions : List StoreAction) : StoreRun :=
  actions.foldl (StoreRun.step crc hash) (StoreRun.start crc hash)

end Arbitro
