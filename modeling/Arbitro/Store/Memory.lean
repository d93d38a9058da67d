import Arbitro.Store.Ordered

/-!
# The memory store

`MemoryStore` with its arena: segments of a fixed size that are filled one after the other, and
an index that says where subject and payload of an entry are.

A mapping is modelled by the bytes that were written into it, followed by zeros. That the
operating system refuses another mapping is left out.
-/

namespace Arbitro

def minSegmentSize : ℕ := 4 * 1024

structure MemoryStore where
  active : Bytes := []
  activeLen : ℕ := 0
  sealed : List Bytes := []
  sealedLens : List ℕ := []
  index : List LogMetadata := []
  nextSeq : ℕ := 1
  firstSeq : ℕ := 1
  totalBytes : ℕ := 0
  segmentSize : ℕ
  deriving DecidableEq, Repr

variable (m : MemoryStore) (hash : WireHash)

namespace MemoryStore

def withSegmentSize (segmentSize : ℕ) : MemoryStore := { segmentSize := max segmentSize minSegmentSize }

def rotate : MemoryStore :=
  { m with
    active := []
    activeLen := 0
    sealed := m.sealed ++ [m.active]
    sealedLens := m.sealedLens ++ [m.activeLen] }

/-- `segment_slice`: the used bytes of a segment. -/
def segmentSlice (segmentIdx : ℕ) : Bytes :=
  if segmentIdx < m.sealed.length then
    Sparse.slice (m.sealed.getD segmentIdx []) 0 (m.sealedLens.getD segmentIdx 0)
  else Sparse.slice m.active 0 m.activeLen

/-- `push_entry`. The lengths are kept in 16 and 32 bits; `copy_from_slice` panics when the
lengths of the slices differ. -/
def pushEntry (m : MemoryStore) (entry : EntryRef) (timestamp : ℕ) : MemoryStore × StoreReply :=
  let subjLen := entry.subject.length % 2 ^ 16
  let payloadLen := entry.payload.length % 2 ^ 32
  let entryBytes := subjLen + payloadLen
  if m.segmentSize < entryBytes then (m, .error .entryTooLarge)
  else
    let m := if m.segmentSize < m.activeLen + entryBytes then m.rotate else m
    let seq := m.nextSeq
    let m := { m with nextSeq := seq + 1 }
    if entry.subject.length ≠ subjLen then (m, .panicked)
    else
      let m := { m with active := Sparse.write m.active m.activeLen entry.subject }
      if entry.payload.length ≠ payloadLen then (m, .panicked)
      else
        let data : LogMetadata :=
          { seq := seq
            ts := timestamp
            subjLen := subjLen
            payloadLen := payloadLen
            offset := m.activeLen % 2 ^ 32
            segmentIdx := m.sealed.length
            subjectHash := hash entry.subject
            streamId := entry.streamId
            flags := entry.flags }
        ({ m with
            active := Sparse.write m.active (m.activeLen + subjLen) entry.payload
            activeLen := m.activeLen + entryBytes
            index := m.index ++ [data]
            totalBytes := m.totalBytes + entryBytes }, .seq seq)

/-- The loop of `append_batch`: what it stops at, if anything. -/
def pushAll (hash : WireHash) (timestamp : ℕ) : MemoryStore → List EntryRef → MemoryStore × Option StoreReply
  | m, [] => (m, none)
  | m, entry :: entries =>
    match m.pushEntry hash entry timestamp with
    | (m, .seq _) => pushAll hash timestamp m entries
    | (m, r) => (m, some r)

def appendBatch (m : MemoryStore) (entries : List EntryRef) (timestamp : ℕ) : MemoryStore × StoreReply :=
  match pushAll hash timestamp m entries with
  | (m', none) => (m', .seq m.nextSeq)
  | (m', some r) => (m', r)

/-- `get_entry_view`. -/
def entryView (data : LogMetadata) : Option StoreEntry := SeqIndex.entryAt m.segmentSlice data

/-- `read`, and what `get` hands out. -/
def read (m : MemoryStore) (seq : ℕ) : Option (Option StoreEntry) := SeqIndex.read m.firstSeq m.index m.entryView seq

/-- `for_each` and `read_range`. -/
def forEach (m : MemoryStore) (start stop : ℕ) : Option (List StoreEntry) :=
  SeqIndex.forEach m.firstSeq m.index m.entryView start stop

/-- `truncate_front`: positions are counted from `first_seq`, as if there were no gaps. Sealed
segments without an entry left are dropped. -/
def truncateFront (firstSeq : ℕ) : MemoryStore × StoreReply :=
  if firstSeq ≤ m.firstSeq ∨ m.index = [] then (m, .removed 0)
  else
    let cut := min (firstSeq - m.firstSeq) m.index.length
    if cut = 0 then (m, .removed 0)
    else
      let droppedBytes := ((m.index.take cut).map fun d => d.subjLen + d.payloadLen).sum
      let remainingStartSeg := (m.index[cut]?.map (·.segmentIdx)).getD (m.sealed.length + 1)
      let dropped := min remainingStartSeg m.sealed.length
      ({ m with
          sealed := m.sealed.drop dropped
          sealedLens := m.sealedLens.drop dropped
          index := (m.index.drop cut).map fun d => { d with segmentIdx := d.segmentIdx - dropped }
          firstSeq := firstSeq
          totalBytes := m.totalBytes - droppedBytes }, .removed cut)

/-- `purge`: the mapping is used again. -/
def purge : MemoryStore × StoreReply :=
  ({ m with
      activeLen := 0
      sealed := []
      sealedLens := []
      index := []
      firstSeq := m.nextSeq
      totalBytes := 0 }, .removed m.index.length)

/-- The entry as it goes into the new store of `drain`. -/
def refOf (e : StoreEntry) : EntryRef := ⟨e.streamId, e.subject, e.payload, e.flags⟩

/-- The loop of `drain`: the new store and how many entries were left out; `none` is a panic. -/
def rebuild (hash : WireHash) (m : MemoryStore) (stream : StreamId) (subject : Bytes) :
    List LogMetadata → MemoryStore → Option (MemoryStore × ℕ)
  | [], new => some (new, 0)
  | data :: rest, new =>
    match m.entryView data with
    | none => none
    | some e =>
      if Journal.drained stream subject e then
        (rebuild hash m stream subject rest new).map fun r => (r.1, r.2 + 1)
      else rebuild hash m stream subject rest ({ new with nextSeq := data.seq }.pushEntry hash (refOf e) data.ts).1

/-- `drain`: the store is built again without the entries. -/
def drain (m : MemoryStore) (stream : StreamId) (subject : Bytes) : MemoryStore × StoreReply :=
  match rebuild hash m stream subject m.index (withSegmentSize m.segmentSize) with
  | none => (m, .panicked)
  | some (new, removed) =>
    ({ new with nextSeq := m.nextSeq, firstSeq := (new.index.head?.map (·.seq)).getD m.nextSeq }, .removed removed)

def tombstoneAt (seq : ℕ) : MemoryStore × StoreReply :=
  let r := SeqIndex.tombstone m.firstSeq m.index seq
  ({ m with index := r.1 }, .found r.2)

def tombstoneStream (stream : StreamId) : MemoryStore × StoreReply :=
  ({ m with index := m.index.map fun d => if d.streamId == stream && !d.dead then d.bury else d },
    .removed (m.index.countP fun d => d.streamId == stream && !d.dead))

def info : StoreInfo := ⟨m.index.length, m.totalBytes, m.nextSeq - 1⟩

/-- One operation. -/
def step (m : MemoryStore) : StoreOp → MemoryStore × StoreReply
  | .append entry timestamp => m.pushEntry hash entry timestamp
  | .appendBatch entries timestamp => m.appendBatch hash entries timestamp
  | .truncateFront target => m.truncateFront target
  | .drain stream subject => m.drain hash stream subject
  | .purge => m.purge
  | .tombstoneAt seq => m.tombstoneAt seq
  | .tombstoneStream stream => m.tombstoneStream stream

end MemoryStore

end Arbitro
