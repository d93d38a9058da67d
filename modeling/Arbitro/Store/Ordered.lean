import Arbitro.Store.Tolerant

/-!
# The contract of a store

What the trait `Store` promises, on the list of the entries that were not removed: an ordered
log. The seqs are handed out one after the other and are not given twice; a range is read in
the order of the seqs; and a removal takes exactly the entries asked for.

A store may refuse an entry for its size, and a back end either removes the entries that `drain`
asks for or tombstones them. A tombstoned entry is handed out with its flag set.
-/

namespace Arbitro

/-- What a store is asked to do. -/
inductive StoreOp where
  | append (entry : EntryRef) (timestamp : ℕ)
  | appendBatch (entries : List EntryRef) (timestamp : ℕ)
  | truncateFront (target : ℕ)
  | drain (stream : StreamId) (subject : Bytes)
  | purge
  | tombstoneAt (seq : ℕ)
  | tombstoneStream (stream : StreamId)
  deriving DecidableEq, Repr

/-- What it answers: the first seq that was assigned, an error, how many entries were deleted, or
whether there was one. -/
inductive StoreReply where
  | seq (first : ℕ)
  | error (e : StoreError)
  | removed (count : ℕ)
  | found (hit : Bool)
  /-- The thread panics in the middle of it. -/
  | panicked
  deriving DecidableEq, Repr

/-- The seqs that an operation has assigned. -/
def StoreOp.assigned : StoreOp → StoreReply → List ℕ
  | .append _ _, .seq first => [first]
  | .appendBatch entries _, .seq first => List.range' first entries.length
  | _, _ => []

/-- `StoreInfo`, without `first_seq`. -/
structure StoreInfo where
  messages : ℕ
  bytes : ℕ
  lastSeq : ℕ
  deriving DecidableEq, Repr

def StoreEntry.size (e : StoreEntry) : ℕ := e.subject.length + e.payload.length

/-- An ordered log: the entries there are, and the next seq. -/
structure OrderedLog where
  entries : List StoreEntry := []
  nextSeq : ℕ := 1
  deriving DecidableEq, Repr

variable (l : OrderedLog) (p : StoreEntry → Bool)

namespace OrderedLog

def appendAll (entries : List EntryRef) (timestamp : ℕ) : OrderedLog :=
  { entries := l.entries ++ storedFrom timestamp l.nextSeq entries, nextSeq := l.nextSeq + entries.length }

/-- Remove the entries that meet a condition. -/
def remove : OrderedLog := { l with entries := l.entries.filter fun e => !p e }

/-- Tombstone the entries that meet a condition. -/
def mark : OrderedLog :=
  { l with entries := l.entries.map fun e => if p e then e.kill else e }

/-- How many entries meet a condition and are not tombstoned. -/
def live : ℕ := l.entries.countP fun e => p e && !e.tombstone

/-- One operation, for a back end and what it refuses an entry for. A batch with a refused entry
is refused. -/
def step (backend : Backend) (refuses : EntryRef → Option StoreError) (l : OrderedLog) : StoreOp → OrderedLog × StoreReply
  | .append entry timestamp =>
    match refuses entry with
    | some e => (l, .error e)
    | none => (l.appendAll [entry] timestamp, .seq l.nextSeq)
  | .appendBatch entries timestamp =>
    match entries.findSome? refuses with
    | some e => (l, .error e)
    | none => (l.appendAll entries timestamp, .seq l.nextSeq)
  | .truncateFront target => (l.remove (·.seq < target), .removed (l.entries.countP (·.seq < target)))
  | .drain stream subject =>
    match backend with
    | .memory =>
      (l.remove (Journal.drained stream subject), .removed (l.entries.countP (Journal.drained stream subject)))
    | .tolerant => (l.mark (Journal.drained stream subject), .removed (l.live (Journal.drained stream subject)))
  | .purge => (l.remove fun _ => true, .removed l.entries.length)
  | .tombstoneAt seq => (l.mark (·.seq == seq), .found (0 < l.live (·.seq == seq)))
  | .tombstoneStream stream => (l.mark (·.streamId == stream), .removed (l.live (·.streamId == stream)))

/-- `get` and `read`. -/
def read (seq : ℕ) : Option StoreEntry := l.entries.find? (·.seq == seq)

/-- `for_each` and `read_range`. -/
def range (start stop : ℕ) : List StoreEntry :=
  l.entries.filter fun e => start ≤ e.seq && e.seq < stop

def info : StoreInfo := ⟨l.entries.length, (l.entries.map StoreEntry.size).sum, l.nextSeq - 1⟩

end OrderedLog

/-- Is an index entry tombstoned? -/
def LogMetadata.dead (d : LogMetadata) : Bool := d.flags.testBit 0

/-- `flags |= TOMBSTONE`. -/
def LogMetadata.bury (d : LogMetadata) : LogMetadata := { d with flags := d.flags ||| 1 }

/-! ## Positions

The searches of both back ends, in the seqs of their index. -/

namespace SeqIndex

/-- Where `binary_search_by_key` finds a seq, or where it would go. -/
def lowerBound (seqs : List ℕ) (seq : ℕ) : ℕ := seqs.findIdx fun s => seq ≤ s

def isAt (seqs : List ℕ) (i seq : ℕ) : Bool := (seqs[i]?.map (· == seq)).getD false

def seqToIdx (firstSeq : ℕ) (seqs : List ℕ) (seq : ℕ) : Option ℕ :=
  if seq < firstSeq then none
  else if isAt seqs (seq - firstSeq) seq then some (seq - firstSeq)
  else if isAt seqs (lowerBound seqs seq) seq then some (lowerBound seqs seq)
  else none

def findLowerBound (firstSeq : ℕ) (seqs : List ℕ) (seq : ℕ) : ℕ :=
  if seq ≤ firstSeq then 0
  else if isAt seqs (seq - firstSeq) seq then seq - firstSeq
  else lowerBound seqs seq

/-- The `Entry` that an index entry points at, in the bytes of the segments: the subject, and the
payload behind it. `none` is a range outside the segment, which panics. -/
def entryAt (segment : ℕ → Bytes) (data : LogMetadata) : Option StoreEntry :=
  let bytes := segment data.segmentIdx
  if data.offset + data.subjLen + data.payloadLen ≤ bytes.length then
    some
      { seq := data.seq
        streamId := data.streamId
        timestamp := data.ts
        subject := (bytes.drop data.offset).take data.subjLen
        payload := (bytes.drop (data.offset + data.subjLen)).take data.payloadLen
        flags := data.flags }
  else none

variable (firstSeq : ℕ) (index : List LogMetadata) (view : LogMetadata → Option StoreEntry)

/-- `read`, and what `get` hands out; `none` is a panic. -/
def read (seq : ℕ) : Option (Option StoreEntry) :=
  match (seqToIdx firstSeq (index.map (·.seq)) seq).bind (index[·]?) with
  | none => some none
  | some data => (view data).map some

/-- `for_each` and `read_range`. -/
def forEach (start stop : ℕ) : Option (List StoreEntry) :=
  let e := min (findLowerBound firstSeq (index.map (·.seq)) stop) index.length
  let s := min (findLowerBound firstSeq (index.map (·.seq)) start) e
  ((index.take e).drop s).mapM view

/-- What `tombstone_at` does to the index, and whether it found an entry that was not tombstoned. -/
def tombstone (seq : ℕ) : List LogMetadata × Bool :=
  match seqToIdx firstSeq (index.map (·.seq)) seq with
  | none => (index, false)
  | some i =>
    if (index[i]?.map LogMetadata.dead).getD false then (index, false) else (index.modify i LogMetadata.bury, true)

end SeqIndex

end Arbitro
