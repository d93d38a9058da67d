import Arbitro.Engine.Subject

/-!
# The journals of a shard

All streams of a shard share one journal and one seq space. Both back ends,
`MemoryStore` and `TolerantStore`, keep an index of their entries in the order of the
seqs; an index entry is modelled with the bytes it points at, so segments, files,
checksums and byte totals are left out. A binary search in an index sorted by seq is the
search for the first entry that is not below.

What both rely on is `Journal.OK`: the index is sorted, and its seqs lie between
`first_seq` and `next_seq`. The seqs need not be consecutive.
-/

namespace Arbitro

/-! ## Entries -/

/-- `arbitro_store::Entry`. -/
structure StoreEntry where
  seq : ℕ
  streamId : StreamId
  timestamp : ℕ
  subject : Bytes
  payload : Bytes
  flags : ℕ
  deriving DecidableEq, Repr

variable (e : StoreEntry)

/-- `flags::TOMBSTONE`, `flags::HAS_REPLY_TO` and `flags::HAS_HEADERS`, by bit. -/
def StoreEntry.tombstone : Bool := e.flags.testBit 0
def StoreEntry.hasReplyTo : Bool := e.flags.testBit 3
def StoreEntry.hasHeaders : Bool := e.flags.testBit 4

/-- What the drain sees of the store: its index, in the order of the seqs, and
`info().last_seq`. -/
structure StoreView where
  entries : List StoreEntry
  lastSeq : ℕ
  sorted : entries.Pairwise (·.seq < ·.seq)
  bounded : ∀ e ∈ entries, 0 < e.seq ∧ e.seq ≤ lastSeq

def StoreView.empty : StoreView := ⟨[], 0, .nil, nofun⟩

/-- `Store::for_each` over `[start, end)`. -/
def StoreView.range (store : StoreView) (start stop : ℕ) : List StoreEntry :=
  store.entries.filter fun e => start ≤ e.seq && e.seq < stop

/-- `flags |= TOMBSTONE`. -/
def StoreEntry.kill : StoreEntry := { e with flags := e.flags ||| 1 }

/-- `EntryRef`: what is appended. -/
structure EntryRef where
  streamId : StreamId
  subject : Bytes
  payload : Bytes
  flags : ℕ
  deriving DecidableEq, Repr

/-- `MemoryStore` or `TolerantStore`. -/
inductive Backend where
  | memory
  | tolerant
  deriving DecidableEq, Repr

/-! ## The index -/

structure Journal where
  index : List StoreEntry := []
  nextSeq : ℕ := 1
  firstSeq : ℕ := 1
  deriving DecidableEq, Repr

variable (j : Journal)

namespace Journal

/-- `info().last_seq`. -/
def lastSeq : ℕ := j.nextSeq - 1

/-- Where `binary_search_by_key` finds a seq, or where it would go. -/
def lowerBound (seq : ℕ) : ℕ := j.index.findIdx fun e => seq ≤ e.seq

/-- Is the entry at a position the one with this seq? -/
def isAt (i seq : ℕ) : Bool := (j.index[i]?.map (·.seq == seq)).getD false

/-- `seq_to_idx`: the position a gapless index has the seq at, else a search. -/
def seqToIdx (seq : ℕ) : Option ℕ :=
  if seq < j.firstSeq then none
  else if j.isAt (seq - j.firstSeq) seq then some (seq - j.firstSeq)
  else if j.isAt (j.lowerBound seq) seq then some (j.lowerBound seq)
  else none

def findLowerBound (seq : ℕ) : ℕ :=
  if seq ≤ j.firstSeq then 0
  else if j.isAt (seq - j.firstSeq) seq then seq - j.firstSeq
  else j.lowerBound seq

def read (seq : ℕ) : Option StoreEntry := (j.seqToIdx seq).bind (j.index[·]?)

/-- `for_each` over `[start, stop)`. -/
def forEach (start stop : ℕ) : List StoreEntry :=
  let e := min (j.findLowerBound stop) j.index.length
  let s := min (j.findLowerBound start) e
  (j.index.take e).drop s

/-! ## Writing -/

/-- `append`: the next seq, and the entry at the end of the index. What an append may be
refused for (the sizes of entry and segment) is left to the caller. -/
def append (entry : EntryRef) (timestamp : ℕ) : Journal :=
  { j with
    index := j.index ++ [⟨j.nextSeq, entry.streamId, timestamp, entry.subject, entry.payload, entry.flags⟩]
    nextSeq := j.nextSeq + 1 }

/-- `tombstone_at`: `true` if an entry was found that was not tombstoned. -/
def tombstoneAt (seq : ℕ) : Journal × Bool :=
  match j.seqToIdx seq with
  | none => (j, false)
  | some i =>
    if (j.index[i]?.map (·.tombstone)).getD false then (j, false)
    else ({ j with index := j.index.modify i StoreEntry.kill }, true)

/-- `tombstone_at` for a list of seqs. -/
def tombstoneAll (seqs : List ℕ) : Journal := seqs.foldl (fun j seq => (j.tombstoneAt seq).1) j

/-- Is an entry one of the stream with this subject? The empty subject asks for all. -/
def drained (stream : StreamId) (subject : Bytes) (e : StoreEntry) : Bool :=
  e.streamId == stream && (subject.isEmpty || subjectMatches subject e.subject)

/-- `tombstone_stream`: in place in memory; on disk, seq by seq. -/
def tombstoneStream (backend : Backend) (j : Journal) (stream : StreamId) : Journal :=
  match backend with
  | .memory =>
    { j with index := j.index.map fun e => if e.streamId == stream && !e.tombstone then e.kill else e }
  | .tolerant =>
    j.tombstoneAll ((j.index.filter fun e => e.streamId == stream && !e.tombstone).map (·.seq))

/-- `drain`: the memory store is rebuilt without the entries, which leaves gaps; on disk
they are tombstoned. -/
def drain (backend : Backend) (j : Journal) (stream : StreamId) (subject : Bytes) : Journal :=
  match backend with
  | .memory =>
    let index := j.index.filter fun e => !drained stream subject e
    { j with index := index, firstSeq := (index.head?.map (·.seq)).getD j.nextSeq }
  | .tolerant => j.tombstoneAll ((j.index.filter fun e => !e.tombstone && drained stream subject e).map (·.seq))

/-- `truncate_front`: positions are counted from `first_seq`, as if there were no gaps. -/
def truncateFront (backend : Backend) (j : Journal) (target : ℕ) : Journal × ℕ :=
  let target := match backend with
    | .memory => target
    | .tolerant => min target j.nextSeq
  if target ≤ j.firstSeq ∨ j.index = [] then (j, 0)
  else
    let cut := min (target - j.firstSeq) j.index.length
    if cut = 0 then (j, 0) else ({ j with index := j.index.drop cut, firstSeq := target }, cut)

end Journal

end Arbitro
