import Mathlib.Data.List.Sort
import Arbitro.Lib.LittleEndian
import Arbitro.Lib.Scan
import Arbitro.Lib.Sparse
import Arbitro.Shard.Store

/-!
# The journal of delayed messages

A delayed message waits in `DelayedJournal`: its record is appended to `delayed.log`, and
it is kept in memory until its time. The maturation loop pops what is due, which also sets
the `matured` byte of the records, and then appends the popped entries to the main store
one by one. After a restart `recover` scans the log; what has come due meanwhile is handed
over the same way.

The heap and the map of the entries by offset are one list, in the order of the heap: the
offsets given out only grow, so every element of the heap has its entry. The server calls
`recover` before anything else, and an absent file is an empty one.
-/

namespace Arbitro

open LittleEndian

structure DelayedEntry where
  deliverAtMs : ℕ
  streamId : StreamId
  subject : Bytes
  payload : Bytes
  flags : ℕ
  fileOffset : ℕ
  deriving DecidableEq, Repr

variable (e : DelayedEntry)

/-- What the main store gets. -/
def DelayedEntry.ref : EntryRef := ⟨e.streamId, e.subject, e.payload, e.flags⟩

/-- The order of the heap: by time, then by offset. -/
def DelayedEntry.Before (a b : DelayedEntry) : Prop :=
  a.deliverAtMs < b.deliverAtMs ∨ a.deliverAtMs = b.deliverAtMs ∧ a.fileOffset ≤ b.fileOffset

instance : DecidableRel DelayedEntry.Before := fun a b =>
  inferInstanceAs (Decidable (a.deliverAtMs < b.deliverAtMs ∨ _))

namespace Delayed

def maxDelayMs : ℕ := 604800000

def maxPendingDelayed : ℕ := 100000

def recordHeaderSize : ℕ := 20

/-- `DelayedAppendError`; failures of the file system are left out. -/
inductive AppendError where
  | delayTooLarge
  | tooManyPending
  deriving DecidableEq, Repr

/-! ## Records -/

/-- The header of a record: time, stream, lengths, flags and the `matured` byte. -/
def header (matured : ℕ) : Bytes :=
  layout [(8, e.deliverAtMs), (4, e.streamId), (2, e.subject.length), (4, e.payload.length), (1, e.flags),
    (1, matured)]

/-- A record of `delayed.log`. -/
def record (matured : ℕ) : Bytes := header e matured ++ e.subject ++ e.payload

/-- The size of a record. -/
def size : ℕ := recordHeaderSize + e.subject.length + e.payload.length

/-- A turn of the scan in `recover`: an entry with its `matured` byte. -/
def scanRecord (file : Bytes) (offset : ℕ) : Option (Option (DelayedEntry × ℕ) × ℕ) :=
  if file.length < offset + recordHeaderSize then none
  else
    let h := (file.drop offset).take recordHeaderSize
    let subjectLen := field h 12 2
    let payloadLen := field h 14 4
    -- a truncated record
    if file.length < offset + recordHeaderSize + (subjectLen + payloadLen) then none
    else
      let tail := (file.drop (offset + recordHeaderSize)).take (subjectLen + payloadLen)
      let e : DelayedEntry :=
        { deliverAtMs := field h 0 8
          streamId := field h 8 4
          subject := tail.take subjectLen
          payload := tail.drop subjectLen
          flags := field h 18 1
          fileOffset := offset }
      some (some (e, field h 19 1), offset + (recordHeaderSize + (subjectLen + payloadLen)))

end Delayed

/-! ## The journal -/

structure DelayedJournal where
  /-- `delayed.log`. -/
  file : Bytes := []
  /-- The entries that are waiting. -/
  pending : List DelayedEntry := []
  writeOffset : ℕ := 0
  deriving DecidableEq, Repr

variable (j : DelayedJournal)

namespace DelayedJournal

open Delayed

/-- `append`: the file is open for appending, so the record goes to its end, wherever
`write_offset` is. -/
def append (nowMs deliverAtMs : ℕ) (entry : EntryRef) : Except AppendError DelayedJournal :=
  if maxDelayMs < deliverAtMs - nowMs then .error .delayTooLarge
  else if maxPendingDelayed ≤ j.pending.length then .error .tooManyPending
  else
    let e : DelayedEntry := ⟨deliverAtMs, entry.streamId, entry.subject, entry.payload, entry.flags, j.writeOffset⟩
    .ok
      { file := j.file ++ record e 0
        pending := j.pending.orderedInsert DelayedEntry.Before e
        writeOffset := j.writeOffset + size e }

/-- `mark_matured_on_disk`: a `1` at the place of the `matured` byte. -/
def markMaturedOnDisk (file : Bytes) (offsets : List ℕ) : Bytes :=
  offsets.foldl (fun file offset => Sparse.write file (offset + 19) [1]) file

/-- The entries that are due. -/
def due (nowMs : ℕ) : List DelayedEntry := j.pending.takeWhile (·.deliverAtMs ≤ nowMs)

def popMatured (nowMs : ℕ) : DelayedJournal × List DelayedEntry :=
  ({ j with
      file := markMaturedOnDisk j.file ((j.due nowMs).map (·.fileOffset))
      pending := j.pending.dropWhile (·.deliverAtMs ≤ nowMs) }, j.due nowMs)

/-- The records of a log that are not matured. -/
def unmatured (file : Bytes) : List DelayedEntry :=
  ((Scan.walk (scanRecord file) (file.length + 1) 0).1.filter (·.2 == 0)).map Prod.fst

/-- What has come due while the broker was down. -/
def catchUp (file : Bytes) (nowMs : ℕ) : List DelayedEntry := (unmatured file).filter (·.deliverAtMs ≤ nowMs)

/-- `recover`, with the entries to catch up. -/
def recover (file : Bytes) (nowMs : ℕ) : DelayedJournal × List DelayedEntry :=
  ({ file := markMaturedOnDisk file ((catchUp file nowMs).map (·.fileOffset))
     pending := ((unmatured file).filter (nowMs < ·.deliverAtMs)).foldl (fun h e => h.orderedInsert DelayedEntry.Before e) []
     writeOffset := (Scan.walk (scanRecord file) (file.length + 1) 0).2 }, catchUp file nowMs)

end DelayedJournal

/-! ## Publishing, maturation and crashes -/

/-- The journal and the maturation loop beside the main store. -/
structure DelayLine where
  journal : DelayedJournal := {}
  /-- What was popped at `handTime` and is not yet in the main store. -/
  hand : List DelayedEntry := []
  handTime : ℕ := 0
  /-- The messages whose publisher got a `RepOk`. -/
  acked : List DelayedEntry := []
  /-- What was appended to the main store, with its timestamp. -/
  stored : List (DelayedEntry × ℕ) := []
  deriving DecidableEq, Repr

variable (s : DelayLine)

/-- Where a crash stops the broker. -/
inductive DelayTear where
  | between
  /-- In `append`, with so many bytes of the record in the file. -/
  | inAppend (nowMs deliverAtMs : ℕ) (entry : EntryRef) (written : ℕ)
  /-- In `pop_matured`, with so many `matured` bytes set. -/
  | inMark (nowMs written : ℕ)
  /-- In `recover`, with so many `matured` bytes set. -/
  | inRecover (nowMs written : ℕ)
  deriving DecidableEq, Repr

inductive DelayAction where
  | publish (nowMs deliverAtMs : ℕ) (entry : EntryRef)
  /-- The loop pops what is due, once it has handed over what it popped before. -/
  | mature (nowMs : ℕ)
  /-- The next popped entry is appended to the main store, or an error is logged. -/
  | store (accepted : Bool)
  /-- A crash, and `recover` after the restart. -/
  | crash (tear : DelayTear) (nowMs : ℕ)
  deriving DecidableEq, Repr

namespace DelayLine

/-- The file that a crash leaves. -/
def torn : DelayTear → Bytes
  | .between => s.journal.file
  | .inAppend nowMs deliverAtMs entry written =>
    match s.journal.append nowMs deliverAtMs entry with
    | .error _ => s.journal.file
    | .ok j => j.file.take (s.journal.file.length + written)
  | .inMark nowMs written =>
    DelayedJournal.markMaturedOnDisk s.journal.file (((s.journal.due nowMs).take written).map (·.fileOffset))
  | .inRecover nowMs written =>
    DelayedJournal.markMaturedOnDisk s.journal.file
      (((DelayedJournal.catchUp s.journal.file nowMs).take written).map (·.fileOffset))

def step : DelayAction → DelayLine
  | .publish nowMs deliverAtMs entry =>
    match s.journal.append nowMs deliverAtMs entry with
    | .error _ => s
    | .ok j =>
      { s with
        journal := j
        acked := s.acked ++
          [⟨deliverAtMs, entry.streamId, entry.subject, entry.payload, entry.flags, s.journal.writeOffset⟩] }
  | .mature nowMs =>
    if s.hand = [] then
      { s with journal := (s.journal.popMatured nowMs).1, hand := (s.journal.popMatured nowMs).2, handTime := nowMs }
    else s
  | .store accepted =>
    match s.hand with
    | [] => s
    | e :: hand => { s with hand := hand, stored := if accepted then s.stored ++ [(e, s.handTime)] else s.stored }
  | .crash tear nowMs =>
    let r := DelayedJournal.recover (s.torn tear) nowMs
    { s with journal := r.1, hand := r.2, handTime := nowMs }

/-- The loop over what was popped, with a main store that accepts it all. -/
def handOver : DelayLine := (List.replicate s.hand.length (DelayAction.store true)).foldl step s

/-- The state after actions from an empty log. -/
def run (actions : List DelayAction) : DelayLine := actions.foldl step {}

end DelayLine

end Arbitro
