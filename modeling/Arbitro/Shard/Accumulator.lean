import Arbitro.Engine.Basic

/-!
# The frame accumulator

Deliveries of one drain cycle are grouped into one frame per `(connection,
stream)`, in the order the pairs are first touched. A bucket is kept as the list
of its wire entries instead of their encoding; the pool the source takes buckets
from is not modelled, and the drain adds no fanout entries.
-/

namespace Arbitro

/-- One entry of a delivery frame: `DeliveryEntryHeader` and its body. -/
structure WireEntry where
  consumerId : ConsumerId
  seq : ℕ
  /-- Which subscription of the consumer the copy belongs to. -/
  subId : ℕ
  subject : Bytes
  replyTo : Bytes
  payload : Bytes
  deriving DecidableEq, Repr

/-- `Bucket`; flushed as a `Frame` with the same fields. -/
structure Bucket where
  connectionId : ConnectionId
  streamId : StreamId
  firstSeq : ℕ
  count : ℕ
  entries : List WireEntry
  deriving DecidableEq, Repr

namespace Bucket

def activate (conn : ConnectionId) (stream : StreamId) (firstSeq : ℕ) : Bucket :=
  ⟨conn, stream, firstSeq, 0, []⟩

/-- `push_entry_bytes`: the 16-bit count saturates. -/
def pushEntry (b : Bucket) (e : WireEntry) : Bucket :=
  let count := min (b.count + 1) (2 ^ 16 - 1)
  { b with
    count := count
    firstSeq := if count = 1 then e.seq else b.firstSeq
    entries := b.entries ++ [e] }

/-- The key of `index`. -/
def isFor (b : Bucket) (conn : ConnectionId) (stream : StreamId) : Bool :=
  b.connectionId == conn && b.streamId == stream

end Bucket

/-- The active buckets, in the order of their first touch. -/
abbrev Accumulator := List Bucket

namespace Accumulator

def add (acc : Accumulator) (conn : ConnectionId) (stream : StreamId) (e : WireEntry) : Accumulator :=
  if acc.any (·.isFor conn stream) then acc.map fun b => if b.isFor conn stream then b.pushEntry e else b
  else acc ++ [(Bucket.activate conn stream e.seq).pushEntry e]

/-- The frames `for_each` hands out. -/
def frames (acc : Accumulator) : List Bucket := acc.filter (·.count != 0)

end Accumulator

end Arbitro
