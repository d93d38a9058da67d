import Arbitro.Lib.Map

/-!
# Engine vocabulary

Identifiers, the entities the catalog stores, the commands the engine executes
and the `DeltaEvents` every mutation hands back to the shard worker.
Identifiers are the source's `u32`/`u64` newtypes as numbers, seqs are plain numbers.
-/

namespace Arbitro

abbrev StreamId := ℕ
abbrev ConsumerId := ℕ
abbrev QueueId := ℕ
abbrev SubscriptionId := ℕ
abbrev BindingId := ℕ
abbrev ConnectionId := ℕ
abbrev NodeId := ℕ

/-- Subjects, patterns, names and payloads are bytes; nothing assumes UTF-8. -/
abbrev Bytes := List UInt8

/-- The value of `wire_hash_32`. -/
abbrev SubjectHash := UInt32

/-- `wire_hash_32`: the 32-bit hash of a subject. Computed by the `foldhash`
crate, so nothing is assumed about it beyond its type. -/
abbrev WireHash := Bytes → SubjectHash

/-- A hash to evaluate runs with: texts of up to four bytes have one of their own. -/
def sampleHash : WireHash := fun s => s.foldl (fun h c => 256 * h + c.toUInt32) 0

inductive AckPolicy where
  /-- Fire-and-forget: no ack required. -/
  | none
  /-- Explicit ack required per message (or batch). -/
  | explicit
  deriving DecidableEq, Repr

/-! ## Errors -/

inductive EngineError where
  | streamNotFound
  | consumerNotFound
  | subscriptionNotFound
  | consumerConfigMismatch
  | entityIdTooLarge
  deriving DecidableEq, Repr

abbrev EngineResult (α : Type) := Except EngineError α

/-! ## Configuration and stored entities -/

structure StreamConfig where
  id : StreamId
  name : Bytes
  deriving DecidableEq, Repr

structure ConsumerConfig where
  id : ConsumerId
  queueId : QueueId
  streamId : StreamId
  durable : Bool
  ackPolicy : AckPolicy
  maxInflight : ℕ
  /-- Ack deadline in milliseconds; 0 arms no timer. -/
  ackWaitMs : ℕ
  /-- Nacks before a message goes to the dead-letter stream; 0 disables it. -/
  maxNack : ℕ
  filter : Bytes
  deriving DecidableEq, Repr

structure SubscriptionConfig where
  id : SubscriptionId
  /-- The id the client chose, unique only within its connection. -/
  externalId : ℕ
  streamId : StreamId
  consumerId : ConsumerId
  /-- Subject filters; empty accepts every subject. -/
  filters : List Bytes
  deriving DecidableEq, Repr

structure StreamInfo where
  name : Bytes
  deriving DecidableEq, Repr

structure ConsumerInfo where
  streamId : StreamId
  queueId : QueueId
  maxInflight : ℕ
  paused : Bool
  ackPolicy : AckPolicy
  durable : Bool
  ackWaitMs : ℕ
  maxNack : ℕ
  filter : Bytes
  deriving DecidableEq, Repr

structure SubscriptionInfo where
  streamId : StreamId
  consumerId : ConsumerId
  externalId : ℕ
  filters : List Bytes
  deriving DecidableEq, Repr

/-- A delivery awaiting its ack. -/
structure Pending where
  seq : ℕ
  subjectHash : SubjectHash
  deliveries : ℕ
  deriving DecidableEq, Repr

/-- An active binding: one subscription on one connection, with the deliveries
it has not acked yet. -/
structure Binding where
  bindingId : BindingId
  streamId : StreamId
  consumerId : ConsumerId
  connectionId : ConnectionId
  subscriptionId : SubscriptionId
  externalSubId : ℕ
  queueId : QueueId
  maxInflight : ℕ
  paused : Bool
  fireAndForget : Bool
  pending : Map ℕ Pending

def Binding.isPending (b : Binding) (seq : ℕ) : Bool := (b.pending.lookup seq).isSome

/-! ## Commands and events -/

/-- One delivered message of a `Delivered` command. -/
structure DeliveredEntry where
  seq : ℕ
  subjectHash : SubjectHash
  deriving DecidableEq, Repr

/-- One message of an ack or nack; `subId = 0` names no subscription. -/
structure AckEntry where
  streamId : StreamId
  seq : ℕ
  subId : ℕ
  deriving DecidableEq, Repr

/-- The mutations `ArbitroEngine::execute` accepts. `PublishAccepted` and
`Tombstone` only count metrics and are left out. -/
inductive Command where
  | delivered (bindingId : BindingId) (entries : List DeliveredEntry)
  | ack (connId : ConnectionId) (consumerId : ConsumerId) (entries : List AckEntry)
  | nack (connId : ConnectionId) (consumerId : ConsumerId) (entries : List AckEntry)
  deriving DecidableEq, Repr

/-- What a mutation reports to the shard worker. -/
structure DeltaEvents where
  demandBecameAvailable : List StreamId := []
  demandBecameIdle : List StreamId := []
  bindingsRetired : List BindingId := []
  /-- `(consumer, subject hash, seq)` of every pending released by an ack, a
  nack or a retirement. -/
  subjectHashesAcked : List (ConsumerId × SubjectHash × ℕ) := []
  /-- `(consumer, queue, count)` released by retirement, one row a binding. -/
  inflightReleased : List (ConsumerId × QueueId × ℕ) := []
  consumersRemoved : List ConsumerId := []
  /-- Seqs of the pendings released by retirement. -/
  pendingSeqsReleased : List ℕ := []
  deriving DecidableEq, Repr

namespace DeltaEvents

def merge (a b : DeltaEvents) : DeltaEvents where
  demandBecameAvailable := a.demandBecameAvailable ++ b.demandBecameAvailable
  demandBecameIdle := a.demandBecameIdle ++ b.demandBecameIdle
  bindingsRetired := a.bindingsRetired ++ b.bindingsRetired
  subjectHashesAcked := a.subjectHashesAcked ++ b.subjectHashesAcked
  inflightReleased := a.inflightReleased ++ b.inflightReleased
  consumersRemoved := a.consumersRemoved ++ b.consumersRemoved
  pendingSeqsReleased := a.pendingSeqsReleased ++ b.pendingSeqsReleased

def isEmpty (d : DeltaEvents) : Bool :=
  d.demandBecameAvailable.isEmpty && d.demandBecameIdle.isEmpty && d.bindingsRetired.isEmpty &&
    d.subjectHashesAcked.isEmpty && d.inflightReleased.isEmpty && d.consumersRemoved.isEmpty &&
    d.pendingSeqsReleased.isEmpty

end DeltaEvents

end Arbitro
