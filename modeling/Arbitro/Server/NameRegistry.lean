import Arbitro.Server.Registry
import Arbitro.Server.Rules

/-!
# The name registry

`NameRegistry` maps the names of streams, consumers, queues and subscriptions to ids and
keeps what the admission rules and the handlers need of them. A vector that is indexed by an
id and grown on demand is a function from ids, with the value a reader gets where the vector
ends. The reverse map from ids to hashes and the cursors are left out.
-/

namespace Arbitro

open Function

/-- `StreamQuota`; zero is no limit. -/
structure StreamQuota where
  maxMsgs : ℕ := 0
  maxBytes : ℕ := 0
  discard : ℕ := 0
  deriving DecidableEq, Repr

/-- The id that `get_or_create_consumer` answers with when no slot is left. -/
def consumerSlotFull : ConsumerId := 2 ^ 32 - 1

def maxIdempotencyWindowMs : ℕ := 300000

structure NameRegistry where
  streams : StreamRegistry := {}
  streamsIdempotencyWindowMs : StreamId → ℕ := fun _ => 0
  streamsReplicas : StreamId → ℕ := fun _ => 1
  streamQuotas : StreamId → StreamQuota := fun _ => {}
  streamFilters : StreamId → Bytes := fun _ => []
  consumerFilters : ConsumerId → Bytes := fun _ => []
  consumersByName : Map (StreamId × Bytes) ConsumerId := ∅
  consumerQueue : Map ConsumerId QueueId := ∅
  consumerStream : ConsumerId → Option StreamId := fun _ => none
  /-- Deliver policy and start seq. -/
  consumerDeliver : Map ConsumerId (ℕ × ℕ) := ∅
  /-- Slot 0 is burned. -/
  consumerPool : IdPool := { nextSlot := 1, generations := [0], maxSlots := maxSlotCount }
  queuesByKey : Map (StreamId × Bytes) QueueId := ∅
  nextQueue : ℕ := 1
  subscriptionsByConn : Map (ConnectionId × ℕ) SubscriptionId := ∅
  nextSubscription : ℕ := 1

variable (r : NameRegistry) (id : ConsumerId) (stream : StreamId)

/-- What the registry answers to a create that the rules admit. -/
inductive StreamSlot where
  | slot (id : StreamId) (created : Bool)
  /-- `STREAM_SLOT_FULL_SENTINEL`. -/
  | full
  /-- `STREAM_COLLISION_SENTINEL`. -/
  | collision
  deriving DecidableEq, Repr

namespace NameRegistry

/-! ## Streams -/

def streamSeq (r : NameRegistry) (wire : SubjectHash) : Option StreamId := r.streams.streamSeq wire

/-- What a new stream starts with. -/
def freshStream (streams : StreamRegistry) (id : StreamId) : NameRegistry :=
  { r with
    streams := streams
    streamsIdempotencyWindowMs := update r.streamsIdempotencyWindowMs id 0
    streamsReplicas := update r.streamsReplicas id 1 }

/-- `get_or_create_stream`, as the replay of the log calls it. -/
def getOrCreateStream (r : NameRegistry) (wire : SubjectHash) : Option (StreamId × NameRegistry) :=
  match r.streams.getOrCreateStream wire with
  | none => none
  | some (id, false, _) => some (id, r)
  | some (id, true, streams) => some (id, r.freshStream streams id)

/-- The filters of all streams, but empty ones. -/
def claimed : List Bytes :=
  (r.streams.streamsByWire.values.map r.streamFilters).filter fun f => !f.isEmpty

/-- Is the hash taken by a stream of another name? -/
def collides (wire : SubjectHash) (name : Bytes) : Bool :=
  ((r.streams.streamsNameByWire.lookup wire).map (· != name)).getD false

/-- `get_or_create_stream_checked`, with the rules for streams. -/
def getOrCreateStreamChecked (r : NameRegistry) (wire : SubjectHash) (name filter : Bytes) :
    Except Violation (StreamSlot × NameRegistry) :=
  match r.streamSeq wire with
  | some id =>
    if r.collides wire name then .ok (.collision, r)
    else
      match StreamRules.onRecreate filter (r.streamFilters id) with
      | .error v => .error v
      | .ok _ => .ok (.slot id false, r)
  | none =>
    match StreamRules.onCreate filter r.claimed with
    | .error v => .error v
    | .ok _ =>
      match r.streams.getOrCreateStreamChecked wire name true with
      | none => .ok (.full, r)
      | some (id, _, streams) =>
        .ok (.slot id true,
          { r.freshStream streams id with streamFilters := update r.streamFilters id filter })

def setStreamFilter (id : StreamId) (filter : Bytes) : NameRegistry :=
  { r with streamFilters := update r.streamFilters id filter }

def setStreamIdempotency (id : StreamId) (windowMs : ℕ) : NameRegistry :=
  { r with
    streamsIdempotencyWindowMs :=
      update r.streamsIdempotencyWindowMs id (min windowMs maxIdempotencyWindowMs) }

def setStreamReplicas (id : StreamId) (replicas : ℕ) : NameRegistry :=
  { r with streamsReplicas := update r.streamsReplicas id (max replicas 1) }

def setStreamQuota (id : StreamId) (quota : StreamQuota) : NameRegistry :=
  { r with streamQuotas := update r.streamQuotas id quota }

/-- `remove_stream`: the quota stays. -/
def removeStream (r : NameRegistry) (wire : SubjectHash) : NameRegistry :=
  match r.streamSeq wire with
  | none => r
  | some id =>
    { r with
      streams := r.streams.removeStream wire
      streamsIdempotencyWindowMs := update r.streamsIdempotencyWindowMs id 0
      streamsReplicas := update r.streamsReplicas id 0
      streamFilters := update r.streamFilters id [] }

/-! ## Consumers -/

/-- `get_or_create_consumer`: the id, or the sentinel. -/
def getOrCreateConsumer (name : Bytes) : ConsumerId × NameRegistry :=
  match r.consumersByName.lookup (stream, name) with
  | some id => (id, r)
  | none =>
    match r.consumerPool.alloc with
    | none => (consumerSlotFull, r)
    | some ((id, _), pool) =>
      (id, { r with consumersByName := r.consumersByName.insert (stream, name) id, consumerPool := pool })

/-- `set_consumer_filter`. The source grows its vector up to the id: at the sentinel of a
full pool to 2³² entries, for which it may find no memory. -/
def setConsumerFilter (filter : Bytes) : NameRegistry :=
  { r with consumerFilters := update r.consumerFilters id filter }

def siblingConsumerFilters (except : ConsumerId) : List Bytes :=
  ((r.consumersByName.values.filter fun c => c != except && r.consumerStream c == some stream).map
    r.consumerFilters).filter fun f => !f.isEmpty

/-- `consumers_for_stream`: in the order of the ids. -/
def consumersForStream : List ConsumerId :=
  (List.range r.consumerPool.nextSlot).filter fun c => r.consumerStream c == some stream

/-- `remove_consumer_by_id`: the filter stays. -/
def removeConsumerById : NameRegistry :=
  match r.consumersByName.entries.find? fun e => e.2 == id with
  | none => r
  | some e =>
    { r with
      consumersByName := r.consumersByName.erase e.1
      consumerQueue := r.consumerQueue.erase id
      consumerStream := update r.consumerStream id none
      consumerDeliver := r.consumerDeliver.erase id
      consumerPool := r.consumerPool.release id }

def setConsumerQueue (queue : QueueId) : NameRegistry :=
  { r with consumerQueue := r.consumerQueue.insert id queue }

def setConsumerStream : NameRegistry :=
  { r with consumerStream := update r.consumerStream id (some stream) }

def setConsumerDeliverPolicy (policy startSeq : ℕ) : NameRegistry :=
  { r with consumerDeliver := r.consumerDeliver.insert id (policy, startSeq) }

/-! ## Queues and subscriptions -/

def getOrCreateQueue (group : Bytes) : QueueId × NameRegistry :=
  match r.queuesByKey.lookup (stream, group) with
  | some id => (id, r)
  | none =>
    (r.nextQueue, { r with nextQueue := r.nextQueue + 1, queuesByKey := r.queuesByKey.insert (stream, group) r.nextQueue })

def resolveSubscription (conn : ConnectionId) (client : ℕ) : SubscriptionId × NameRegistry :=
  match r.subscriptionsByConn.lookup (conn, client) with
  | some id => (id, r)
  | none =>
    (r.nextSubscription,
      { r with
        nextSubscription := r.nextSubscription + 1
        subscriptionsByConn := r.subscriptionsByConn.insert (conn, client) r.nextSubscription })

end NameRegistry

end Arbitro
