import Arbitro.Shard.Counters
import Arbitro.Shard.Snapshot
import Arbitro.Shard.Subjects

/-!
# Messages and effects

What the drain reports to the command task, the timers the command task arms,
and the effects a handler has outside the command task's own state, in the order
it performs them. `Outbox` are the two retry queues for events that found the
drain-event ring full.
-/

namespace Arbitro

/-- `DrainNotification`: drain → command. -/
inductive DrainNotification where
  | delivered (bindingId : BindingId) (consumerId : ConsumerId) (queueId : QueueId)
      (entries : List DeliveredEntry)
  | connectionDead (connId : ConnectionId)
  deriving DecidableEq, Repr

inductive WheelEntryKind where
  | ackTimeout
  | nackDelay
  deriving DecidableEq, Repr

/-- `WheelEntry`: the payload of an armed timer. -/
structure WheelEntry where
  seq : ℕ
  consumerId : ConsumerId
  subjectHash : SubjectHash
  kind : WheelEntryKind
  deriving DecidableEq, Repr

/-- One action of a handler on what it shares with the drain. -/
inductive Effect where
  /-- `try_send` of an `Ack` event; on a full ring it goes to `pending_drain_acks`. -/
  | ackEvent (e : AckEvent)
  /-- `try_send` of a counter correction; on a full ring it is dropped. -/
  | reconcile (e : AckEvent)
  /-- `try_send` of `ConsumerRemoved`; on a full ring it goes to
  `pending_consumer_remove`. -/
  | consumerRemoved (c : ConsumerId)
  /-- The same, after dropping the queued `Ack` events of the consumer. -/
  | removeConsumer (c : ConsumerId)
  | decInflight (c : ConsumerId) (q : QueueId) (n : ℕ)
  | incDemand (id : StreamId)
  | decDemand (id : StreamId)
  | setPaused (c : ConsumerId) (val : Bool)
  | rewindReleased (minSeq : ℕ)
  /-- `set_cursor(0)` and `signal_rewind(1)`, as `handle_bind` does. -/
  | rewindAll
  | publish (snap : DrainSnapshot)
  | releaseGate

/-- The events the command task still owes the ring. -/
structure Outbox where
  pendingDrainAcks : List AckEvent := []
  pendingConsumerRemove : List ConsumerId := []
  deriving DecidableEq, Repr

namespace Outbox

/-- `try_send` of `ConsumerRemoved`. -/
def announce (ob : Outbox) (room : Bool) (c : ConsumerId) : Outbox × Option DrainEvent :=
  if room then (ob, some (.consumerRemoved c))
  else ({ ob with pendingConsumerRemove := ob.pendingConsumerRemove ++ [c] }, none)

/-- What one effect does to the retry queues when `try_send` succeeds (`room`) or
not, and the event that enters the ring. -/
def emit (ob : Outbox) (room : Bool) : Effect → Outbox × Option DrainEvent
  | .ackEvent e =>
    if room then (ob, some (.ack e))
    else ({ ob with pendingDrainAcks := ob.pendingDrainAcks ++ [e] }, none)
  | .reconcile e => (ob, if room then some (.ack e) else none)
  | .consumerRemoved c => ob.announce room c
  | .removeConsumer c =>
    { ob with pendingDrainAcks := ob.pendingDrainAcks.filter (·.consumerId != c) }.announce room c
  | _ => (ob, none)

end Outbox

/-- `Vec::swap_remove`: the last element takes the place of the removed one. -/
def swapRemove {α : Type} (l : List α) (i : ℕ) : List α :=
  match l.getLast? with
  | none => []
  | some x => if i + 1 = l.length then l.dropLast else (l.set i x).dropLast

namespace SharedCounters

/-- What an effect does to the counters. -/
def applyEffect (c : SharedCounters) : Effect → SharedCounters
  | .decInflight consumerId queueId n => c.decInflightBulk consumerId queueId n
  | .incDemand id => c.incDemand id
  | .decDemand id => c.decDemand id
  | .setPaused consumerId val => c.setPaused consumerId val
  | .rewindReleased minSeq => c.rewindReleased minSeq
  | .rewindAll => (c.setCursor 0).signalRewind 1
  | _ => c

end SharedCounters

end Arbitro
