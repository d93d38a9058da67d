import Mathlib.Data.Finset.Sort
import Arbitro.Client.Routing
import Arbitro.Client.Slot

/-!
# Deliveries and acks on the client

What the client does with a delivered entry, with a handler's ack or nack, and with the
cursors that the broker reports. An action of the client is one of these; where a channel may
be full, whether it has room is part of the action. Metrics and the connection itself are
left out.
-/

namespace Arbitro

namespace Client

/-- One entry of a delivery frame. -/
structure Entry where
  consumerId : ConsumerId
  seq : ℕ
  subId : ℕ
  subject : Bytes
  replyTo : Bytes
  payload : Bytes
  deriving DecidableEq, Repr

/-- `Message`: what a handler receives. -/
structure Message where
  seq : ℕ
  consumerId : ConsumerId
  streamId : StreamId
  subId : ℕ
  subject : Bytes
  replyTo : Bytes
  payload : Bytes
  slot : Option SlotId
  deriving DecidableEq, Repr

structure AckCmd where
  seq : ℕ
  consumerId : ConsumerId
  subId : ℕ
  deriving DecidableEq, Repr

structure NackCmd where
  seq : ℕ
  consumerId : ConsumerId
  subId : ℕ
  delayMs : ℕ
  deriving DecidableEq, Repr

/-! ## Deferred acks -/

/-- `ConsumerPending`: acks that found the channel full. -/
structure ConsumerPending where
  generation : ℕ
  pending : Finset ℕ := ∅
  oldestTs : ℕ := 0
  deriving DecidableEq

namespace ConsumerPending

variable (p : ConsumerPending)

def record (seq now : ℕ) : ConsumerPending :=
  if seq ∈ p.pending then p
  else { p with pending := insert seq p.pending, oldestTs := if p.oldestTs = 0 then now else p.oldestTs }

def purgeUpTo (cursor : ℕ) : ConsumerPending :=
  let kept := p.pending.filter (cursor < ·)
  { p with pending := kept, oldestTs := if kept = ∅ then 0 else p.oldestTs }

/-- `expire_older_than`: one time stands for the whole set. -/
def expireOlderThan (cutoff : ℕ) : ConsumerPending :=
  if p.oldestTs = 0 ∨ cutoff < p.oldestTs then p else { p with pending := ∅, oldestTs := 0 }

end ConsumerPending

abbrev AckRelay := Map ConsumerId ConsumerPending

namespace AckRelay

variable (r : AckRelay) (c : ConsumerId)

def generationOf : ℕ := ((r.lookup c).map (·.generation)).getD 0

/-- `ensure`: another generation replaces the slot. -/
def ensure (generation : ℕ) : AckRelay :=
  match r.lookup c with
  | some p => if p.generation = generation then r else r.insert c ({ generation } : ConsumerPending)
  | none => r.insert c ({ generation } : ConsumerPending)

def modify (f : ConsumerPending → ConsumerPending) : AckRelay :=
  match r.lookup c with
  | some p => r.insert c (f p)
  | none => r

def recordDeferred (generation seq now : ℕ) : AckRelay :=
  (r.ensure c generation).modify c (·.record seq now)

def purgeUpTo (r : AckRelay) (c : ConsumerId) (cursor : ℕ) : AckRelay := r.modify c (·.purgeUpTo cursor)

/-- `drain_ascending` without a limit. -/
def drainAscending : List ℕ :=
  ((r.lookup c).map fun p => p.pending.sort (· ≤ ·)).getD []

end AckRelay

/-! ## The session -/

/-- The part of `Inner` that deliveries and acks touch. -/
structure Session where
  subscriptions : Subscriptions := {}
  slots : SlotId → Slot
  ackrel : AckRelay := (∅ : Map ConsumerId ConsumerPending)
  ackTx : List AckCmd := []
  nackTx : List NackCmd := []

variable (s : Session)

/-- What becomes of a delivered entry. -/
inductive Outcome where
  /-- No such subscription. -/
  | unrouted
  /-- Discarded, with an ack in the handler's place. -/
  | duplicate (reack : AckCmd)
  | handed (messages : List Message)
  deriving DecidableEq, Repr

def Outcome.messages : Outcome → List Message
  | .handed ms => ms
  | _ => []

namespace Session

def updateSlot (i : SlotId) (f : Slot → Slot) : Session :=
  { s with slots := Function.update s.slots i (f (s.slots i)) }

/-- The dedup probe of `deliver`. -/
def probe (dedup : Option SlotId) (seq : ℕ) : Bool :=
  match dedup with
  | some i => (s.slots i).seen seq
  | none => false

def deliver (e : Entry) : Outcome :=
  match s.subscriptions.bySub.lookup e.subId with
  | none => .unrouted
  | some r =>
    if s.probe r.dedup e.seq then .duplicate ⟨e.seq, e.consumerId, e.subId⟩
    else .handed ((Subscriptions.targets r e.subject).map fun sub =>
      ⟨e.seq, e.consumerId, r.streamId, sub, e.subject, e.replyTo, e.payload, r.dedup⟩)

/-- `try_send` on the ack channel. -/
def sendAck (room : Bool) (cmd : AckCmd) : Session :=
  if room then { s with ackTx := s.ackTx ++ [cmd] } else s

/-- The whole of `deliver`: a duplicate is acked if the channel has room. -/
def afterDeliver (e : Entry) (room : Bool) : Session :=
  match s.deliver e with
  | .duplicate cmd => s.sendAck room cmd
  | _ => s

/-- The recording half of `Message::ack`. -/
def recordAck (m : Message) (now : ℕ) : Session :=
  match m.slot with
  | some i => s.updateSlot i (·.record now m.seq)
  | none => s

def ack (m : Message) (now : ℕ) (room : Bool) : Session :=
  let s := s.recordAck m now
  if room then s.sendAck room ⟨m.seq, m.consumerId, m.subId⟩
  else
    { s with ackrel := s.ackrel.recordDeferred m.consumerId (s.ackrel.generationOf m.consumerId) m.seq now }

/-- `Message::nack` and `nack_delay`. -/
def nack (m : Message) (delayMs : ℕ) (room : Bool) : Session :=
  if room then { s with nackTx := s.nackTx ++ [⟨m.seq, m.consumerId, m.subId, delayMs⟩] } else s

/-- `confirm_up_to` on the dedup slot of a consumer. -/
def confirm (c : ConsumerId) (cursor : ℕ) : Session :=
  match s.subscriptions.dedupOf c with
  | some i => s.updateSlot i (·.confirmUpTo cursor)
  | none => s

/-- `AckStateRep`; `ok` is `status == ACK_STATUS_OK`. -/
structure AckStateRep where
  consumerId : ConsumerId
  generation : ℕ
  cursor : ℕ
  lowSeq : ℕ
  ok : Bool
  deriving DecidableEq, Repr

/-- `dispatch_ack_state_rep`: the next session, and the `AckBatch` frames it sends. -/
def ackStateRep (rep : AckStateRep) : Session × List (List ℕ) :=
  let s := if rep.ok then s.confirm rep.consumerId rep.cursor else s
  if rep.generation ≠ s.ackrel.generationOf rep.consumerId then
    ({ s with ackrel := s.ackrel.ensure rep.consumerId rep.generation }, [])
  else
    let ackrel := (s.ackrel.purgeUpTo rep.consumerId rep.cursor).purgeUpTo rep.consumerId (rep.lowSeq - 1)
    ({ s with ackrel }, (ackrel.drainAscending rep.consumerId).toChunks 1000)

/-- `dispatch_ack_batch_resp`. -/
def ackBatchResp (c : ConsumerId) (newCursor : ℕ) : Session :=
  { s with ackrel := s.ackrel.purgeUpTo c newCursor }.confirm c newCursor

end Session

/-- What can happen on a client. -/
inductive Action where
  | register (reg : Registration)
  | setFanout (c : ConsumerId) (fanout : Bool)
  | remove (sub : ℕ)
  | removeConsumer (c : ConsumerId)
  | deliver (e : Entry) (room : Bool)
  | ack (m : Message) (now : ℕ) (room : Bool)
  | nack (m : Message) (delayMs : ℕ) (room : Bool)
  | ackStateRep (rep : Session.AckStateRep)
  | ackBatchResp (c : ConsumerId) (newCursor : ℕ)
  /-- The TTL sweep of the store, at one slot. -/
  | sweep (i : SlotId) (cutoff : ℕ)
  | deleteSlot (i : SlotId)
  /-- The TTL sweep of the deferred acks. -/
  | expireDeferred (cutoff : ℕ)

/-- One action. -/
def Session.step : Action → Session
  | .register reg => { s with subscriptions := s.subscriptions.register reg }
  | .setFanout c fanout => { s with subscriptions := s.subscriptions.setFanout c fanout }
  | .remove sub => { s with subscriptions := s.subscriptions.remove sub }
  | .removeConsumer c => { s with subscriptions := s.subscriptions.dropConsumer c }
  | .deliver e room => s.afterDeliver e room
  | .ack m now room => s.ack m now room
  | .nack m delayMs room => s.nack m delayMs room
  | .ackStateRep rep => (s.ackStateRep rep).1
  | .ackBatchResp c newCursor => s.ackBatchResp c newCursor
  | .sweep i cutoff => s.updateSlot i (·.sweep cutoff)
  | .deleteSlot i => s.updateSlot i Slot.delete
  | .expireDeferred cutoff =>
    { s with ackrel := s.ackrel.keys.foldl (fun r c => r.modify c (·.expireOlderThan cutoff)) s.ackrel }

/-- The messages an action hands to handlers. -/
def Session.handed : Action → List Message
  | .deliver e _ => (s.deliver e).messages
  | _ => []

/-- A session with every message that was handed to a handler and every message that a
handler acked. -/
structure Ledger where
  session : Session
  handed : List Message := []
  acked : List Message := []

def Ledger.step (l : Ledger) (a : Action) : Ledger where
  session := l.session.step a
  handed := l.handed ++ l.session.handed a
  acked := match a with
    | .ack m _ _ => l.acked ++ [m]
    | _ => l.acked

end Client

end Arbitro
