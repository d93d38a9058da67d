import Arbitro.Client.Session
import Arbitro.Shard.Task

/-!
# A client and the broker

One client, one shard of the broker and the connection that carries entries and replies to
the client, in order. What the client sends to the broker may be lost, batched or delayed, so
the broker's commands come from outside. `send` is the drain's: it puts an entry on the
connection; the notification that tells the command task of it is one of the broker's own
actions. `sent` and `settled` are the books that properties of a run speak of: what went to
each consumer, and what an ack of a consumer removed from the pendings.
-/

namespace Arbitro

namespace Client

/-- What the connection carries to the client. -/
inductive Down where
  | entry (e : Entry)
  | ackStateRep (rep : Session.AckStateRep)
  | ackBatchResp (c : ConsumerId) (newCursor : ℕ)

/-- The client's action on a message of the broker. -/
def Down.action (room : Bool) : Down → Action
  | .entry e => .deliver e room
  | .ackStateRep rep => .ackStateRep rep
  | .ackBatchResp c newCursor => .ackBatchResp c newCursor

structure Link where
  task : CommandTask := {}
  down : List Down := []
  ledger : Ledger
  sent : List (ConsumerId × ℕ) := []
  settled : List (ConsumerId × ℕ) := []

inductive LinkAction where
  /-- A step of the command task. -/
  | broker (a : CommandAction)
  | send (e : Entry)
  /-- The reply of `v2_ack_state`; `known` is whether the registry has the consumer. -/
  | ackStateRep (c : ConsumerId) (known : Bool) (generation lowSeq : ℕ)
  /-- The reply of `v2_ack_batch`, once the shard took the acks. -/
  | ackBatchResp (c : ConsumerId) (known : Bool)
  /-- The client takes the next message of the connection. -/
  | receive (room : Bool)
  /-- Something else happens on the client. -/
  | own (a : Action)
  /-- The connection is lost, with what it carried. -/
  | reconnect

/-- Actions that no message of the broker causes. -/
def Action.isLocal : Action → Bool
  | .deliver _ _ => false
  | .ackStateRep _ => false
  | .ackBatchResp _ _ => false
  | _ => true

namespace Link

/-- What the next step of the command task acks: the entries of the batch that match a
pending. -/
def acks (t : CommandTask) : CommandAction → List (ConsumerId × ℕ)
  | .work _ _ =>
    match t.todo with
    | .job (.ack cmd) :: _ =>
      (cmd.entries.filter (t.worker.prescan cmd.connId cmd.consumerId)).map fun a => (cmd.consumerId, a.seq)
    | _ => []
  | _ => []

/-- `consumer_cursor`. -/
def cursor (l : Link) (c : ConsumerId) : ℕ := (l.task.worker.consumerCursor.lookup c).getD 0

def step (wireHash32 : WireHash) (l : Link) : LinkAction → Link
  | .broker a => { l with task := l.task.next wireHash32 a, settled := l.settled ++ acks l.task a }
  | .send e => { l with down := l.down ++ [.entry e], sent := l.sent ++ [(e.consumerId, e.seq)] }
  | .ackStateRep c known generation lowSeq =>
    let rep : Session.AckStateRep := if known then ⟨c, generation, l.cursor c, lowSeq, true⟩ else ⟨c, 0, 0, 0, false⟩
    { l with down := l.down ++ [.ackStateRep rep] }
  | .ackBatchResp c known => { l with down := l.down ++ [.ackBatchResp c (if known then l.cursor c else 0)] }
  | .receive room =>
    match l.down with
    | [] => l
    | d :: ds => { l with down := ds, ledger := l.ledger.step (d.action room) }
  | .own a => if a.isLocal then { l with ledger := l.ledger.step a } else l
  | .reconnect => { l with down := [] }

end Link

end Client

end Arbitro
