import Arbitro.Shard.Store
import Arbitro.Shard.Task

/-!
# Ack and nack requests

The six frames a connection settles deliveries with. The dispatcher looks up the stream of
the consumer the frame names and hands the shard of that stream a command; frames for an
unknown consumer are dropped. Replies are left out.
-/

namespace Arbitro

variable (wireHash32 : WireHash)

/-- `Ack`, `BatchAck`, `AckBatch`, `Nack`, `BatchNack` and `AckTerm`. An entry of a batch ack
is a seq and a subscription id, one of a batch nack a seq and a delay. -/
inductive AckRequest where
  | ack (consumerId : ConsumerId) (seq subId : ℕ)
  | batchAck (consumerId : ConsumerId) (entries : List (ℕ × ℕ))
  | ackBatch (consumerId : ConsumerId) (seqs : List ℕ)
  | nack (consumerId : ConsumerId) (seq : ℕ)
  | batchNack (consumerId : ConsumerId) (entries : List (ℕ × ℕ))
  | ackTerm (consumerId : ConsumerId) (seq subId : ℕ)

def AckRequest.consumerId : AckRequest → ConsumerId
  | .ack c _ _ => c
  | .batchAck c _ => c
  | .ackBatch c _ => c
  | .nack c _ => c
  | .batchNack c _ => c
  | .ackTerm c _ _ => c

def ackBatchMaxSeqs : ℕ := 1000

/-- A shard, as far as settling goes: its command task and its journal. -/
structure AckShard where
  task : CommandTask := {}
  store : Journal := {}

variable (s : AckShard)

namespace AckShard

/-- Hand a command to the command task. -/
def take (j : Job) : AckShard :=
  { s with task := s.task.next wireHash32 (.start j) }

/-- `handle_ack_term`: the entries are tombstoned, then acked. -/
def takeAckTerm (cmd : AckCmd) : AckShard :=
  { s with store := s.store.tombstoneAll (cmd.entries.map AckEntry.seq) }.take wireHash32 (.ack cmd)

/-- The entries `v2_ack_batch` passes on: seqs above the consumer's cursor and not below
what the store retains. They name no subscription. -/
def ackBatchEntries (stream : StreamId) (c : ConsumerId) (seqs : List ℕ) : List AckEntry :=
  let cursor := (s.task.worker.consumerCursor.lookup c).getD 0
  (seqs.filter fun seq => cursor < seq && s.store.firstSeq ≤ seq).map (⟨stream, ·, 0⟩)

/-- `v2_ack`, `v2_batch_ack`, `v2_ack_batch`, `v2_nack`, `v2_batch_nack` and `v2_ack_term` at
the shard of the consumer's stream. -/
def settle (conn : ConnectionId) (stream : StreamId) : AckRequest → AckShard
  | .ack c seq subId => s.take wireHash32 (.ack ⟨c, conn, [⟨stream, seq, subId⟩]⟩)
  | .batchAck c entries => s.take wireHash32 (.ack ⟨c, conn, entries.map fun e => ⟨stream, e.1, e.2⟩⟩)
  | .ackBatch c seqs =>
    if ackBatchMaxSeqs < seqs.length then s
    else s.take wireHash32 (.ack ⟨c, conn, s.ackBatchEntries stream c seqs⟩)
  | .nack c seq => s.take wireHash32 (.nack ⟨c, conn, [⟨stream, seq, 0⟩], 0⟩)
  | .batchNack c entries =>
    s.take wireHash32 (.nack ⟨c, conn, entries.map fun e => ⟨stream, e.1, 0⟩, ((entries.map Prod.snd).max?).getD 0⟩)
  | .ackTerm c seq subId => s.takeAckTerm wireHash32 ⟨c, conn, [⟨stream, seq, subId⟩]⟩

/-- A request of a connection; `consumerStream` is the registry's. -/
def request (consumerStream : Map ConsumerId StreamId) (s : AckShard) (conn : ConnectionId)
    (req : AckRequest) : AckShard :=
  match consumerStream.lookup req.consumerId with
  | none => s
  | some stream => s.settle wireHash32 conn stream req

end AckShard

end Arbitro
