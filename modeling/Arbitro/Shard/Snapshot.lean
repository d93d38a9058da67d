import Arbitro.Engine.Runtime

/-!
# The drain snapshot

What the command task publishes for the drain: its active bindings, the match
tables of the catalog with every entry stamped with the index of its binding,
and the retention settings of the streams.

A binding's `write_tx` and `write_failed` belong to its connection: the drain
model asks the environment about a connection instead.
-/

namespace Arbitro

structure StreamRetention where
  maxAgeMs : ℕ
  /-- Entries below it belong to an earlier holder of the stream id; 0 filters
  nothing. -/
  createdAtSeq : ℕ
  deriving DecidableEq, Repr

/-- `ActiveBinding`: a bound consumer on a connection. -/
structure ActiveBinding where
  bindingId : BindingId
  connectionId : ConnectionId
  consumerId : ConsumerId
  subscriptionId : SubscriptionId
  /-- Dense index of the `(connection, consumer)` pair, assigned by `rebuild`. -/
  groupIdx : ℕ
  externalSubId : ℕ
  streamId : StreamId
  queueId : QueueId
  maxInflight : ℕ
  fireAndForget : Bool
  ackWaitMs : ℕ
  /-- Entries at or below it are never delivered on this binding. -/
  deliverFloor : ℕ
  deriving DecidableEq, Repr

/-- The pair whose bindings share one wire copy of a message. -/
def ActiveBinding.group (b : ActiveBinding) : ConnectionId × ConsumerId := (b.connectionId, b.consumerId)

structure DrainSnapshot where
  bindings : List ActiveBinding
  matchTables : List (Option MatchTable)
  streamMaxAgeMs : StreamId → ℕ
  streamCreatedAtSeq : StreamId → ℕ

namespace DrainSnapshot

def empty : DrainSnapshot := ⟨[], [], fun _ => 0, fun _ => 0⟩

/-- The match table of a stream. -/
def matchTable (snap : DrainSnapshot) (id : StreamId) : Option MatchTable :=
  Dense.get none snap.matchTables id

/-- `find_writer` on the index built from the bindings. -/
def hasWriter (snap : DrainSnapshot) (conn : ConnectionId) : Bool :=
  snap.bindings.any (·.connectionId == conn)

/-- One dense index per distinct pair, in the order they are first seen. -/
def assignGroups : List (ConnectionId × ConsumerId) → List ActiveBinding → List ActiveBinding
  | _, [] => []
  | seen, b :: bs =>
    if b.group ∈ seen then { b with groupIdx := seen.idxOf b.group } :: assignGroups seen bs
    else { b with groupIdx := seen.length } :: assignGroups (seen ++ [b.group]) bs

/-- Stamp the entries of binding `i` in the table of its stream. -/
def stampBinding (tables : List (Option MatchTable)) (bi : ActiveBinding × ℕ) : List (Option MatchTable) :=
  tables.modify bi.1.streamId
    (Option.map (·.setBindingIdxFor bi.1.consumerId bi.1.connectionId bi.1.subscriptionId bi.2))

/-- `rebuild_and_swap_snapshot`: the snapshot of a list of bindings. -/
def rebuild (bindings : List ActiveBinding) (tables : List (Option MatchTable))
    (retention : Map StreamId StreamRetention) : DrainSnapshot where
  bindings := assignGroups [] bindings
  matchTables := bindings.zipIdx.foldl stampBinding tables
  streamMaxAgeMs id := ((retention.lookup id).map (·.maxAgeMs)).getD 0
  streamCreatedAtSeq id := ((retention.lookup id).map (·.createdAtSeq)).getD 0

end DrainSnapshot

end Arbitro
