import Arbitro.Server.Admin

/-!
# Management commands of a cluster

A management request to a node of a cluster is proposed as a `ClusterCommand`. When the command
is committed, the node runs the handler of the request, and the state machine of every node
applies the command to registry and engines, with code of its own.

A text is its UTF-8 bytes; `String::from_utf8_lossy` is a parameter. The tail of the journal that
a node observes is part of the step. The limits of a stream that only the shard gets, and the
fields of a command that nothing reads, are left out.
-/

namespace Arbitro

variable (wireHash32 : WireHash) (b : AdminBroker) (fromUtf8Lossy : Bytes → Bytes) (r : NameRegistry)

/-- `ClusterCommand::CreateConsumer`. -/
structure CreateConsumerCmd where
  /-- What the decimal text of the stream's hash parses to. -/
  streamName : Option SubjectHash
  name : Bytes
  group : Bytes
  filter : Bytes
  maxInflight : ℕ
  ackPolicy : ℕ
  deliverPolicy : ℕ
  deliverMode : ℕ
  ackWaitMs : ℕ
  startSeq : ℕ
  deriving DecidableEq, Repr

/-- The command as the request that it stands for: it has no place for subject limits and
`max_nack`. -/
def CreateConsumerCmd.request (cmd : CreateConsumerCmd) (wire : SubjectHash) : CreateConsumerReq where
  streamId := wire
  name := cmd.name
  group := cmd.group
  subject := cmd.filter
  maxInflight := cmd.maxInflight
  ackPolicy := cmd.ackPolicy
  deliverPolicy := cmd.deliverPolicy
  deliverMode := cmd.deliverMode
  ackWaitMs := cmd.ackWaitMs
  startSeq := cmd.startSeq
  subjectLimits := []
  maxNack := none

inductive ClusterCommand where
  | createStream (body : CreateStreamReq)
  | deleteStream (name : Bytes)
  | createConsumer (body : CreateConsumerCmd)
  | deleteConsumer (streamName name : Bytes)
  deriving DecidableEq, Repr

namespace NameRegistry

/-- `get_or_create_stream_named`: no rule is asked, and no filter is kept. -/
def getOrCreateStreamNamed (wire : SubjectHash) (name : Bytes) : StreamSlot × NameRegistry :=
  match r.streamSeq wire with
  | some id => if r.collides wire name then (.collision, r) else (.slot id false, r)
  | none =>
    match r.streams.getOrCreateStreamChecked wire name true with
    | none => (.full, r)
    | some (id, _, streams) => (.slot id true, r.freshStream streams id)

/-- `stream_wire`: the hash 0 stands for none. -/
def streamWire (id : StreamId) : Option SubjectHash :=
  ((r.streams.streamsByWire.entries.find? fun e => e.2 == id).map Sigma.fst).filter (· != 0)

def streamName (id : StreamId) : Option Bytes :=
  (r.streamWire id).bind r.streams.streamsNameByWire.lookup

def consumerName (id : ConsumerId) : Option Bytes :=
  (r.consumersByName.entries.find? fun e => e.2 == id).map fun e => e.1.2

end NameRegistry

/-! ## Proposing -/

/-- `String::from_utf8`: the lossy conversion changes every text that is not UTF-8. -/
def fromUtf8 (text : Bytes) : Option Bytes :=
  if fromUtf8Lossy text = text then some text else none

def CreateConsumerReq.command (req : CreateConsumerReq) : CreateConsumerCmd where
  streamName := some req.streamId
  name := fromUtf8Lossy req.name
  group := fromUtf8Lossy req.group
  filter := fromUtf8Lossy req.subject
  maxInflight := req.maxInflight
  ackPolicy := req.ackPolicy
  deliverPolicy := req.deliverPolicy
  deliverMode := req.deliverMode
  ackWaitMs := req.ackWaitMs
  startSeq := req.startSeq

/-- The command that a node proposes for a request: the first halves of `v2_create_stream_raft`,
`v2_delete_stream_raft`, `v2_create_consumer_raft` and `v2_delete_consumer_raft`. Without one the
request is answered on the spot. A `Subscribe` is not replicated. -/
def NameRegistry.propose (names : NameRegistry) : AdminRequest → Option ClusterCommand
  | .createStream req quota =>
    if !quota then none
    else some (.createStream { req with name := fromUtf8Lossy req.name, filter := fromUtf8Lossy req.filter })
  | .deleteStream _ name => some (.deleteStream (fromUtf8Lossy name))
  | .createConsumer req _ _ => if req.group.isEmpty then none else some (.createConsumer (req.command fromUtf8Lossy))
  | .deleteConsumer _ id =>
    let streamName := (((names.consumerStream id).bind names.streamName).bind (fromUtf8 fromUtf8Lossy)).getD []
    let name := ((names.consumerName id).bind (fromUtf8 fromUtf8Lossy)).getD []
    if streamName.isEmpty || name.isEmpty then none else some (.deleteConsumer streamName name)
  | .subscribe _ _ => none

/-! ## Applying -/

namespace AdminBroker

def doCreateStream (body : CreateStreamReq) : AdminBroker :=
  match b.names.getOrCreateStreamNamed (wireHash32 body.name) body.name with
  | (.full, _) => b
  | (.collision, _) => b
  | (.slot id _, names) =>
    match (b.engines (b.shardFor id)).createStream ⟨id, body.name⟩ with
    | (_, .error _) => { b with names := names }
    | (engine, .ok _) =>
      { b.setEngine (b.shardFor id) engine with names := names.setStreamIdempotency id body.idempotencyWindowMs }

def doDeleteStream (name : Bytes) : AdminBroker :=
  match b.names.streamSeq (wireHash32 name) with
  | none => b
  | some id =>
    { b.setEngine (b.shardFor id) ((b.engines (b.shardFor id)).deleteStream id).1 with
      names := ((b.names.consumersForStream id).foldl NameRegistry.removeConsumerById b.names).removeStream
        (wireHash32 name) }

/-- `do_create_consumer`, with the tail of the node's own journal. The filter goes to the engine
as it is, and no rule is asked. -/
def doCreateConsumer (cmd : CreateConsumerCmd) (journalTail : ℕ) : AdminBroker :=
  match cmd.streamName with
  | none => b
  | some wire =>
    match b.names.streamSeq wire with
    | none => b
    | some stream =>
      if cmd.group.isEmpty then b
      else
        let (c, names) := b.names.getOrCreateConsumer stream cmd.name
        if c = consumerSlotFull then { b with names := names }
        else
          let req := cmd.request wire
          let (queue, names) := req.queue names stream
          match (b.engines (b.shardFor stream)).createConsumer
              (req.config c queue stream req.effectiveMaxInflight 0 cmd.filter) with
          | (_, .error _) => { b with names := names }
          | (engine, .ok new) =>
            { b.setEngine (b.shardFor stream) engine with
              names := ((names.setConsumerQueue c queue).setConsumerStream c stream).setConsumerDeliverPolicy c
                cmd.deliverPolicy (effectiveStartSeq names req c new journalTail) }

/-- `do_delete_consumer`: the names are those of the node that proposed. -/
def doDeleteConsumer (streamName name : Bytes) : AdminBroker :=
  if streamName.isEmpty || name.isEmpty then b
  else
    match b.names.streamSeq (wireHash32 streamName) with
    | none => b
    | some stream =>
      match b.names.consumersByName.lookup (stream, name) with
      | none => b
      | some id =>
        { b.setEngine (b.shardFor stream) ((b.engines (b.shardFor stream)).deleteConsumer id).1 with
          names := b.names.removeConsumerById id }

/-- `apply_worker`, one command. -/
def applyCommand (journalTail : ℕ) : ClusterCommand → AdminBroker
  | .createStream body => b.doCreateStream wireHash32 body
  | .deleteStream name => b.doDeleteStream wireHash32 name
  | .createConsumer body => b.doCreateConsumer body journalTail
  | .deleteConsumer streamName name => b.doDeleteConsumer wireHash32 streamName name

end AdminBroker

/-! ## Two nodes -/

/-- A broker that handles the requests, and one that only applies the commands. -/
structure Replicas where
  node : AdminBroker
  follower : AdminBroker

/-- A request, with the tail of the follower's journal when it applies the command. -/
def Replicas.step (fromUtf8Lossy : Bytes → Bytes) (r : Replicas) (a : AdminRequest × ℕ) : Replicas :=
  match r.node.names.propose fromUtf8Lossy a.1 with
  | none => r
  | some cmd => ⟨(r.node.handle wireHash32 a.1).1, r.follower.applyCommand wireHash32 a.2 cmd⟩

end Arbitro
