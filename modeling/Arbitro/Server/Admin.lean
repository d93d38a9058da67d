import Arbitro.Engine.Runtime
import Arbitro.Server.NameRegistry

/-!
# Management requests and their recovery

`CreateStream`, `DeleteStream`, `CreateConsumer`, `DeleteConsumer` and `Subscribe` on the
registry, the engines of the shards and the command log; and what the replay of the log makes
of a new broker. `SubscribeBatch` runs the handler of `Subscribe` for each of its entries.

A request is one action. Whether the connection may create another stream or consumer
(`check_and_incr_quota`), and the tail of the journal that `handle_create_consumer` reads, are
part of the request. Of the log the records are modelled, not their bytes; cursor updates,
retention by age and the options that recovery reads no more are left out.
-/

namespace Arbitro

variable (wireHash32 : WireHash)

/-! ## Requests -/

/-- The body of a `CreateStream`. -/
structure CreateStreamReq where
  name : Bytes
  filter : Bytes
  maxMsgs : ℕ := 0
  maxBytes : ℕ := 0
  replicas : ℕ := 1
  discard : ℕ := 0
  idempotencyWindowMs : ℕ := 0
  deriving DecidableEq, Repr

def CreateStreamReq.quota (req : CreateStreamReq) : StreamQuota := ⟨req.maxMsgs, req.maxBytes, req.discard⟩

/-- What a `CreateConsumer` and its record in the log both say. -/
structure ConsumerRecord where
  /-- The hash of the stream's name. -/
  streamId : SubjectHash
  name : Bytes
  group : Bytes
  subject : Bytes
  maxInflight : ℕ
  ackPolicy : ℕ
  deliverPolicy : ℕ
  deliverMode : ℕ
  ackWaitMs : ℕ
  startSeq : ℕ
  subjectLimits : List (Bytes × ℕ)
  deriving DecidableEq, Repr

/-- The body of a `CreateConsumer`: the record has no place for `max_nack`. -/
structure CreateConsumerReq extends ConsumerRecord where
  maxNack : Option ℕ
  deriving DecidableEq, Repr

/-- The body of a `Subscribe`. -/
structure SubscribeReq where
  consumerId : ConsumerId
  /-- The id the client chose. -/
  subscriptionId : ℕ
  filters : List Bytes
  deriving DecidableEq, Repr

inductive AdminRequest where
  | createStream (req : CreateStreamReq) (quota : Bool)
  | deleteStream (reqSeq : ℕ) (name : Bytes)
  | createConsumer (req : CreateConsumerReq) (quota : Bool) (journalTail : ℕ)
  | deleteConsumer (reqSeq : ℕ) (id : ConsumerId)
  | subscribe (conn : ConnectionId) (req : SubscribeReq)
  deriving DecidableEq, Repr

/-- A `RepOk` with its `ref_seq`, or a `RepError`. -/
inductive AdminReply where
  | repOk (refSeq : ℕ)
  | repError (code : ErrorCode)
  deriving DecidableEq, Repr

/-! ## The configuration of a consumer -/

namespace ConsumerRecord

variable (req : ConsumerRecord)

/-- The wire's ack policy. -/
def policy : AckPolicy := if req.ackPolicy = 0 then .none else .explicit

/-- Without acks no limit on the messages in flight is kept. -/
def effectiveMaxInflight : ℕ := if req.policy = .none then 0 else req.maxInflight

/-- The configuration the engine gets; zero in flight stands for no limit. -/
def config (id : ConsumerId) (queue : QueueId) (stream : StreamId) (maxInflight maxNack : ℕ)
    (filter : Bytes) : ConsumerConfig where
  id := id
  queueId := queue
  streamId := stream
  durable := true
  ackPolicy := req.policy
  maxInflight := if maxInflight = 0 then 2 ^ 32 - 1 else maxInflight
  ackWaitMs := req.ackWaitMs
  maxNack := maxNack
  filter := filter

/-- The queue of a consumer: a fan-out consumer has none. -/
def queue (names : NameRegistry) (stream : StreamId) : QueueId × NameRegistry :=
  if req.deliverMode = 0 then (0, names) else names.getOrCreateQueue stream req.group

end ConsumerRecord

/-- The limits `v2_create_consumer` passes on: none without acks. -/
def CreateConsumerReq.limits (req : CreateConsumerReq) : List (Bytes × ℕ) :=
  if req.policy = .explicit then req.subjectLimits else []

/-! ## The broker -/

/-- A record of the command log. -/
inductive AdminRecord where
  | createStream (req : CreateStreamReq)
  | deleteStream (name : Bytes)
  | createConsumer (req : ConsumerRecord)
  | deleteConsumer (id : ConsumerId)
  deriving DecidableEq, Repr

structure AdminBroker where
  names : NameRegistry := {}
  shardCount : ℕ
  engines : ℕ → Engine := fun _ => {}
  log : List AdminRecord := []

variable (b : AdminBroker)

/-- The subject limits of a new consumer. -/
def Engine.setLimits (stream : StreamId) (limits : List (Bytes × ℕ)) (engine : Engine) : Engine :=
  limits.foldl (fun e l => e.setMaxSubjectInflight wireHash32 stream l.1 l.2) engine

namespace AdminBroker

def shardFor (id : StreamId) : ℕ := id % b.shardCount

def setEngine (i : ℕ) (engine : Engine) : AdminBroker :=
  { b with engines := Function.update b.engines i engine }

/-- `v2_create_stream`. -/
def createStream (wireHash32 : WireHash) (b : AdminBroker) (req : CreateStreamReq) (quota : Bool) :
    AdminBroker × AdminReply :=
  if !quota then (b, .repError .streamFull)
  else if !validateName req.name then (b, .repError .invalidLength)
  else if !req.filter.isEmpty && !validateSubject req.filter then (b, .repError .invalidLength)
  else
    match b.names.getOrCreateStreamChecked (wireHash32 req.name) req.name req.filter with
    | .error v => (b, .repError v.wireCode)
    | .ok (.full, _) => (b, .repError .streamFull)
    | .ok (.collision, _) => (b, .repError .streamAlreadyExists)
    | .ok (.slot id _, names) =>
      match (b.engines (b.shardFor id)).createStream ⟨id, req.name⟩ with
      | (_, .error _) => ({ b with names := names }, .repError .streamAlreadyExists)
      | (engine, .ok _) =>
        ({ b.setEngine (b.shardFor id) engine with
            names := ((names.setStreamIdempotency id req.idempotencyWindowMs).setStreamReplicas id
              req.replicas).setStreamQuota id req.quota
            log := b.log ++ [.createStream req] }, .repOk (wireHash32 req.name).toNat)

/-- `v2_delete_stream`: the consumers of the stream go first. -/
def deleteStream (wireHash32 : WireHash) (b : AdminBroker) (reqSeq : ℕ) (name : Bytes) : AdminBroker × AdminReply :=
  match b.names.streamSeq (wireHash32 name) with
  | none => (b, .repError .streamNotFound)
  | some id =>
    ({ b.setEngine (b.shardFor id) ((b.engines (b.shardFor id)).deleteStream id).1 with
        names := ((b.names.consumersForStream id).foldl NameRegistry.removeConsumerById b.names).removeStream
          (wireHash32 name)
        log := b.log ++ [.deleteStream name] }, .repOk reqSeq)

/-- The start seq that is kept: of a consumer for new messages, the tail at its creation. -/
def effectiveStartSeq (names : NameRegistry) (req : CreateConsumerReq) (id : ConsumerId) (new : Bool) (journalTail : ℕ) :
    ℕ :=
  if req.deliverPolicy = 1 then
    match new, names.consumerDeliver.lookup id with
    | false, some (1, floor) => floor
    | _, _ => journalTail
  else req.startSeq

/-- The second half of `v2_create_consumer`: the engine has the last word. The filter is
written before it is asked, the rest after. -/
def engineCreate (req : CreateConsumerReq) (stream : StreamId) (c : ConsumerId)
    (filter : Bytes) (journalTail : ℕ) : AdminBroker × AdminReply :=
  let (queue, names) := req.queue b.names stream
  let i := b.shardFor stream
  match (b.engines i).createConsumer
      (req.config c queue stream req.effectiveMaxInflight (req.maxNack.getD 0) filter) with
  | (_, .error _) => ({ b with names := names }, .repError .invalidConsumerConfig)
  | (engine, .ok new) =>
    let startSeq := effectiveStartSeq names req c new journalTail
    ({ b.setEngine i (if new then engine.setLimits wireHash32 stream req.limits else engine) with
        names := ((names.setConsumerQueue c queue).setConsumerStream c stream).setConsumerDeliverPolicy c
          req.deliverPolicy startSeq
        log := if new then b.log ++ [.createConsumer
            { req.toConsumerRecord with maxInflight := req.effectiveMaxInflight, startSeq := startSeq }]
          else b.log }, .repOk c)

/-- `v2_create_consumer`: the id is allocated before the rules are asked. -/
def createConsumer (req : CreateConsumerReq) (quota : Bool) (journalTail : ℕ) : AdminBroker × AdminReply :=
  match b.names.streamSeq req.streamId with
  | none => (b, .repError .streamNotFound)
  | some stream =>
    if !validateName req.name then (b, .repError .invalidLength)
    else if req.group.isEmpty then (b, .repError .invalidConsumerConfig)
    else if !validateName req.group then (b, .repError .invalidLength)
    else if !req.subject.isEmpty && !validateSubject req.subject then (b, .repError .invalidLength)
    else if !quota then (b, .repError .consumerAlreadyExists)
    else
      let (c, names) := b.names.getOrCreateConsumer stream req.name
      match ConsumerRules.onCreate req.subject (names.streamFilters stream) (names.siblingConsumerFilters stream c) with
      | .error v => ({ b with names := names }, .repError v.wireCode)
      | .ok filter =>
        let b := { b with names := names.setConsumerFilter c filter }
        if c = consumerSlotFull then (b, .repError .consumerAlreadyExists)
        else engineCreate wireHash32 b req stream c filter journalTail

/-- `v2_delete_consumer`. `handle_delete_consumer` answers `true` whether or not the shard
knows the consumer, so the first shard asked is the last: the consumer's, or shard 0. -/
def deleteConsumer (b : AdminBroker) (reqSeq : ℕ) (id : ConsumerId) : AdminBroker × AdminReply :=
  let i := match b.names.consumerStream id with
    | some stream => b.shardFor stream
    | none => 0
  ({ b.setEngine i ((b.engines i).deleteConsumer id).1 with
      names := b.names.removeConsumerById id
      log := b.log ++ [.deleteConsumer id] }, .repOk reqSeq)

/-- The configuration that a `Subscribe` offers for a consumer the engine does not know. -/
def bareConfig (id : ConsumerId) (queue : QueueId) (stream : StreamId) : ConsumerConfig where
  id := id
  queueId := queue
  streamId := stream
  durable := true
  ackPolicy := .explicit
  maxInflight := 2 ^ 32 - 1
  ackWaitMs := 0
  maxNack := 0
  filter := []

/-- `handle_subscribe`, as far as the engine goes. A consumer that is there with another
configuration is fine. -/
def handleSubscribe (engine : Engine) (conn : ConnectionId) (consumer : ConsumerConfig)
    (sub : SubscriptionConfig) : Engine × Bool :=
  let (engine₁, streamOk) := engine.createStream ⟨sub.streamId, []⟩
  let (engine₂, consumerOk) := engine₁.createConsumer consumer
  let (engine₃, subOk) := engine₂.createSubscription wireHash32 sub
  let ok := streamOk.toBool && (match consumerOk with
    | .ok _ => true
    | .error e => e == .consumerConfigMismatch) && subOk.toBool
  (if ok then (engine₃.subscribe conn sub.id).2.1 else engine₃, ok)

/-- The queue a `Subscribe` is for; one is made for a consumer that has none. -/
def servedBy (stream : StreamId) (c : ConsumerId) : QueueId × NameRegistry :=
  match b.names.consumerQueue.lookup c with
  | some queue => (queue, b.names)
  | none => b.names.getOrCreateQueue stream []

/-- `subscribe_one`. The low bits of the answer are the consumer, the highest one its mode. -/
def subscribe (conn : ConnectionId) (req : SubscribeReq) : AdminBroker × AdminReply :=
  if req.filters.any fun f => !f.isEmpty && !validateSubject f then (b, .repError .invalidLength)
  else
    match b.names.consumerStream req.consumerId with
    | none => (b, .repError .consumerNotFound)
    | some stream =>
      let (queue, names) := b.servedBy stream req.consumerId
      match SubscriptionRules.onCreate req.subscriptionId (req.filters.filter fun f => !f.isEmpty)
          (names.consumerFilters req.consumerId) with
      | .error v => ({ b with names := names }, .repError v.wireCode)
      | .ok filters =>
        let (sid, names) := names.resolveSubscription conn req.subscriptionId
        let r := handleSubscribe wireHash32 (b.engines (b.shardFor stream)) conn (bareConfig req.consumerId queue stream)
          ⟨sid, req.subscriptionId, stream, req.consumerId, filters⟩
        ({ b.setEngine (b.shardFor stream) r.1 with names := names },
          if r.2 then .repOk (req.consumerId + if queue = 0 then 2 ^ 63 else 0) else .repError .consumerNotFound)

/-- One request. -/
def handle : AdminRequest → AdminBroker × AdminReply
  | .createStream req quota => b.createStream wireHash32 req quota
  | .deleteStream reqSeq name => b.deleteStream wireHash32 reqSeq name
  | .createConsumer req quota journalTail => b.createConsumer wireHash32 req quota journalTail
  | .deleteConsumer reqSeq id => b.deleteConsumer reqSeq id
  | .subscribe conn req => b.subscribe wireHash32 conn req

/-- The broker after a list of requests. -/
def run (reqs : List AdminRequest) : AdminBroker :=
  reqs.foldl (fun b req => (b.handle wireHash32 req).1) b

/-- The answers to a list of requests. -/
def answers (wireHash32 : WireHash) (b : AdminBroker) : List AdminRequest → List AdminReply
  | [] => []
  | req :: reqs => (b.handle wireHash32 req).2 :: answers wireHash32 (b.handle wireHash32 req).1 reqs

/-! ## Recovery -/

/-- A buffered command of the replay. -/
inductive Replayed where
  | createStream (config : StreamConfig)
  | deleteStream (id : StreamId)
  | createConsumer (config : ConsumerConfig) (limits : List (Bytes × ℕ))
  | deleteConsumer (stream : StreamId) (id : ConsumerId)
  deriving DecidableEq, Repr

/-- The stream whose shard a command goes to. -/
def Replayed.stream : Replayed → StreamId
  | .createStream config => config.id
  | .deleteStream id => id
  | .createConsumer config _ => config.streamId
  | .deleteConsumer stream _ => stream

/-- What the shard does with a command. -/
def Replayed.apply (engine : Engine) : Replayed → Engine
  | .createStream config => (engine.createStream config).1
  | .deleteStream id => (engine.deleteStream id).1
  | .createConsumer config limits =>
    match engine.createConsumer config with
    | (engine, .ok true) => engine.setLimits wireHash32 config.streamId limits
    | (engine, _) => engine
  | .deleteConsumer _ id => (engine.deleteConsumer id).1

/-- `ReplayApplier::apply`: the registry at once, the command for later. -/
def apply (x : NameRegistry × List Replayed) : AdminRecord → NameRegistry × List Replayed
  | .createStream req =>
    match x.1.getOrCreateStream (wireHash32 req.name) with
    | none => x
    | some (id, names) =>
      ((((names.setStreamIdempotency id req.idempotencyWindowMs).setStreamReplicas id req.replicas).setStreamFilter id
          req.filter).setStreamQuota id req.quota, x.2 ++ [.createStream ⟨id, req.name⟩])
  | .deleteStream name =>
    match x.1.streamSeq (wireHash32 name) with
    | none => x
    | some id =>
      (((x.1.consumersForStream id).foldl NameRegistry.removeConsumerById x.1).removeStream (wireHash32 name),
        x.2 ++ [.deleteStream id])
  | .createConsumer req =>
    if req.group.isEmpty then x
    else
      match x.1.getOrCreateStream req.streamId with
      | none => x
      | some (stream, names) =>
        let (c, names) := names.getOrCreateConsumer stream req.name
        let (queue, names) := req.queue names stream
        let names := ((names.setConsumerQueue c queue).setConsumerStream c stream).setConsumerDeliverPolicy c
          req.deliverPolicy req.startSeq
        let filter := match ConsumerRules.onCreate req.subject (names.streamFilters stream) [] with
          | .ok filter => filter
          | .error _ => req.subject
        (names, x.2 ++ [.createConsumer (req.config c queue stream req.maxInflight 0 filter) req.subjectLimits])
  | .deleteConsumer id =>
    (x.1.removeConsumerById id, x.2 ++ [.deleteConsumer ((x.1.consumerStream id).getD 0) id])

/-- The registry and the buffered commands after the log was read. -/
def replay (log : List AdminRecord) : NameRegistry × List Replayed :=
  log.foldl (apply wireHash32) ({}, [])

/-- `ReplayApplier::flush`, for the commands of one shard. -/
def flush (cmds : List Replayed) : Engine := cmds.foldl (Replayed.apply wireHash32) {}

/-- The start of the server on the command log. -/
def restart : AdminBroker :=
  let r := replay wireHash32 b.log
  { b with
    names := r.1
    engines := fun i => flush wireHash32 (r.2.filter fun cmd => b.shardFor cmd.stream == i) }

end AdminBroker

/-- What happens to a broker: requests and restarts. -/
inductive AdminAction where
  | request (req : AdminRequest)
  | restart
  deriving DecidableEq, Repr

/-- One of them. -/
def AdminBroker.step : AdminAction → AdminBroker
  | .request req => (b.handle wireHash32 req).1
  | .restart => b.restart wireHash32

end Arbitro
