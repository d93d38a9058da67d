import Arbitro.Engine.Catalog

/-!
# Engine runtime

The inflight counters, `retire_binding`, the dispatch of a `Command` and the
`ArbitroEngine` facade. Metrics are left out: nothing reads them back.
-/

namespace Arbitro

/-! ## Inflight counters -/

inductive InFlightScope where
  | consumer
  | queue
  deriving DecidableEq, Repr

/-- `InFlightCounters`: one dense vector per scope. -/
structure InFlightCounters where
  consumer : List ℕ := []
  queue : List ℕ := []
  deriving DecidableEq, Repr

namespace InFlightCounters

/-- `get`: zero outside the vector. -/
def get (c : InFlightCounters) : InFlightScope → ℕ → ℕ
  | .consumer, key => Dense.get 0 c.consumer key
  | .queue, key => Dense.get 0 c.queue key

/-- `inc_pending`: both counters, growing them by chunks of 16. -/
def incPending (c : InFlightCounters) (consumerId : ConsumerId) (queueId : QueueId) : InFlightCounters where
  consumer := Dense.update 0 16 c.consumer consumerId (· + 1)
  queue := Dense.update 0 16 c.queue queueId (· + 1)

/-- `dec_pending`: both counters, saturating at zero. -/
def decPending (c : InFlightCounters) (consumerId : ConsumerId) (queueId : QueueId) : InFlightCounters where
  consumer := c.consumer.modify consumerId (· - 1)
  queue := c.queue.modify queueId (· - 1)

end InFlightCounters

/-- `EngineContext`, the state behind `ArbitroEngine`. -/
structure Engine where
  catalog : Catalog := {}
  inflight : InFlightCounters := {}

variable (ctx : Engine)

namespace Engine

def new : Engine := {}

/-! ## Retirement -/

/-- `runtime::retire::retire_binding`: take the binding out of the catalog and
release every pending it held. -/
def retireBinding (ctx : Engine) (id : BindingId) (ev : DeltaEvents) : Engine × DeltaEvents :=
  match ctx.catalog.retireBinding id ev with
  | (cat, ev', none) => ({ ctx with catalog := cat }, ev')
  | (cat, ev', some b) =>
    let pendings := b.pending.values
    let inflight := pendings.foldl (fun inf _ => inf.decPending b.consumerId b.queueId) ctx.inflight
    let ev'' := { ev' with
      subjectHashesAcked := ev'.subjectHashesAcked ++
        pendings.map fun p => (b.consumerId, p.subjectHash, p.seq)
      pendingSeqsReleased := ev'.pendingSeqsReleased ++ pendings.map Pending.seq
      inflightReleased := if 0 < pendings.length
        then ev'.inflightReleased ++ [(b.consumerId, b.queueId, pendings.length)]
        else ev'.inflightReleased }
    ({ catalog := cat, inflight := inflight }, ev'')

/-- Retire a list of bindings in order. -/
def retireBindings (ids : List BindingId) (ev : DeltaEvents) : Engine × DeltaEvents :=
  ids.foldl (fun s id => s.1.retireBinding id s.2) (ctx, ev)

def retireBindingsForStream (id : StreamId) (ev : DeltaEvents) : Engine × DeltaEvents :=
  ctx.retireBindings (ctx.catalog.bindingsForStream id) ev

def retireBindingsForConsumer (id : ConsumerId) (ev : DeltaEvents) : Engine × DeltaEvents :=
  ctx.retireBindings (ctx.catalog.bindingsForConsumer id) ev

def retireBindingsForConnection (id : ConnectionId) (ev : DeltaEvents) : Engine × DeltaEvents :=
  ctx.retireBindings (ctx.catalog.bindingsForConnection id) ev

/-! ## Command dispatch -/

/-- One entry of a `Delivered` command on the pendings of its binding: a seq that
is already pending is skipped. -/
def recordDelivered (consumerId : ConsumerId) (queueId : QueueId)
    (s : Map ℕ Pending × InFlightCounters) (e : DeliveredEntry) :
    Map ℕ Pending × InFlightCounters :=
  if (s.1.lookup e.seq).isSome then s
  else (s.1.insert e.seq ⟨e.seq, e.subjectHash, 1⟩, s.2.incPending consumerId queueId)

/-- `Command::Delivered`. -/
def applyDelivered (id : BindingId) (entries : List DeliveredEntry) : Engine :=
  match ctx.catalog.binding id with
  | none => ctx
  | some b =>
    if b.fireAndForget then ctx
    else
      let (pending, inflight) :=
        entries.foldl (recordDelivered b.consumerId b.queueId) (b.pending, ctx.inflight)
      { catalog := ctx.catalog.setBinding id { b with pending := pending }, inflight := inflight }

/-- Take the pending an ack entry names out of one binding, if it is there. The
credit returned is that of the consumer the command names. -/
def takePending (consumerId : ConsumerId) (ev : DeltaEvents) (a : AckEntry)
    (id : BindingId) : Option (Engine × DeltaEvents) :=
  match ctx.catalog.binding id with
  | none => none
  | some b =>
    if b.streamId = a.streamId then
      match b.pending.lookup a.seq with
      | none => none
      | some p =>
        some ({ catalog := ctx.catalog.setBinding id { b with pending := b.pending.erase a.seq },
                inflight := ctx.inflight.decPending consumerId b.queueId },
              { ev with subjectHashesAcked := ev.subjectHashesAcked ++ [(consumerId, p.subjectHash, p.seq)] })
    else none

/-- The bindings an ack or nack entry may match, in the order they are tried: the
one its `(connection, subscription)` names, or for an unnamed entry all of the
consumer's. -/
def candidates (connId : ConnectionId) (bindingIds : List BindingId) (a : AckEntry) : List BindingId :=
  if a.subId = 0 then bindingIds else (ctx.catalog.bindingIdForSubscription connId a.subId).toList

/-- One entry of an `Ack` or `Nack`: matched at most once across bindings. -/
def settleEntry (connId : ConnectionId) (consumerId : ConsumerId) (bindingIds : List BindingId)
    (s : Engine × DeltaEvents) (a : AckEntry) : Engine × DeltaEvents :=
  ((s.1.candidates connId bindingIds a).findSome? (s.1.takePending consumerId s.2 a)).getD s

/-- The body the `Ack` and `Nack` arms share. -/
def settle (connId : ConnectionId) (consumerId : ConsumerId) (entries : List AckEntry) : Engine × DeltaEvents :=
  entries.foldl (settleEntry connId consumerId (ctx.catalog.bindingsForConsumer consumerId)) (ctx, {})

/-- `runtime::execute::apply`. -/
def execute : Command → Engine × DeltaEvents
  | .delivered id entries => (ctx.applyDelivered id entries, {})
  | .ack connId consumerId entries => ctx.settle connId consumerId entries
  | .nack connId consumerId entries => ctx.settle connId consumerId entries

/-! ## Administration -/

/-- Keep the catalog unless the operation produced a new one. -/
def withCatalog (r : EngineResult Catalog) : Engine :=
  match r with
  | .ok cat => { ctx with catalog := cat }
  | .error _ => ctx

def createStream (config : StreamConfig) : Engine × EngineResult Unit :=
  let r := ctx.catalog.ensureStream config
  (ctx.withCatalog r, r.map fun _ => ())

def createConsumer (config : ConsumerConfig) : Engine × EngineResult Bool :=
  let r := ctx.catalog.ensureConsumer config
  (ctx.withCatalog (r.map Prod.fst), r.map Prod.snd)

def createSubscription (wireHash32 : WireHash) (ctx : Engine) (config : SubscriptionConfig) :
    Engine × EngineResult Unit :=
  let r := ctx.catalog.ensureSubscription wireHash32 config
  (ctx.withCatalog r, r.map fun _ => ())

/-- Remove the subscriptions of a consumer, then the consumer itself. -/
def removeConsumerEntities (id : ConsumerId) : Engine :=
  let ctx' := (ctx.catalog.subscriptionsForConsumer id).foldl
    (fun c sid => c.withCatalog (c.catalog.removeSubscriptionEntity sid)) ctx
  ctx'.withCatalog (ctx'.catalog.removeConsumerEntity id)

def deleteConsumer (id : ConsumerId) : Engine × DeltaEvents :=
  let (ctx₁, ev) := ctx.retireBindingsForConsumer id {}
  (ctx₁.removeConsumerEntities id,
    if (ctx₁.catalog.consumer id).isSome then { ev with consumersRemoved := ev.consumersRemoved ++ [id] } else ev)

/-- One consumer of the cascade in `delete_stream`. -/
def cascadeConsumer (s : Engine × DeltaEvents) (id : ConsumerId) : Engine × DeltaEvents :=
  let (ctx, ev) := s.1.retireBindingsForConsumer id s.2
  (ctx.removeConsumerEntities id, ev)

/-- `delete_stream`: every consumer attached to the stream goes with it. -/
def deleteStream (id : StreamId) : Engine × DeltaEvents :=
  let consumerIds := ctx.catalog.consumersForStream id
  let (ctx₁, ev₁) := consumerIds.foldl cascadeConsumer (ctx, {})
  let (ctx₂, ev₂) := ctx₁.retireBindingsForStream id
    { ev₁ with consumersRemoved := ev₁.consumersRemoved ++ consumerIds }
  (ctx₂.withCatalog (ctx₂.catalog.removeStreamEntity id), ev₂)

def subscribe (ctx : Engine) (conn : ConnectionId) (sid : SubscriptionId) :
    EngineResult BindingId × Engine × DeltaEvents :=
  let (r, cat, ev) := ctx.catalog.subscribe conn sid {}
  (r, { ctx with catalog := cat }, ev)

def unsubscribe (id : BindingId) : Engine × DeltaEvents := ctx.retireBinding id {}

def openConnection (ctx : Engine) (conn : ConnectionId) (node : NodeId) : Engine :=
  { ctx with catalog := ctx.catalog.openConnection conn node }

def markConnectionDead (conn : ConnectionId) : Engine × DeltaEvents :=
  let (ctx₁, ev) := ctx.retireBindingsForConnection conn {}
  ({ ctx₁ with catalog := ctx₁.catalog.removeConnectionEntity conn }, ev)

/-- `pause_consumer` and `resume_consumer`. -/
def setPaused (ctx : Engine) (id : ConsumerId) (paused : Bool) : Engine × Bool :=
  let (cat, found) := ctx.catalog.setPaused id paused
  ({ ctx with catalog := cat }, found)

def setMaxSubjectInflight (wireHash32 : WireHash) (ctx : Engine) (id : StreamId) (pattern : Bytes)
    (max : ℕ) : Engine :=
  ctx.withCatalog (ctx.catalog.setMaxSubjectInflight wireHash32 id pattern max)

/-! ## The engine as a state machine -/

/-- Every mutation the facade offers. -/
inductive Op where
  | createStream (config : StreamConfig)
  | deleteStream (id : StreamId)
  | createConsumer (config : ConsumerConfig)
  | deleteConsumer (id : ConsumerId)
  | createSubscription (config : SubscriptionConfig)
  | subscribe (conn : ConnectionId) (sid : SubscriptionId)
  | unsubscribe (id : BindingId)
  | openConnection (conn : ConnectionId) (node : NodeId)
  | markConnectionDead (conn : ConnectionId)
  | pauseConsumer (id : ConsumerId)
  | resumeConsumer (id : ConsumerId)
  | setMaxSubjectInflight (id : StreamId) (pattern : Bytes) (max : ℕ)
  | execute (cmd : Command)

/-- The state one operation leaves. -/
def step (wireHash32 : WireHash) (ctx : Engine) : Op → Engine
  | .createStream config => (ctx.createStream config).1
  | .deleteStream id => (ctx.deleteStream id).1
  | .createConsumer config => (ctx.createConsumer config).1
  | .deleteConsumer id => (ctx.deleteConsumer id).1
  | .createSubscription config => (ctx.createSubscription wireHash32 config).1
  | .subscribe conn sid => (ctx.subscribe conn sid).2.1
  | .unsubscribe id => (ctx.unsubscribe id).1
  | .openConnection conn node => ctx.openConnection conn node
  | .markConnectionDead conn => (ctx.markConnectionDead conn).1
  | .pauseConsumer id => (ctx.setPaused id true).1
  | .resumeConsumer id => (ctx.setPaused id false).1
  | .setMaxSubjectInflight id pattern max => ctx.setMaxSubjectInflight wireHash32 id pattern max
  | .execute cmd => (ctx.execute cmd).1

end Engine

end Arbitro
