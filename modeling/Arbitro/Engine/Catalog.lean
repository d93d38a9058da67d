import Arbitro.Lib.Dense
import Arbitro.Engine.MatchTable

/-!
# The catalog

Streams, consumers, subscriptions and bindings with their secondary indices, the
per-stream demand counts and the match tables. Every function is the source
function of the same name; `&mut DeltaEvents` out-parameters are threaded.
-/

namespace Arbitro

/-- Upper bound on stream ids (`MAX_ENTITY_ID`). -/
def maxEntityId : ℕ := 65536

structure Catalog where
  streams : List (Option StreamInfo) := []
  consumers : List (Option ConsumerInfo) := []
  subscriptions : Map SubscriptionId SubscriptionInfo := ∅
  bindings : Map BindingId Binding := ∅
  byStream : Map StreamId (List BindingId) := ∅
  byConsumer : Map ConsumerId (List BindingId) := ∅
  byConnection : Map ConnectionId (List BindingId) := ∅
  /-- At most one active binding per subscription. -/
  bySubscription : Map SubscriptionId BindingId := ∅
  /-- `(connection, client's subscription id) → binding`. -/
  byConnSubscription : Map (ConnectionId × ℕ) BindingId := ∅
  /-- `(connection, consumer) → live binding count`. -/
  byConnConsumer : Map (ConnectionId × ConsumerId) ℕ := ∅
  nextBindingId : ℕ := 1
  connections : Map ConnectionId NodeId := ∅
  /-- Streams with at least one active binding. -/
  demand : Map StreamId ℕ := ∅
  matchTables : List (Option MatchTable) := []

variable (cat : Catalog) (wireHash32 : WireHash)

/-- `map.entry(k).or_default().push(b)`. -/
def pushIndex {K : Type} [DecidableEq K] (m : Map K (List BindingId)) (k : K) (b : BindingId) :
    Map K (List BindingId) :=
  m.insert k ((m.lookup k).getD [] ++ [b])

/-- `if let Some(v) = map.get_mut(k) { v.retain(|x| *x != b) }`. -/
def retainIndex {K : Type} [DecidableEq K] (m : Map K (List BindingId)) (k : K) (b : BindingId) :
    Map K (List BindingId) :=
  match m.lookup k with
  | some v => m.insert k (v.filter (· != b))
  | none => m

/-- Drop a key, but only while it still points at `b`. -/
def eraseIfPointsAt {K : Type} [DecidableEq K] (m : Map K BindingId) (k : K) (b : BindingId) :
    Map K BindingId :=
  if m.lookup k = some b then m.erase k else m

/-- The entity `ensure_consumer` stores: created running, not paused. -/
def ConsumerConfig.newInfo (config : ConsumerConfig) : ConsumerInfo where
  streamId := config.streamId
  queueId := config.queueId
  maxInflight := config.maxInflight
  paused := false
  ackPolicy := config.ackPolicy
  durable := config.durable
  ackWaitMs := config.ackWaitMs
  maxNack := config.maxNack
  filter := config.filter

/-- Does a consumer already stored have the configuration asked for? -/
def ConsumerInfo.sameConfig (info : ConsumerInfo) (config : ConsumerConfig) : Bool :=
  info.maxInflight == config.maxInflight && info.ackPolicy == config.ackPolicy &&
    info.ackWaitMs == config.ackWaitMs && info.streamId == config.streamId &&
    info.queueId == config.queueId && info.filter == config.filter

namespace Catalog

/-! ## Queries -/

def stream (id : StreamId) : Option StreamInfo := Dense.get none cat.streams id

def streamExists (id : StreamId) : Bool := (cat.stream id).isSome

def consumer (id : ConsumerId) : Option ConsumerInfo := Dense.get none cat.consumers id

def binding (id : BindingId) : Option Binding := cat.bindings.lookup id

def matchTable (id : StreamId) : Option MatchTable := Dense.get none cat.matchTables id

def bindingsForStream (id : StreamId) : List BindingId := (cat.byStream.lookup id).getD []

def bindingsForConsumer (id : ConsumerId) : List BindingId :=
  (cat.byConsumer.lookup id).getD []

def bindingsForConnection (id : ConnectionId) : List BindingId :=
  (cat.byConnection.lookup id).getD []

def bindingIdForSubscription (conn : ConnectionId) (sub : ℕ) : Option BindingId :=
  cat.byConnSubscription.lookup (conn, sub)

def bindingForSubscription (conn : ConnectionId) (sub : ℕ) : Option Binding :=
  (cat.bindingIdForSubscription conn sub).bind cat.binding

def connectionOwnsConsumer (conn : ConnectionId) (consumer : ConsumerId) : Bool :=
  (cat.byConnConsumer.lookup (conn, consumer)).isSome

def subscriptionsForConsumer (id : ConsumerId) : List SubscriptionId :=
  (cat.subscriptions.entries.filter fun e => e.2.consumerId == id).map Sigma.fst

def consumersForStream (id : StreamId) : List ConsumerId :=
  (List.range cat.consumers.length).filter fun c =>
    match cat.consumer c with
    | some info => info.streamId == id
    | none => false

/-- Write a binding back (`binding_mut`). -/
def setBinding (id : BindingId) (b : Binding) : Catalog :=
  { cat with bindings := cat.bindings.insert id b }

/-! ## Demand -/

def incDemand (id : StreamId) (ev : DeltaEvents) : Catalog × DeltaEvents :=
  let count := (cat.demand.lookup id).getD 0 + 1
  ({ cat with demand := cat.demand.insert id count },
    if count = 1 then { ev with demandBecameAvailable := ev.demandBecameAvailable ++ [id] } else ev)

def decDemand (id : StreamId) (ev : DeltaEvents) : Catalog × DeltaEvents :=
  match cat.demand.lookup id with
  | none => (cat, ev)
  | some count =>
    if count - 1 = 0 then
      ({ cat with demand := cat.demand.erase id },
        { ev with demandBecameIdle := ev.demandBecameIdle ++ [id] })
    else ({ cat with demand := cat.demand.insert id (count - 1) }, ev)

/-! ## Streams and consumers -/

/-- Apply `f` to the match table of a stream, if it has one. -/
def modifyMatchTable (id : StreamId) (f : MatchTable → MatchTable) : Catalog :=
  { cat with matchTables := cat.matchTables.modify id (Option.map f) }

/-- `match_tables[id].get_or_insert_with(MatchTable::new)`, then `f`. -/
def upsertMatchTable (id : StreamId) (f : MatchTable → MatchTable) : Catalog :=
  { cat with matchTables := Dense.update none 4 cat.matchTables id fun o => some (f (o.getD .new)) }

/-- `ensure_stream`: idempotent. -/
def ensureStream (config : StreamConfig) : EngineResult Catalog :=
  if maxEntityId < config.id then .error .entityIdTooLarge
  else if cat.streamExists config.id then .ok cat
  else
    .ok ({ cat with streams := Dense.update none 4 cat.streams config.id fun _ => some ⟨config.name⟩ }
      |>.upsertMatchTable config.id id)

/-- `remove_stream_entity`: does not cascade. -/
def removeStreamEntity (id : StreamId) : EngineResult Catalog :=
  if cat.streamExists id then
    .ok { cat with streams := cat.streams.set id none, matchTables := cat.matchTables.set id none }
  else .error .streamNotFound

/-- `ensure_consumer`: `true` when the consumer is new. -/
def ensureConsumer (config : ConsumerConfig) : EngineResult (Catalog × Bool) :=
  if cat.streamExists config.streamId then
    match cat.consumer config.id with
    | some info =>
      if info.sameConfig config then .ok (cat, false) else .error .consumerConfigMismatch
    | none =>
      let consumers := Dense.update none 4 cat.consumers config.id fun _ => some config.newInfo
      .ok ({ cat with consumers := consumers }, true)
  else .error .streamNotFound

/-- `remove_consumer_entity`: does not cascade. -/
def removeConsumerEntity (id : ConsumerId) : EngineResult Catalog :=
  if (cat.consumer id).isSome then .ok { cat with consumers := cat.consumers.set id none }
  else .error .consumerNotFound

/-- `pause_consumer` and `resume_consumer`: set the flag of an existing consumer. -/
def setPaused (id : ConsumerId) (paused : Bool) : Catalog × Bool :=
  ({ cat with consumers := cat.consumers.modify id (Option.map fun i => { i with paused := paused }) },
    (cat.consumer id).isSome)

/-! ## Subscriptions -/

/-- Enter one filter of a subscription into a match table. -/
def addFilter (e : MatchEntry) (mt : MatchTable) (filter : Bytes) : MatchTable :=
  if hasWildcard filter then mt.addPattern filter e else mt.addExact (wireHash32 filter) filter e

/-- `ensure_subscription`: an id that exists already keeps its configuration. -/
def ensureSubscription (cat : Catalog) (config : SubscriptionConfig) : EngineResult Catalog :=
  if cat.streamExists config.streamId then
    match cat.consumer config.consumerId with
    | none => .error .consumerNotFound
    | some consumer =>
      if (cat.subscriptions.lookup config.id).isSome then .ok cat
      else
        let entry : MatchEntry :=
          { consumerId := config.consumerId, queueId := consumer.queueId,
            subscriptionId := config.id, connectionId := 0, bindingIdx := none }
        let info : SubscriptionInfo :=
          { streamId := config.streamId, consumerId := config.consumerId,
            externalId := config.externalId, filters := config.filters }
        .ok ({ cat with subscriptions := cat.subscriptions.insert config.id info }
          |>.upsertMatchTable config.streamId fun mt =>
            if config.filters.isEmpty then mt.addCatchAll entry
            else config.filters.foldl (addFilter wireHash32 entry) mt)
  else .error .streamNotFound

/-- `remove_subscription_entity`: does not cascade. -/
def removeSubscriptionEntity (id : SubscriptionId) : EngineResult Catalog :=
  match cat.subscriptions.lookup id with
  | none => .error .subscriptionNotFound
  | some info =>
    .ok ({ cat with subscriptions := cat.subscriptions.erase id }
      |>.modifyMatchTable info.streamId fun mt => mt.removeSubscription id)

/-! ## Connections -/

def openConnection (conn : ConnectionId) (node : NodeId) : Catalog :=
  { cat with connections := cat.connections.insert conn node }

def removeConnectionEntity (conn : ConnectionId) : Catalog :=
  { cat with connections := cat.connections.erase conn }

/-! ## Bindings -/

/-- Take a binding out of every index it is in. -/
def unindexBinding (id : BindingId) (b : Binding) : Catalog :=
  let connConsumer := (b.connectionId, b.consumerId)
  { cat with
    bindings := cat.bindings.erase id
    byStream := retainIndex cat.byStream b.streamId id
    byConsumer := retainIndex cat.byConsumer b.consumerId id
    byConnection := retainIndex cat.byConnection b.connectionId id
    bySubscription := eraseIfPointsAt cat.bySubscription b.subscriptionId id
    byConnSubscription := eraseIfPointsAt cat.byConnSubscription (b.connectionId, b.externalSubId) id
    byConnConsumer := match cat.byConnConsumer.lookup connConsumer with
      | none => cat.byConnConsumer
      | some n =>
        if n - 1 = 0 then cat.byConnConsumer.erase connConsumer
        else cat.byConnConsumer.insert connConsumer (n - 1) }

/-- `Catalog::retire_binding`: returns the binding, pendings included, so that the
caller can release what it holds. -/
def retireBinding (id : BindingId) (ev : DeltaEvents) : Catalog × DeltaEvents × Option Binding :=
  match cat.binding id with
  | none => (cat, ev, none)
  | some b =>
    let cat' := (cat.unindexBinding id b).modifyMatchTable b.streamId fun mt =>
      mt.unbindSubscription b.subscriptionId
    let (cat'', ev') := cat'.decDemand b.streamId ev
    (cat'', { ev' with bindingsRetired := ev'.bindingsRetired ++ [id] }, some b)

/-- Enter a new binding into every index. -/
def indexBinding (b : Binding) : Catalog :=
  let connConsumer := (b.connectionId, b.consumerId)
  { cat with
    bindings := cat.bindings.insert b.bindingId b
    byStream := pushIndex cat.byStream b.streamId b.bindingId
    byConsumer := pushIndex cat.byConsumer b.consumerId b.bindingId
    byConnection := pushIndex cat.byConnection b.connectionId b.bindingId
    bySubscription := cat.bySubscription.insert b.subscriptionId b.bindingId
    byConnSubscription := cat.byConnSubscription.insert (b.connectionId, b.externalSubId) b.bindingId
    byConnConsumer :=
      cat.byConnConsumer.insert connConsumer ((cat.byConnConsumer.lookup connConsumer).getD 0 + 1) }

/-- The retirement `subscribe` performs on the binding its subscription already has.
The `Binding` that `retire_binding` returns is dropped here. -/
def retirePrevious (sid : SubscriptionId) (ev : DeltaEvents) : Catalog × DeltaEvents :=
  match cat.bySubscription.lookup sid with
  | none => (cat, ev)
  | some old =>
    let r := cat.retireBinding old ev
    (r.1, r.2.1)

/-- The binding `subscribe` creates for subscription `sub` of a consumer. -/
def freshBinding (id : BindingId) (conn : ConnectionId) (sid : SubscriptionId) (sub : SubscriptionInfo)
    (consumer : ConsumerInfo) : Binding where
  bindingId := id
  streamId := sub.streamId
  consumerId := sub.consumerId
  connectionId := conn
  subscriptionId := sid
  externalSubId := sub.externalId
  queueId := consumer.queueId
  maxInflight := consumer.maxInflight
  paused := consumer.paused
  fireAndForget := consumer.ackPolicy == .none
  pending := ∅

/-- `Catalog::subscribe`. Binding ids are a wrapping `u32` counter. -/
def subscribe (conn : ConnectionId) (sid : SubscriptionId) (ev : DeltaEvents) :
    EngineResult BindingId × Catalog × DeltaEvents :=
  match cat.subscriptions.lookup sid with
  | none => (.error .subscriptionNotFound, cat, ev)
  | some sub =>
    match cat.consumer sub.consumerId with
    | none => (.error .consumerNotFound, cat, ev)
    | some consumer =>
      let (cat₁, ev₁) := cat.retirePrevious sid ev
      let bid := cat₁.nextBindingId
      let cat₂ := { cat₁ with nextBindingId := (bid + 1) % 2 ^ 32 }.indexBinding
        (freshBinding bid conn sid sub consumer)
      let cat₃ := cat₂.modifyMatchTable sub.streamId fun mt => mt.bindSubscription sid conn
      let (cat₄, ev₄) := cat₃.incDemand sub.streamId ev₁
      (.ok bid, cat₄, ev₄)

def setMaxSubjectInflight (cat : Catalog) (id : StreamId) (pattern : Bytes) (max : ℕ) : EngineResult Catalog :=
  if cat.streamExists id then
    .ok (cat.upsertMatchTable id fun mt => mt.addMaxSubjectInflight wireHash32 pattern max)
  else .error .streamNotFound

/-! ## The catalog as a state machine -/

/-- Every mutation the catalog offers. `settle` is what `binding_mut` is used for: the
pendings of a binding change. -/
inductive Op where
  | ensureStream (config : StreamConfig)
  | removeStreamEntity (id : StreamId)
  | ensureConsumer (config : ConsumerConfig)
  | removeConsumerEntity (id : ConsumerId)
  | setPaused (id : ConsumerId) (paused : Bool)
  | ensureSubscription (config : SubscriptionConfig)
  | removeSubscriptionEntity (id : SubscriptionId)
  | openConnection (conn : ConnectionId) (node : NodeId)
  | removeConnectionEntity (conn : ConnectionId)
  | subscribe (conn : ConnectionId) (sid : SubscriptionId)
  | retireBinding (id : BindingId)
  | setMaxSubjectInflight (id : StreamId) (pattern : Bytes) (max : ℕ)
  | settle (id : BindingId) (pending : Map ℕ Pending)

/-- The catalog an operation that may fail leaves. -/
def keepOr (r : EngineResult Catalog) : Catalog :=
  match r with
  | .ok cat' => cat'
  | .error _ => cat

/-- The state one operation leaves. -/
def step (cat : Catalog) : Op → Catalog
  | .ensureStream config => cat.keepOr (cat.ensureStream config)
  | .removeStreamEntity id => cat.keepOr (cat.removeStreamEntity id)
  | .ensureConsumer config => cat.keepOr ((cat.ensureConsumer config).map Prod.fst)
  | .removeConsumerEntity id => cat.keepOr (cat.removeConsumerEntity id)
  | .setPaused id paused => (cat.setPaused id paused).1
  | .ensureSubscription config => cat.keepOr (cat.ensureSubscription wireHash32 config)
  | .removeSubscriptionEntity id => cat.keepOr (cat.removeSubscriptionEntity id)
  | .openConnection conn node => cat.openConnection conn node
  | .removeConnectionEntity conn => cat.removeConnectionEntity conn
  | .subscribe conn sid => (cat.subscribe conn sid {}).2.1
  | .retireBinding id => (cat.retireBinding id {}).1
  | .setMaxSubjectInflight id pattern max => cat.keepOr (cat.setMaxSubjectInflight wireHash32 id pattern max)
  | .settle id pending =>
    match cat.binding id with
    | some b => cat.setBinding id { b with pending := pending }
    | none => cat

end Catalog

end Arbitro
