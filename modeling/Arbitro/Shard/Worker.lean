import Arbitro.Shard.AckFloor
import Arbitro.Shard.Effect

/-!
# The command worker

The handlers of `CommandWorker`. A handler maps the worker's own state to its
next state and the list of effects it has on what the command task shares with
the drain, in the order it performs them. What a handler reads from elsewhere
(the store's last seq, whether the registry knows a connection's writer, the
deliver policy the registry holds) is part of its command.

`drain_notifications` pops the ring while the drain may push, so a handler that
starts with it is split: the check before it (`connectionOwns`) and the body
after it are separate functions. Sidecar files, metrics and replies that only
repeat a command's outcome are left out.
-/

namespace Arbitro

/-- `CommandWorker`: the state only the command task touches. The consumer cursors
are the registry's, written by this task alone. -/
structure Worker where
  engine : Engine := .new
  bindings : List ActiveBinding := []
  streamRetention : Map StreamId StreamRetention := ∅
  ackFloors : AckFloors := fun _ => none
  /-- The armed timers. -/
  wheel : List WheelEntry := []
  dlqNackCounts : Map (ConsumerId × ℕ) ℕ := ∅
  consumerCursor : Map ConsumerId ℕ := ∅
  replayMode : Bool := false

variable (w : Worker)

structure AckCmd where
  consumerId : ConsumerId
  connId : ConnectionId
  entries : List AckEntry

structure NackCmd where
  consumerId : ConsumerId
  connId : ConnectionId
  entries : List AckEntry
  delayMs : ℕ

/-- `SubscribeCmd`, with what `get_write_tx` answers for its connection. -/
structure SubscribeCmd where
  streamConfig : StreamConfig
  consumerConfig : ConsumerConfig
  subscriptionConfig : SubscriptionConfig
  connectionId : ConnectionId
  deliverPolicy : ℕ
  startSeq : ℕ
  hasWriter : Bool

/-- `BindCmd`, with the deliver policy the registry holds and what `get_write_tx`
answers. -/
structure BindCmd where
  connectionId : ConnectionId
  subscriptionId : SubscriptionId
  registryPolicy : Option (ℕ × ℕ)
  hasWriter : Bool

def deliverFloorFor (deliverPolicy startSeq : ℕ) : ℕ :=
  match deliverPolicy with
  | 1 => startSeq
  | 2 => startSeq - 1
  | _ => 0

namespace Worker

/-- A state and the effects so far. -/
abbrev Out := Worker × List Effect

/-- Go on from a state, after the effects so far. -/
def Out.andThen (r : Out) (f : Worker → Out) : Out := ((f r.1).1, r.2 ++ (f r.1).2)

/-- `gate.release()` under a condition. -/
def releaseGateIf (p : Bool) : List Effect := if p then [.releaseGate] else []

/-! ## Snapshot and deltas -/

/-- The snapshot of the current bindings and match tables. -/
def snapshot : DrainSnapshot :=
  .rebuild w.bindings w.engine.catalog.matchTables w.streamRetention

def rebuildAndSwapSnapshot : Out := (w, [.publish w.snapshot])

/-- Forget the bindings a delta retired. -/
def dropBindings (retired : List BindingId) : Worker :=
  { w with bindings := w.bindings.filter fun b => !retired.contains b.bindingId }

/-- The `Ack` events for the pendings a delta released, with the floors at that
moment. -/
def ackEvents (delta : DeltaEvents) (op : SuppressOp) : List Effect :=
  delta.subjectHashesAcked.map fun r => .ackEvent ⟨r.1, r.2.1, w.ackFloors.floor r.1, r.2.2, op⟩

/-- `rewind_released` at the least of some seqs, if there are any. -/
def rewindToLeast (seqs : List ℕ) : List Effect :=
  match seqs.min? with
  | some m => [.rewindReleased m]
  | none => []

/-- What the events of a delta do to their seqs. -/
def deltaOp (releasesAreAcks : Bool) : SuppressOp := if releasesAreAcks then .acked else .released

def applyDeltaAndSync (delta : DeltaEvents) (releasesAreAcks : Bool) : Out :=
  let w' := { w with ackFloors := delta.consumersRemoved.foldl AckFloors.remove w.ackFloors }
    |>.dropBindings delta.bindingsRetired
  (w',
    releaseGateIf (!delta.demandBecameAvailable.isEmpty) ++
    w.ackEvents delta (deltaOp releasesAreAcks) ++ releaseGateIf (!delta.subjectHashesAcked.isEmpty) ++
    rewindToLeast delta.pendingSeqsReleased ++ releaseGateIf (!delta.pendingSeqsReleased.isEmpty) ++
    (delta.inflightReleased.map fun r => .decInflight r.1 r.2.1 r.2.2) ++
    delta.consumersRemoved.map .removeConsumer ++
    if delta.bindingsRetired.isEmpty then [] else [.publish w'.snapshot])

/-! ## Notifications and timers -/

/-- `wheel_insert_delivered`: one timer per delivered entry, if the consumer has an
ack deadline. -/
def wheelInsertDelivered (c : ConsumerId) (entries : List DeliveredEntry) : Worker :=
  if ((w.engine.catalog.consumer c).map (·.ackWaitMs)).getD 0 = 0 then w
  else { w with wheel := w.wheel ++ entries.map fun e => ⟨e.seq, c, e.subjectHash, .ackTimeout⟩ }

/-- `Delivered` for a binding that is gone: take back what the drain recorded and
make the seqs deliverable again. -/
def reverseDelivered (c : ConsumerId) (q : QueueId) (entries : List DeliveredEntry) : Out :=
  (w,
    [.decInflight c q entries.length] ++
    (entries.map fun e => .ackEvent ⟨c, e.subjectHash, w.ackFloors.floor c, e.seq, .released⟩) ++
    rewindToLeast (entries.map (·.seq)) ++ [.releaseGate])

/-- The hashes of the entries that are pending on their binding already. -/
def dupHashes (b : Binding) (entries : List DeliveredEntry) : List SubjectHash :=
  if b.fireAndForget then [] else (entries.filter fun e => b.isPending e.seq).map (·.subjectHash)

/-- Take back what the drain counted for deliveries that were pending already. -/
def reconcileDups (c : ConsumerId) (q : QueueId) (dups : List SubjectHash) : List Effect :=
  if dups.isEmpty then []
  else [.decInflight c q dups.length] ++
    (dups.map fun h => .reconcile ⟨c, h, w.ackFloors.floor c, 0, .none⟩) ++ [.releaseGate]

def handleNotification : DrainNotification → Out
  | .delivered id c q entries =>
    match w.engine.catalog.binding id with
    | none => w.reverseDelivered c q entries
    | some b =>
      ({ w with engine := w.engine.applyDelivered id entries }.wheelInsertDelivered c entries,
        w.reconcileDups c q (dupHashes b entries))
  | .connectionDead conn =>
    let (engine, delta) := w.engine.markConnectionDead conn
    { w with engine := engine }.applyDeltaAndSync delta false

/-- Is the seq pending at some binding of the consumer? -/
def stillPending (c : ConsumerId) (seq : ℕ) : Bool :=
  (w.engine.catalog.bindingsForConsumer c).any fun id =>
    ((w.engine.catalog.binding id).map (·.isPending seq)).getD false

/-- What `wheel_advance` accumulates over the expired timers: the merged delta, the
seqs to rewind to, and the inflight credits to give back. -/
structure Expired where
  worker : Worker
  delta : DeltaEvents := {}
  rewinds : List ℕ := []
  decs : List Effect := []

/-- One expired timer of `wheel_advance`. -/
def expireEntry (x : Expired) (t : WheelEntry) : Expired :=
  match t.kind with
  | .nackDelay => { x with rewinds := x.rewinds ++ [t.seq] }
  | .ackTimeout =>
    if x.worker.stillPending t.consumerId t.seq then
      let consumer := x.worker.engine.catalog.consumer t.consumerId
      let (engine, delta) := x.worker.engine.settle 0 t.consumerId
        [⟨(consumer.map (·.streamId)).getD 0, t.seq, 0⟩]
      { worker := { x.worker with engine := engine }
        delta := x.delta.merge delta
        rewinds := x.rewinds ++ [t.seq]
        decs := match consumer with
          | some info => x.decs ++ [.decInflight t.consumerId info.queueId 1]
          | none => x.decs }
    else x

/-- All timers that expired together. -/
def expireAll (fired : List WheelEntry) : Expired :=
  fired.foldl expireEntry { worker := { w with wheel := w.wheel.diff fired } }

/-- The merged delta goes through `apply_delta_and_sync` unless it is empty. -/
def syncExpired (delta : DeltaEvents) : Out :=
  if delta.isEmpty then (w, []) else w.applyDeltaAndSync delta false

/-- `wheel_advance`: of the armed timers, those in `due` have expired. -/
def wheelAdvance (due : List WheelEntry) : Out :=
  let x := w.expireAll (due.bagInter w.wheel)
  Out.andThen (x.worker, x.decs) fun w =>
    Out.andThen (w.syncExpired x.delta) fun w =>
      (w, rewindToLeast x.rewinds ++ releaseGateIf (!x.rewinds.isEmpty))

/-! ## Ack and nack -/

/-- `connection_owns`: every entry that names a subscription must resolve to a
binding of the consumer; a batch that names none is checked by `(connection,
consumer)`. -/
def connectionOwns (conn : ConnectionId) (c : ConsumerId) (entries : List AckEntry) : Bool :=
  let named := entries.filter (·.subId != 0)
  (named.all fun a =>
    ((w.engine.catalog.bindingForSubscription conn a.subId).map (·.consumerId == c)).getD false) &&
  (!named.isEmpty || w.engine.catalog.connectionOwnsConsumer conn c)

/-- The pre-scan criterion of `handle_ack` on one binding. -/
def wouldMatch (b : Binding) (a : AckEntry) : Bool := b.streamId == a.streamId && b.isPending a.seq

/-- Does an ack entry match a pending, before anything of the batch is removed? -/
def prescan (conn : ConnectionId) (c : ConsumerId) (a : AckEntry) : Bool :=
  if a.subId = 0 then
    (w.engine.catalog.bindingsForConsumer c).any fun id =>
      ((w.engine.catalog.binding id).map (wouldMatch · a)).getD false
  else ((w.engine.catalog.bindingForSubscription conn a.subId).map (wouldMatch · a)).getD false

/-- The floors after the pre-scan recorded what the batch acks. -/
def recordAcks (conn : ConnectionId) (c : ConsumerId) (entries : List AckEntry) : AckFloors :=
  (entries.filter (w.prescan conn c)).foldl (fun f a => f.recordAcked c a.seq) w.ackFloors

/-- Give back the shared inflight of what the engine matched. -/
def decMatched (c : ConsumerId) (delta : DeltaEvents) : List Effect :=
  match w.engine.catalog.consumer c with
  | some info =>
    if 0 < delta.subjectHashesAcked.length then [.decInflight c info.queueId delta.subjectHashesAcked.length]
    else []
  | none => []

/-- The highest acked seq becomes the consumer's cursor. -/
def bumpCursor (cursors : Map ConsumerId ℕ) (c : ConsumerId) (entries : List AckEntry) : Map ConsumerId ℕ :=
  match (entries.map (·.seq)).max? with
  | some m => if (cursors.lookup c).getD 0 < m then cursors.insert c m else cursors
  | none => cursors

/-- The body of `handle_ack`, after the notifications. -/
def ackBody (cmd : AckCmd) : Out :=
  let floors := w.recordAcks cmd.connId cmd.consumerId cmd.entries
  let (engine, delta) := w.engine.settle cmd.connId cmd.consumerId cmd.entries
  let w' := { w with
    engine := engine
    ackFloors := floors
    dlqNackCounts := cmd.entries.foldl (fun m a => m.erase (cmd.consumerId, a.seq)) w.dlqNackCounts
    consumerCursor := bumpCursor w.consumerCursor cmd.consumerId cmd.entries }
  Out.andThen (w', w'.decMatched cmd.consumerId delta ++ releaseGateIf (!delta.subjectHashesAcked.isEmpty))
    fun w => w.applyDeltaAndSync delta true

/-- Count one nack; the entry is over the limit when its count passes `maxNack`. -/
def countNack (c : ConsumerId) (maxNack : ℕ) (s : Map (ConsumerId × ℕ) ℕ × List AckEntry × List AckEntry)
    (a : AckEntry) : Map (ConsumerId × ℕ) ℕ × List AckEntry × List AckEntry :=
  let count := (s.1.lookup (c, a.seq)).getD 0 + 1
  if maxNack < count then (s.1.erase (c, a.seq), s.2.1, s.2.2 ++ [a])
  else (s.1.insert (c, a.seq) count, s.2.1 ++ [a], s.2.2)

/-- The dead-letter check of `handle_nack`, before the notifications. Entries over
the limit are redelivered like the others, after them. -/
def nackCheck (cmd : NackCmd) : Worker × NackCmd :=
  let maxNack := ((w.engine.catalog.consumer cmd.consumerId).map (·.maxNack)).getD 0
  if 0 < maxNack then
    let (counts, keep, overLimit) := cmd.entries.foldl (countNack cmd.consumerId maxNack) (w.dlqNackCounts, [], [])
    ({ w with dlqNackCounts := counts }, { cmd with entries := keep ++ overLimit })
  else (w, cmd)

/-- The body of `handle_nack`, after the notifications. A delayed nack arms a timer
for every entry of the batch and does not rewind yet. -/
def nackBody (cmd : NackCmd) : Out :=
  let (engine, delta) := w.engine.settle cmd.connId cmd.consumerId cmd.entries
  let w' := { w with engine := engine }
  Out.andThen (w', w'.decMatched cmd.consumerId delta) fun w =>
    Out.andThen (w.applyDeltaAndSync delta false) fun w =>
      if 0 < cmd.delayMs then
        let timers := cmd.entries.map fun a => (⟨a.seq, cmd.consumerId, 0, .nackDelay⟩ : WheelEntry)
        ({ w with wheel := w.wheel ++ timers }, [])
      else (w, rewindToLeast (cmd.entries.map (·.seq)) ++ releaseGateIf (!cmd.entries.isEmpty))

/-! ## Subscriptions -/

/-- The binding record of a subscribe or bind that produced `id`, from the consumer
the command names. -/
def activeBinding (id : BindingId) (conn : ConnectionId) (c : ConsumerId)
    (sid : SubscriptionId) (deliverFloor : ℕ) : ActiveBinding :=
  let info := w.engine.catalog.consumer c
  { bindingId := id
    connectionId := conn
    consumerId := c
    subscriptionId := sid
    groupIdx := 2 ^ 32 - 1
    externalSubId := ((w.engine.catalog.binding id).map (·.externalSubId)).getD 0
    streamId := (info.map (·.streamId)).getD 0
    queueId := (info.map (·.queueId)).getD 0
    maxInflight := (info.map (·.maxInflight)).getD (2 ^ 32 - 1)
    fireAndForget := (info.map (·.ackPolicy == .none)).getD false
    ackWaitMs := (info.map (·.ackWaitMs)).getD 0
    deliverFloor := deliverFloor }

/-- What subscribe and bind share once the engine returned a binding: seed the
floor, record the binding if the connection still has a writer, count demand. -/
def addBinding (id : BindingId) (conn : ConnectionId) (c : ConsumerId) (sid : SubscriptionId)
    (deliverFloor : ℕ) (hasWriter : Bool) : Out :=
  let a := w.activeBinding id conn c sid deliverFloor
  ({ w with
      ackFloors := if 0 < deliverFloor then w.ackFloors.seed c deliverFloor else w.ackFloors
      bindings := if hasWriter then w.bindings ++ [a] else w.bindings },
    [.incDemand a.streamId])

/-- Where `handle_subscribe` rewinds to. -/
def resumeSeq (cmd : SubscribeCmd) : ℕ :=
  match cmd.deliverPolicy with
  | 0 => (w.consumerCursor.lookup cmd.consumerConfig.id).getD 0 + 1
  | 1 => cmd.startSeq + 1
  | 2 => max cmd.startSeq 1
  | _ => 1

/-- Did the engine accept, or refuse only because the consumer exists with another
configuration? -/
def consumerOk : EngineResult Bool → Bool
  | .ok _ => true
  | .error e => e == .consumerConfigMismatch

/-- `handle_subscribe`. Of the delta only the retired bindings are applied. -/
def handleSubscribe (wireHash32 : WireHash) (w : Worker) (cmd : SubscribeCmd) : Out :=
  let (e₁, streamOk) := w.engine.createStream cmd.streamConfig
  let (e₂, consumerRes) := e₁.createConsumer cmd.consumerConfig
  let (e₃, subOk) := e₂.createSubscription wireHash32 cmd.subscriptionConfig
  if streamOk.toBool && consumerOk consumerRes && subOk.toBool then
    let (res, e₄, delta) := e₃.subscribe cmd.connectionId cmd.subscriptionConfig.id
    let w := { w with engine := e₄ }
    let r : Out := match res with
      | .ok id => w.addBinding id cmd.connectionId cmd.consumerConfig.id cmd.subscriptionConfig.id
          (deliverFloorFor cmd.deliverPolicy cmd.startSeq) cmd.hasWriter
      | .error _ => (w, [])
    Out.andThen r fun w =>
      let w := w.dropBindings delta.bindingsRetired
      (w, [.rewindReleased (w.resumeSeq cmd), .publish w.snapshot, .releaseGate])
  else ({ w with engine := e₃ }, [])

/-- One binding of `handle_unsubscribe`. -/
def unsubscribeOne (r : Out) (a : ActiveBinding) : Out :=
  r.andThen fun w =>
    let (engine, delta) := w.engine.unsubscribe a.bindingId
    Out.andThen ({ w with engine := engine }, [.decDemand a.streamId]) fun w =>
      w.applyDeltaAndSync delta false

/-- `handle_unsubscribe`: the id is read as a consumer id, and every binding of that
consumer is retired. -/
def handleUnsubscribe (sid : SubscriptionId) : Out :=
  Out.andThen ((w.bindings.filter (·.consumerId == sid)).foldl unsubscribeOne (w, []))
    rebuildAndSwapSnapshot

def handleBind (cmd : BindCmd) : Out :=
  let (res, engine, delta) := w.engine.subscribe cmd.connectionId cmd.subscriptionId
  let w := { w with engine := engine }
  let policy := cmd.registryPolicy.getD (0, 0)
  let r : Out := match res with
    | .ok id =>
      Out.andThen (w.addBinding id cmd.connectionId cmd.subscriptionId cmd.subscriptionId
        (deliverFloorFor policy.1 policy.2) cmd.hasWriter) fun w => (w, [.rewindAll])
    | .error _ => (w, [])
  Out.andThen r fun w =>
    let w := w.dropBindings delta.bindingsRetired
    (w, [.publish w.snapshot, .releaseGate])

/-! ## Streams, consumers and connections -/

/-- `handle_create_stream`; `lastSeq` is the store's. -/
def handleCreateStream (config : StreamConfig) (maxAgeMs lastSeq : ℕ) : Out :=
  let (engine, ok) := w.engine.createStream config
  let w := { w with engine := engine }
  if ok.toBool && (w.streamRetention.lookup config.id).isNone then
    let createdAtSeq := if w.replayMode then 0 else (lastSeq + 1) % 2 ^ 64
    { w with streamRetention := w.streamRetention.insert config.id ⟨maxAgeMs, createdAtSeq⟩ }
      |>.rebuildAndSwapSnapshot
  else (w, [])

def handleDeleteStream (id : StreamId) : Out :=
  let decs := (w.bindings.filter (·.streamId == id)).map fun _ => Effect.decDemand id
  let (engine, delta) := w.engine.deleteStream id
  Out.andThen ({ w with engine := engine }, decs) fun w =>
    Out.andThen (w.applyDeltaAndSync delta false) fun w =>
      { w with streamRetention := w.streamRetention.erase id }.rebuildAndSwapSnapshot

/-- `handle_create_consumer`: the subject limits are set for a new consumer only. -/
def handleCreateConsumer (wireHash32 : WireHash) (w : Worker) (config : ConsumerConfig)
    (limits : List (Bytes × ℕ)) : Out :=
  let (engine, res) := w.engine.createConsumer config
  let engine := match res with
    | .ok true => limits.foldl (fun e l => e.setMaxSubjectInflight wireHash32 config.streamId l.1 l.2) engine
    | _ => engine
  ({ w with engine := engine }, [])

/-- `handle_delete_consumer`: the removal is announced twice. -/
def handleDeleteConsumer (c : ConsumerId) : Out :=
  let decs := (w.bindings.filter (·.consumerId == c)).map fun a => Effect.decDemand a.streamId
  let (engine, delta) := w.engine.deleteConsumer c
  Out.andThen ({ w with engine := engine }, decs) fun w =>
    Out.andThen (w.applyDeltaAndSync delta false) fun w =>
      let keys := (w.dlqNackCounts.entries.map Sigma.fst).filter (·.1 == c)
      let w := { w with dlqNackCounts := keys.foldl (fun m k => m.erase k) w.dlqNackCounts }
      (w, [.consumerRemoved c, .releaseGate, .publish w.snapshot])

/-- The body of `handle_drain_connection`, after the notifications. -/
def drainConnectionBody (conn : ConnectionId) : Out :=
  let decs := (w.bindings.filter (·.connectionId == conn)).map fun a => Effect.decDemand a.streamId
  let (engine, delta) := w.engine.markConnectionDead conn
  Out.andThen ({ w with engine := engine }, decs) fun w =>
    Out.andThen (w.applyDeltaAndSync delta false) rebuildAndSwapSnapshot

/-- `handle_pause_consumer` and `handle_resume_consumer`. -/
def handleSetPaused (c : ConsumerId) (paused : Bool) : Out :=
  let (engine, found) := w.engine.setPaused c paused
  ({ w with engine := engine },
    if found then [.setPaused c paused] ++ releaseGateIf (!paused) else [])

/-- `LoadStreamLifecycle`: birth seqs read from the sidecar overwrite those of known
streams. -/
def loadStreamLifecycle (births : List (StreamId × ℕ)) : Out :=
  let patch : Map StreamId StreamRetention → StreamId × ℕ → Map StreamId StreamRetention := fun m sb =>
    match m.lookup sb.1 with
    | some r => m.insert sb.1 { r with createdAtSeq := sb.2 }
    | none => m
  { w with streamRetention := births.foldl patch w.streamRetention, replayMode := false }
    |>.rebuildAndSwapSnapshot

end Worker

end Arbitro
