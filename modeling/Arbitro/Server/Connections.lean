import Arbitro.Server.Admin
import Arbitro.Server.Cron
import Arbitro.Shard.Task

/-!
# Connections and their teardown

What a broker keeps under the id of a connection: bindings in the shards, crons it works on, the
translations of its subscription ids, its session and its quota counts. A frame of a connection
is one action, and so is the teardown of one: the drains run on different shards.

Replies are left out. A full outbound queue evicts the connection it belongs to; that, the sweep
of idle connections and a failed write are actions of their own, which may follow any frame.
Publishes and queries touch nothing of this.
-/

namespace Arbitro

/-! ## The connection registry -/

structure ConnQuota where
  streams : ℕ := 0
  consumers : ℕ := 0
  crons : ℕ := 0
  deriving DecidableEq, Repr

inductive QuotaKind where
  | stream
  | consumer
  | cron
  deriving DecidableEq, Repr

/-- `QuotaLimits`; zero is no limit. -/
structure QuotaLimits where
  maxStreamsPerConn : ℕ := 1000
  maxConsumersPerConn : ℕ := 1000
  maxCronsPerConn : ℕ := 1000
  deriving DecidableEq, Repr

def QuotaLimits.limit (l : QuotaLimits) : QuotaKind → ℕ
  | .stream => l.maxStreamsPerConn
  | .consumer => l.maxConsumersPerConn
  | .cron => l.maxCronsPerConn

def ConnQuota.counter (q : ConnQuota) : QuotaKind → ℕ
  | .stream => q.streams
  | .consumer => q.consumers
  | .cron => q.crons

def ConnQuota.set (q : ConnQuota) (n : ℕ) : QuotaKind → ConnQuota
  | .stream => { q with streams := n }
  | .consumer => { q with consumers := n }
  | .cron => { q with crons := n }

structure ConnectionRegistry where
  /-- The connections with a session. -/
  sessions : List ConnectionId := []
  /-- `conn_id_gen`. -/
  nextConn : ConnectionId := 1
  quotas : Map ConnectionId ConnQuota := ∅
  quotaLimits : QuotaLimits := {}

variable (r : ConnectionRegistry) (conn : ConnectionId)

namespace ConnectionRegistry

def register : ConnectionRegistry :=
  { r with sessions := r.sessions ++ [r.nextConn], nextConn := r.nextConn + 1 }

def remove : ConnectionRegistry :=
  { r with sessions := r.sessions.filter (· != conn), quotas := r.quotas.erase conn }

/-- What the writer task does when a write has failed. -/
def dropSession : ConnectionRegistry :=
  { r with sessions := r.sessions.filter (· != conn) }

/-- `check_and_incr_quota`. The counts of a connection are made when they are first asked for. -/
def checkAndIncrQuota (kind : QuotaKind) : Bool × ConnectionRegistry :=
  if r.quotaLimits.limit kind = 0 then (true, r)
  else
    let q := (r.quotas.lookup conn).getD {}
    if r.quotaLimits.limit kind ≤ q.counter kind then (false, { r with quotas := r.quotas.insert conn q })
    else (true, { r with quotas := r.quotas.insert conn (q.set (q.counter kind + 1) kind) })

def releaseQuota (kind : QuotaKind) : ConnectionRegistry :=
  match r.quotas.lookup conn with
  | none => r
  | some q => { r with quotas := r.quotas.insert conn (q.set (q.counter kind - 1) kind) }

end ConnectionRegistry

def NameRegistry.dropConnectionSubscriptions (r : NameRegistry) (conn : ConnectionId) : NameRegistry :=
  { r with
    subscriptionsByConn := r.subscriptionsByConn.retain fun key sid => if key.1 = conn then none else some sid }

/-- A shard handles a command: the checks, then the body. The notifications it pops in between are
actions of their own. -/
def Worker.command (wireHash32 : WireHash) (w : Worker) (j : Job) : Worker :=
  let (w, todo) := CommandTask.plan w j
  todo.foldl (fun w x => match x with
    | .job j => (w.exec wireHash32 j).1
    | _ => w) w

/-! ## Frames -/

def maxSubscribeBatch : ℕ := 1024

/-- The frames that touch what is kept under a connection's id. A body that does not decode is
`none` where the quota is counted before the body is read. -/
inductive Frame where
  | subscribe (req : SubscribeReq)
  | subscribeBatch (entries : List SubscribeReq)
  | unsubscribe (consumer : ConsumerId)
  | ack (shard : ℕ) (cmd : AckCmd)
  | nack (shard : ℕ) (cmd : NackCmd)
  | setPaused (shard : ℕ) (consumer : ConsumerId) (paused : Bool)
  | createStream (req : Option CreateStreamReq)
  | deleteStream (name : Bytes)
  | createConsumer (req : CreateConsumerReq) (journalTail : ℕ)
  | deleteConsumer (consumer : ConsumerId)
  | createCron (req : Option CreateCronReq)
  | deleteCron (name : Bytes)
  | cronAck (name : Bytes)
  | disconnect

/-- A broker with its connections. -/
structure Hub where
  names : NameRegistry := {}
  shardCount : ℕ
  workers : ℕ → Worker := fun _ => {}
  crons : CronRegistry := ∅
  registry : ConnectionRegistry := {}
  /-- The connections whose read loop runs. -/
  reading : List ConnectionId := []

namespace Hub

section Frames

variable (wireHash32 : WireHash) (validCron : Bytes → Bool)

def shardFor (h : Hub) (id : StreamId) : ℕ := id % h.shardCount

/-- A shard handles a command. -/
def exec (h : Hub) (i : ℕ) (j : Job) : Hub :=
  { h with workers := Function.update h.workers i ((h.workers i).command wireHash32 j) }

/-- The broker as the management requests see it. -/
def admin (h : Hub) : AdminBroker where
  names := h.names
  shardCount := h.shardCount
  engines i := (h.workers i).engine

/-- What a management request that retires no binding leaves. -/
def administered (h : Hub) (b : AdminBroker) : Hub :=
  { h with names := b.names, workers := fun i => { h.workers i with engine := b.engines i } }

def subscribeOne (h : Hub) (conn : ConnectionId) (req : SubscribeReq) : Hub :=
  if req.filters.any fun f => !f.isEmpty && !validateSubject f then h
  else
    match h.names.consumerStream req.consumerId with
    | none => h
    | some stream =>
      let (queue, names) := h.admin.servedBy stream req.consumerId
      match SubscriptionRules.onCreate req.subscriptionId (req.filters.filter fun f => !f.isEmpty)
          (names.consumerFilters req.consumerId) with
      | .error _ => { h with names := names }
      | .ok filters =>
        let (sid, names) := names.resolveSubscription conn req.subscriptionId
        let deliver := (names.consumerDeliver.lookup req.consumerId).getD (0, 0)
        exec wireHash32 { h with names := names } (h.shardFor stream) (.subscribe
          { streamConfig := ⟨stream, []⟩
            consumerConfig := AdminBroker.bareConfig req.consumerId queue stream
            subscriptionConfig := ⟨sid, req.subscriptionId, stream, req.consumerId, filters⟩
            connectionId := conn
            deliverPolicy := deliver.1
            startSeq := deliver.2
            hasWriter := h.registry.sessions.contains conn })

/-- The entries of a `SubscribeBatch`, but those whose id came before. -/
def subscribeEach (conn : ConnectionId) : Hub → List ℕ → List SubscribeReq → Hub
  | h, _, [] => h
  | h, seen, req :: reqs =>
    if seen.contains req.subscriptionId then subscribeEach conn h seen reqs
    else subscribeEach conn (h.subscribeOne wireHash32 conn req) (seen ++ [req.subscriptionId]) reqs

/-- `v2_create_stream`. -/
def createStream (h : Hub) (conn : ConnectionId) (req : Option CreateStreamReq) : Hub :=
  let (quota, registry) := h.registry.checkAndIncrQuota conn .stream
  let h := { h with registry := registry }
  match req with
  | none => h
  | some req => h.administered (h.admin.createStream wireHash32 req quota).1

/-- The checks of `v2_create_consumer` ahead of the quota. -/
def validConsumer (names : NameRegistry) (req : CreateConsumerReq) : Bool :=
  (names.streamSeq req.streamId).isSome && validateName req.name && !req.group.isEmpty && validateName req.group &&
    (req.subject.isEmpty || validateSubject req.subject)

/-- `v2_create_consumer`. The unit of quota is given back unless a consumer was made or the rules
refused it. -/
def createConsumer (h : Hub) (conn : ConnectionId) (req : CreateConsumerReq) (journalTail : ℕ) : Hub :=
  if !validConsumer h.names req then h
  else
    let (quota, registry) := h.registry.checkAndIncrQuota conn .consumer
    let (b, reply) := h.admin.createConsumer wireHash32 req quota journalTail
    let kept := !quota || !b.log.isEmpty || reply == .repError .invalidConsumerFilter
    { h.administered b with registry := if kept then registry else registry.releaseQuota conn .consumer }

/-- `v2_delete_stream`. -/
def deleteStream (h : Hub) (name : Bytes) : Hub :=
  match h.names.streamSeq (wireHash32 name) with
  | none => h
  | some id =>
    { h.exec wireHash32 (h.shardFor id) (.deleteStream id) with
      names := (h.admin.deleteStream wireHash32 0 name).1.names }

/-- `v2_delete_consumer`. -/
def deleteConsumer (h : Hub) (id : ConsumerId) : Hub :=
  let i := match h.names.consumerStream id with
    | some stream => h.shardFor stream
    | none => 0
  { h.exec wireHash32 i (.deleteConsumer id) with names := h.names.removeConsumerById id }

/-- `v2_create_cron`. -/
def createCron (h : Hub) (conn : ConnectionId) (req : Option CreateCronReq) : Hub :=
  let (quota, registry) := h.registry.checkAndIncrQuota conn .cron
  let h := { h with registry := registry }
  match quota, req with
  | true, some req =>
    match h.crons.create validCron req conn with
    | .ok crons => { h with crons := crons }
    | .error _ => h
  | _, _ => h

/-! ## Teardown -/

/-- Every shard drains the connection. -/
def drainConnection (h : Hub) (conn : ConnectionId) : Hub :=
  { h with
    workers := fun i =>
      if i < h.shardCount then (h.workers i).command wireHash32 (.drainConnection conn) else h.workers i }

/-- `v2_disconnect`. The read loop goes on. -/
def disconnect (h : Hub) (conn : ConnectionId) : Hub :=
  { h.drainConnection wireHash32 conn with
    crons := h.crons.removeConnection conn
    names := h.names.dropConnectionSubscriptions conn
    registry := h.registry.remove conn }

/-- The end of `read_loop`, whatever made it leave. -/
def leave (h : Hub) (conn : ConnectionId) : Hub :=
  { h.drainConnection wireHash32 conn with
    registry := h.registry.remove conn
    reading := h.reading.filter (· != conn) }

/-- `dispatch_frame_v2`. -/
def dispatchFrame (h : Hub) (conn : ConnectionId) : Frame → Hub
  | .subscribe req => h.subscribeOne wireHash32 conn req
  | .subscribeBatch entries =>
    if entries.isEmpty || maxSubscribeBatch < entries.length then h else subscribeEach wireHash32 conn h [] entries
  | .unsubscribe consumer =>
    match h.names.consumerStream consumer with
    | none => h
    | some stream => h.exec wireHash32 (h.shardFor stream) (.unsubscribe consumer)
  | .ack shard cmd => h.exec wireHash32 shard (.ack cmd)
  | .nack shard cmd => h.exec wireHash32 shard (.nack cmd)
  | .setPaused shard consumer paused => h.exec wireHash32 shard (.setPaused consumer paused)
  | .createStream req => h.createStream wireHash32 conn req
  | .deleteStream name => h.deleteStream wireHash32 name
  | .createConsumer req journalTail => h.createConsumer wireHash32 conn req journalTail
  | .deleteConsumer consumer => h.deleteConsumer wireHash32 consumer
  | .createCron req => h.createCron validCron conn req
  | .deleteCron name => { h with crons := h.crons.delete name }
  | .cronAck name => { h with crons := h.crons.ack name }
  | .disconnect => h.disconnect wireHash32 conn

end Frames

end Hub

inductive HubAction where
  /-- A connection is accepted. -/
  | accept
  /-- The read loop of a connection dispatches a frame. -/
  | frame (conn : ConnectionId) (f : Frame)
  /-- The connection is evicted: its queue is full, or it has been idle. -/
  | evict (conn : ConnectionId)
  /-- A write to the connection has failed. -/
  | writeFailed (conn : ConnectionId)
  /-- The read loop of a connection ends: end of stream, I/O error, an oversized or malformed frame,
  shutdown. -/
  | leave (conn : ConnectionId)
  | cronTick (elapsed due : Bytes → Bool)
  /-- The timers of a shard. -/
  | timers (shard : ℕ) (due : List WheelEntry)
  /-- A shard pops a notification of its drain. -/
  | notification (shard : ℕ) (n : DrainNotification)

def Hub.step (wireHash32 : WireHash) (validCron : Bytes → Bool) (h : Hub) : HubAction → Hub
  | .accept => { h with registry := h.registry.register, reading := h.reading ++ [h.registry.nextConn] }
  | .frame conn f => if h.reading.contains conn then h.dispatchFrame wireHash32 validCron conn f else h
  | .evict conn => { h with registry := h.registry.remove conn }
  | .writeFailed conn => { h with registry := h.registry.dropSession conn }
  | .leave conn => if h.reading.contains conn then h.leave wireHash32 conn else h
  | .cronTick elapsed due => { h with crons := (h.crons.tick elapsed due).2 }
  | .timers shard due => h.exec wireHash32 shard (.timers due)
  | .notification shard n =>
    { h with workers := Function.update h.workers shard ((h.workers shard).handleNotification n).1 }

end Arbitro
