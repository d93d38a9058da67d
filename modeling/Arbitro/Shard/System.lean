import Arbitro.Shard.Drain
import Arbitro.Shard.Task

/-!
# The shard

The two tasks of a shard together: the command task, the drain task, and what they
share. Events go to the drain through one bounded ring, notifications come back
through another; a `try_send` on a full ring fails. Counters and snapshots are shared
words. A step is one step of either task, so a run is an interleaving of the two.

The drain takes its cycle apart into the accesses other tasks can see: the rewind, one
event, the snapshot load, the walk with its flush, one recorded delivery, one report,
the cursor store, one dead connection. What a walk reads of the words that others
change meanwhile comes from outside, as in `Cycle`; the access to the cursor word is
taken apart further in `CursorRace`.
-/

namespace Arbitro

def drainEventCap : ℕ := 2048

/-- The capacity of `NotifyRing`. -/
def notifyCap : ℕ := 8192

/-- What a walk finds outside the shard, and what its reads of the shared words return. -/
structure Surroundings where
  store : StoreView
  nowMs : ℕ
  reads : ℕ → EntryReads
  writers : ℕ → WriterState
  /-- Has the stall clock of a connection run out? -/
  expired : ConnectionId → Bool

/-- Where the drain task stands in its loop. -/
inductive DrainPhase where
  /-- Before `apply_rewind`. -/
  | top
  /-- In `drain_event_ring`. -/
  | events
  /-- The event ring was empty. -/
  | ready
  /-- The snapshot is loaded. -/
  | loaded (snapId : ℕ)
  /-- In `record_deliveries`, with the deliveries it still has to record. -/
  | record (r : CycleResult) (snapId : ℕ) (dead : List ConnectionId) (left : List PendingNotify)
  /-- In `notify_delivered_grouped`, with the reports it still has to push. -/
  | report (r : CycleResult) (dead : List ConnectionId) (left : List DrainNotification)
  /-- In `report_dead_connections`. -/
  | dead (left : List ConnectionId)

/-- The state of a shard. The last three fields are a record of what happened that no
task reads: what was sent to a consumer and not released since, what the consumers that
exist have acked, and what was released and not acked. -/
structure Shard where
  task : CommandTask := {}
  counters : SharedCounters := {}
  /-- The snapshots published so far; the last one is current. -/
  snaps : List DrainSnapshot := [.empty]
  events : List DrainEvent := []
  notices : List DrainNotification := []
  slots : Slots := fun _ => none
  memory : Memory := {}
  stalled : List ConnectionId := []
  phase : DrainPhase := .top
  sent : List (ConsumerId × ℕ) := []
  acked : List (ConsumerId × ℕ) := []
  released : List (ConsumerId × ℕ) := []

inductive ShardAction where
  /-- The command task takes a command. -/
  | start (j : Job)
  /-- The command task is at the top of its loop. -/
  | loopTop
  /-- The next step of the command task. -/
  | work
  /-- The next step of the drain task, unless it is the walk. -/
  | drain
  /-- The drain walks and flushes. -/
  | walk (x : Surroundings)

/-- The effects a handler that runs next will ask for. -/
def CommandTask.produces (wireHash32 : WireHash) (t : CommandTask) (popped : Option DrainNotification) : List Effect :=
  match t.todo, popped with
  | .job j :: _, _ => (t.worker.exec wireHash32 j).2
  | .popNotifications :: _, some n => (t.worker.handleNotification n).2
  | _, _ => []

/-- The deliveries for which an effect sends an event with `op`. -/
def Effect.settling (op : SuppressOp) : Effect → List (ConsumerId × ℕ)
  | .ackEvent e => if e.op = op then [(e.consumerId, e.seq)] else []
  | _ => []

namespace Shard

variable (wireHash32 : WireHash) (cfg : DrainConfig) (s : Shard)

/-- The snapshots by the number of their publication. -/
def snapshots : ℕ → DrainSnapshot := fun i => s.snaps[i]?.getD .empty

/-! ## The command task -/

/-- What a signal of the command task does to the shared state. -/
def applySignal : Signal → Shard
  | .ring e => { s with events := s.events ++ [e] }
  | .shared (.publish snap) => { s with snaps := s.snaps ++ [snap] }
  | .shared e => { s with counters := s.counters.applyEffect e }

/-- The notification ring after a step of the command task. -/
def popNotice : List DrainNotification :=
  match s.task.todo with
  | .popNotifications :: _ => s.notices.tail
  | _ => s.notices

/-- Does the event ring have room for one more? -/
def room : Bool := s.events.length < drainEventCap

/-- Keep the record: what a handler settles leaves `sent` or enters `acked`. -/
def note (es : List Effect) : Shard :=
  let acks := es.flatMap (Effect.settling .acked)
  let releases := es.flatMap (Effect.settling .released)
  let known : ConsumerId × ℕ → Bool := fun p => (s.task.worker.engine.catalog.consumer p.1).isSome
  { s with
    sent := s.sent.filter fun p => !releases.contains p
    acked := (s.acked ++ acks).filter known
    released := (s.released.filter (fun p => !acks.contains p) ++ releases).filter known }

/-- One step of the command task. -/
def command (a : CommandAction) : Shard :=
  let (task, signals) := s.task.step wireHash32 a
  signals.foldl applySignal { s with task := task }

/-- The next step of the command task. -/
def work (s : Shard) : Shard :=
  let popped := s.notices.head?
  let s' := s.command wireHash32 (.work s.room popped)
  { s' with notices := s.popNotice }.note (s.task.produces wireHash32 popped)

/-! ## The drain task -/

/-- The cycle of a walk: what the drain loads now, and the rest from outside. -/
def cycle (snapId : ℕ) (x : Surroundings) : Cycle where
  snapId := snapId
  slots := s.slots
  cursor := s.counters.cursor
  anyDemand := s.counters.hasAnyDemand
  store := x.store
  nowMs := x.nowMs
  reads := x.reads
  writers := x.writers

/-- `try_send` on the notification ring; on a full ring the notification is lost. -/
def push (n : DrainNotification) : Shard :=
  if s.notices.length < notifyCap then { s with notices := s.notices ++ [n] } else s

/-- The reports of a cycle. -/
def reports (snapId : ℕ) (r : CycleResult) : List DrainNotification :=
  (notifyGroups (s.snapshots snapId).bindings r.flushed r.read.walk.deliveries).filterMap
    (deliveredTo (s.snapshots snapId).bindings)

/-- The next step of the drain task, unless it is the walk. -/
def drainStep : Shard :=
  match s.phase with
  | .top => { s with counters := s.counters.applyRewind, phase := .events }
  | .events =>
    match s.events with
    | e :: es => { s with events := es, slots := s.slots.applyEvent e }
    | [] => { s with phase := .ready }
  | .ready => { s with phase := .loaded (s.snaps.length - 1) }
  | .loaded _ => s
  | .record r snapId dead (d :: left) =>
    let (counters, slots) := recordOne (s.counters, s.slots) d
    { s with counters := counters, slots := slots, phase := .record r snapId dead left }
  | .record r snapId dead [] => { s with phase := .report r dead (s.reports snapId r) }
  | .report r dead (n :: left) => { s.push n with phase := .report r dead left }
  | .report r dead [] => { s with counters := s.counters.setCursor r.cursor, phase := .dead dead }
  | .dead (conn :: left) => { s.push (.connectionDead conn) with phase := .dead left }
  | .dead [] => { s with phase := .top }

/-- The deliveries of a cycle that owe an ack and whose own frame was accepted. -/
def accepted (r : CycleResult) : List (ConsumerId × ℕ) :=
  (r.read.walk.deliveries.filter fun d => r.flushed.any fun f =>
    f.2 == .ok && f.1.connectionId == d.conn && f.1.streamId == d.stream &&
      f.1.entries.any fun e => e.consumerId == d.consumerId && e.seq == d.seq).map fun d => (d.consumerId, d.seq)

/-- The walk, with its flush. -/
def walk (s : Shard) (x : Surroundings) : Shard :=
  match s.phase with
  | .loaded snapId =>
    let c := s.cycle snapId x
    let memory := s.memory.next wireHash32 cfg s.snapshots c
    match s.memory.cycle wireHash32 cfg s.snapshots c with
    | none => { s with memory := memory, phase := .top }
    | some r =>
      let stall := stallAfter cfg.stallEvict x.expired s.stalled r.flushed
      { s with
        memory := memory
        stalled := stall.stalled
        phase := .record r snapId stall.dead (recorded r.flushed r.read.walk.deliveries)
        sent := s.sent ++ accepted r }
  | _ => s

/-! ## Runs -/

/-- One step of either task. -/
def step : ShardAction → Shard
  | .start j => s.command wireHash32 (.start j)
  | .loopTop => s.command wireHash32 .loopTop
  | .work => s.work wireHash32
  | .drain => s.drainStep
  | .walk x => s.walk wireHash32 cfg x

/-- `DrainWorker::run` up to its loop: the cursor starts at the end of the store. -/
def boot (lastSeq : ℕ) (cursors : Map ConsumerId ℕ) : Shard where
  task := { worker := { consumerCursor := cursors, replayMode := true } }
  counters := { cursor := lastSeq }

end Shard

end Arbitro
