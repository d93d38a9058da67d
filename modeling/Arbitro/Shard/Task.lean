import Arbitro.Shard.Worker

/-!
# The command task

The loop of `CommandWorker::run` as a machine that does one thing at a time: take
a command when idle, pop one notification, run one handler body, perform one
effect, retry one queued event. Between any two of its steps the drain may act,
so whether the event ring has room and which notification is popped comes from
outside.
-/

namespace Arbitro

variable (wireHash32 : WireHash)

/-- The commands that reach a worker's handlers, and the timer pass. Queries and the
commands that only touch the store are left out. -/
inductive Job where
  | ack (cmd : AckCmd)
  | nack (cmd : NackCmd)
  | subscribe (cmd : SubscribeCmd)
  | unsubscribe (sid : SubscriptionId)
  | bind (cmd : BindCmd)
  | createStream (config : StreamConfig) (maxAgeMs lastSeq : ℕ)
  | deleteStream (id : StreamId)
  | createConsumer (config : ConsumerConfig) (limits : List (Bytes × ℕ))
  | deleteConsumer (c : ConsumerId)
  | openConnection (conn : ConnectionId) (node : NodeId)
  | drainConnection (conn : ConnectionId)
  | setPaused (c : ConsumerId) (paused : Bool)
  | loadStreamLifecycle (births : List (StreamId × ℕ))
  | timers (due : List WheelEntry)

/-- Run the handler body of a command. -/
def Worker.exec (w : Worker) : Job → Worker.Out
  | .ack cmd => w.ackBody cmd
  | .nack cmd => w.nackBody cmd
  | .subscribe cmd => w.handleSubscribe wireHash32 cmd
  | .unsubscribe sid => w.handleUnsubscribe sid
  | .bind cmd => w.handleBind cmd
  | .createStream config maxAgeMs lastSeq => w.handleCreateStream config maxAgeMs lastSeq
  | .deleteStream id => w.handleDeleteStream id
  | .createConsumer config limits => w.handleCreateConsumer wireHash32 config limits
  | .deleteConsumer c => w.handleDeleteConsumer c
  | .openConnection conn node => ({ w with engine := w.engine.openConnection conn node }, [])
  | .drainConnection conn => w.drainConnectionBody conn
  | .setPaused c paused => w.handleSetPaused c paused
  | .loadStreamLifecycle births => w.loadStreamLifecycle births
  | .timers due => w.wheelAdvance due

/-- What the command task still has to do, in order. -/
inductive Work where
  | effect (e : Effect)
  /-- `drain_notifications`. -/
  | popNotifications
  | job (j : Job)
  /-- The retry loop over `pending_drain_acks`: the seqs of the `Released` events
  sent so far, and whether any event was sent. -/
  | retryAcks (released : List ℕ) (sentAny : Bool)
  /-- The retry loop over `pending_consumer_remove`, at index `i`. -/
  | retryRemoves (i : ℕ)

structure CommandTask where
  worker : Worker := {}
  outbox : Outbox := {}
  todo : List Work := []

variable (t : CommandTask)

/-- What a step of the command task does to the rest of the shard. -/
inductive Signal where
  /-- An event entered the drain-event ring. -/
  | ring (e : DrainEvent)
  /-- An effect on the counters, the snapshot or the gate. -/
  | shared (e : Effect)

inductive CommandAction where
  /-- Take a command. -/
  | start (j : Job)
  /-- The top of the loop. -/
  | loopTop
  /-- Do the next thing, with `room` for one event in the ring; `popped` is what
  `try_recv` on the notification ring returns. -/
  | work (room : Bool) (popped : Option DrainNotification)

namespace CommandTask

/-- The checks a handler makes before it drains the notifications, and what it does
then. -/
def plan (w : Worker) : Job → Worker × List Work
  | .ack cmd =>
    if w.connectionOwns cmd.connId cmd.consumerId cmd.entries then (w, [.popNotifications, .job (.ack cmd)])
    else (w, [])
  | .nack cmd =>
    if w.connectionOwns cmd.connId cmd.consumerId cmd.entries then
      let (w, cmd) := w.nackCheck cmd
      (w, [.popNotifications, .job (.nack cmd)])
    else (w, [])
  | .drainConnection conn => (w, [.popNotifications, .job (.drainConnection conn)])
  | j => (w, [.job j])

/-- The seq of a `Released` event. -/
def releasedSeq (e : AckEvent) : List ℕ := if e.op = .released then [e.seq] else []

/-- Do one piece of work; `rest` is what follows. -/
def perform (rest : List Work) (room : Bool) (popped : Option DrainNotification) : Work → CommandTask × List Signal
  | .effect e =>
    let (outbox, sent) := t.outbox.emit room e
    ({ t with outbox := outbox, todo := rest }, sent.toList.map .ring ++ [.shared e])
  | .popNotifications =>
    match popped with
    | none => ({ t with todo := rest }, [])
    | some n =>
      let (w, es) := t.worker.handleNotification n
      ({ t with worker := w, todo := es.map .effect ++ .popNotifications :: rest }, [])
  | .job j =>
    let (w, es) := t.worker.exec wireHash32 j
    ({ t with worker := w, todo := es.map .effect ++ rest }, [])
  | .retryAcks released sentAny =>
    match t.outbox.pendingDrainAcks with
    | e :: q =>
      if room then
        ({ t with
            outbox := { t.outbox with pendingDrainAcks := swapRemove (e :: q) 0 }
            todo := .retryAcks (released ++ releasedSeq e) true :: rest }, [.ring (.ack e)])
      else ({ t with todo := (retryEnd released sentAny).map .effect ++ rest }, [])
    | [] => ({ t with todo := (retryEnd released sentAny).map .effect ++ rest }, [])
  | .retryRemoves i =>
    match t.outbox.pendingConsumerRemove[i]? with
    | none => ({ t with todo := rest }, [])
    | some c =>
      if room then
        let queue := swapRemove t.outbox.pendingConsumerRemove i
        ({ t with
            outbox := { t.outbox with pendingConsumerRemove := queue }
            todo := .retryRemoves i :: rest }, [.ring (.consumerRemoved c)])
      else ({ t with todo := .retryRemoves (i + 1) :: rest }, [])
where
  /-- What follows the retry loop: a fresh rewind for the `Released` events that
  went out only now. -/
  retryEnd (released : List ℕ) (sentAny : Bool) : List Effect :=
    Worker.rewindToLeast released ++ Worker.releaseGateIf sentAny

/-- One step of the command task. A command is taken only when there is nothing
left to do. -/
def step : CommandAction → CommandTask × List Signal
  | .start j =>
    match t.todo with
    | [] => let (w, todo) := plan t.worker j; ({ t with worker := w, todo := todo }, [])
    | _ :: _ => (t, [])
  | .loopTop =>
    match t.todo with
    | [] => ({ t with todo := [.popNotifications, .retryAcks [] false, .retryRemoves 0] }, [])
    | _ :: _ => (t, [])
  | .work room popped =>
    match t.todo with
    | [] => (t, [])
    | x :: rest => t.perform wireHash32 rest room popped x

/-- The task after a step. -/
def next (a : CommandAction) : CommandTask := (t.step wireHash32 a).1

/-- Everything a run does to the rest of the shard. -/
def signals (wireHash32 : WireHash) (t : CommandTask) : List CommandAction → List Signal
  | [] => []
  | a :: as => (t.step wireHash32 a).2 ++ signals wireHash32 (t.next wireHash32 a) as

end CommandTask

end Arbitro
