import Arbitro.Server.Delayed
import Arbitro.Server.Registry
import Arbitro.Shard.Task

/-!
# Streams across restarts

What a broker keeps of its streams: the registry in memory, the command log, and per shard the
worker, the journal and the sidecar with the birth seqs. A restart replays the log, first into
the registry and then into the shards, and patches the birth seqs from the sidecar. A crash
while the sidecar is written leaves a first part of it and no record in the log.

A publish looks its stream up and appends later, under the numeric id it found; a delayed one
waits in the journal of delayed messages in between. Meanwhile streams come and go, and the
pool gives the id of a deleted stream to the next one that is created.

Journals and log are durable, record by record. Of the log only the commands on streams are
modelled. `epochs`, `published` and `origins` are books: how often each id was given to a new
stream, and which holder of its id each message was published to.
-/

namespace Arbitro

variable (wireHash32 : WireHash)

/-! ## The sidecar -/

namespace Sidecar

/-- One record: the stream id in four bytes, its birth seq in eight. -/
def record (x : StreamId × ℕ) : Bytes := LittleEndian.encode 4 x.1 ++ LittleEndian.encode 8 x.2

/-- `save_stream_lifecycle`. -/
def image (retention : Map StreamId StreamRetention) : Bytes :=
  (retention.entries.map fun e => (e.1, e.2.createdAtSeq)).flatMap record

def readRecord (bytes : Bytes) : StreamId × ℕ :=
  (LittleEndian.decode (bytes.take 4), LittleEndian.decode (bytes.drop 4))

/-- `load_stream_lifecycle`: a missing file and one of an odd length give nothing. -/
def births : Option Bytes → List (StreamId × ℕ)
  | none => []
  | some bytes => if bytes.length % 12 ≠ 0 then [] else LittleEndian.parse 12 readRecord (bytes.length / 12) bytes

end Sidecar

/-! ## The broker -/

/-- The records of the command log that concern streams. -/
inductive MetadataCmd where
  | createStream (name : Bytes) (maxAgeMs : ℕ)
  | deleteStream (name : Bytes)
  deriving DecidableEq, Repr

/-- A buffered command of the replay. -/
inductive ReplayCommand where
  | createStream (id : StreamId) (name : Bytes) (maxAgeMs : ℕ)
  | deleteStream (id : StreamId)
  deriving DecidableEq, Repr

def ReplayCommand.streamId : ReplayCommand → StreamId
  | .createStream id _ _ => id
  | .deleteStream id => id

/-- What the worker of the stream's shard is told; in replay the tail is not read. -/
def ReplayCommand.job : ReplayCommand → Job
  | .createStream id name maxAgeMs => .createStream ⟨id, name⟩ maxAgeMs 0
  | .deleteStream id => .deleteStream id

structure LifeShard where
  worker : Worker := {}
  store : Journal := {}
  sidecar : Option Bytes := none

/-- A publish that has found its stream, and which holder of the id that was. -/
structure Lookup where
  entry : EntryRef
  epoch : ℕ
  deriving DecidableEq, Repr

/-- An entry of the main store, and which holder of its stream id it was published to. -/
structure Published where
  streamId : StreamId
  seq : ℕ
  epoch : ℕ
  /-- The holder of the id when the entry was appended. -/
  holder : Option ℕ
  deriving DecidableEq, Repr

structure Broker where
  names : StreamRegistry := {}
  log : List MetadataCmd := []
  shardCount : ℕ
  shards : ℕ → LifeShard := fun _ => {}
  lookups : List Lookup := []
  line : DelayLine := {}
  epochs : StreamId → ℕ := fun _ => 0
  published : List Published := []
  /-- By the offset of the record in the journal of delayed messages. -/
  origins : ℕ → ℕ := fun _ => 0

variable (b : Broker)

namespace Broker

def shardFor (id : StreamId) : ℕ := id % b.shardCount

def setShard (i : ℕ) (s : LifeShard) : Broker := { b with shards := Function.update b.shards i s }

/-! ## Recovery -/

/-- `ReplayApplier::apply`: the registry at once, the command for later. -/
def apply (x : StreamRegistry × List ReplayCommand) : MetadataCmd → StreamRegistry × List ReplayCommand
  | .createStream name maxAgeMs =>
    match x.1.getOrCreateStream (wireHash32 name) with
    | some (id, _, names) => (names, x.2 ++ [.createStream id name maxAgeMs])
    | none => x
  | .deleteStream name =>
    match x.1.streamSeq (wireHash32 name) with
    | some id => (x.1.removeStream (wireHash32 name), x.2 ++ [.deleteStream id])
    | none => x

/-- The registry and the buffered commands after the log was read. -/
def replay (log : List MetadataCmd) : StreamRegistry × List ReplayCommand :=
  log.foldl (apply wireHash32) ({}, [])

/-- `ReplayApplier::flush`, for the commands of one shard, into a new worker. -/
def flush (cmds : List ReplayCommand) : Worker :=
  cmds.foldl (fun w cmd => (w.exec wireHash32 cmd.job).1) { replayMode := true }

/-- The start of the server on what is durable. -/
def restart (nowMs : ℕ) (b : Broker) : Broker :=
  let r := replay wireHash32 b.log
  { b with
    names := r.1
    lookups := []
    line := b.line.step (.crash .between nowMs)
    shards := fun i =>
      let w := flush wireHash32 (r.2.filter fun cmd => b.shardFor cmd.streamId == i)
      let load := Job.loadStreamLifecycle (Sidecar.births (b.shards i).sidecar)
      { b.shards i with worker := (w.exec wireHash32 load).1 } }

/-! ## Requests -/

/-- Does the worker have retention settings for the stream? -/
def knows (w : Worker) (id : StreamId) : Bool := (w.streamRetention.lookup id).isSome

/-- `save_stream_lifecycle` after a command, except in replay. -/
def save (s : LifeShard) : LifeShard :=
  if s.worker.replayMode then s else { s with sidecar := some (Sidecar.image s.worker.streamRetention) }

/-- The worker of a shard takes a command. -/
def take (s : LifeShard) (j : Job) : LifeShard :=
  { s with worker := (s.worker.exec wireHash32 j).1 }

/-- `handle_create_stream`: saved only if the stream is new. -/
def handleCreate (s : LifeShard) (id : StreamId) (name : Bytes) (maxAgeMs : ℕ) : LifeShard × Bool :=
  let s' := take wireHash32 s (.createStream ⟨id, name⟩ maxAgeMs s.store.lastSeq)
  if !knows s.worker id && knows s'.worker id then (save s', true) else (s', false)

/-- `handle_delete_stream`. -/
def handleDelete (s : LifeShard) (id : StreamId) : LifeShard :=
  save (take wireHash32 s (.deleteStream id))

/-- `v2_create_stream`: the registry, the shard, the log. -/
def createStream (wireHash32 : WireHash) (b : Broker) (name : Bytes) (maxAgeMs : ℕ) (admitted : Bool) : Broker :=
  match b.names.getOrCreateStreamChecked (wireHash32 name) name admitted with
  | none => b
  | some (id, created, names) =>
    let i := b.shardFor id
    { b.setShard i (handleCreate wireHash32 (b.shards i) id name maxAgeMs).1 with
      names := names
      log := b.log ++ [.createStream name maxAgeMs]
      epochs := if created then Function.update b.epochs id (b.epochs id + 1) else b.epochs }

/-- `v2_delete_stream`: the shard, the registry, the log. -/
def deleteStream (wireHash32 : WireHash) (b : Broker) (name : Bytes) : Broker :=
  match b.names.streamSeq (wireHash32 name) with
  | none => b
  | some id =>
    let i := b.shardFor id
    { b.setShard i (handleDelete wireHash32 (b.shards i) id) with
      names := b.names.removeStream (wireHash32 name)
      log := b.log ++ [.deleteStream name] }

/-- The stream that has an id, if one has. -/
def holder (id : StreamId) : Option ℕ :=
  if b.names.streamsByWire.entries.any (·.2 == id) then some (b.epochs id) else none

/-- An entry for the journal of the shard that its stream id is on. -/
def append (b : Broker) (entry : EntryRef) (epoch timestamp : ℕ) : Broker :=
  let i := b.shardFor entry.streamId
  let s := b.shards i
  { b.setShard i { s with store := s.store.append entry timestamp } with
    published := b.published ++ [⟨entry.streamId, s.store.nextSeq, epoch, b.holder entry.streamId⟩] }

/-- The start of a publish, delayed or not. -/
def lookup (wire : SubjectHash) (subject payload : Bytes) (flags : ℕ) : Broker :=
  match b.names.streamSeq wire with
  | none => b
  | some id => { b with lookups := b.lookups ++ [⟨⟨id, subject, payload, flags⟩, b.epochs id⟩] }

/-- The rest of the `k`-th publish; the duplicate check, the quota or the store may refuse it. -/
def publish (k timestamp : ℕ) (accepted : Bool) : Broker :=
  match b.lookups[k]? with
  | none => b
  | some l =>
    let b := { b with lookups := b.lookups.eraseIdx k }
    if accepted then b.append l.entry l.epoch timestamp else b

/-- The rest of `v2_publish_delayed`, if nothing refuses it: without a delay it is that of a
publish. The sum of two `u64` wraps. -/
def publishDelayed (k nowMs delayMs : ℕ) : Broker :=
  if delayMs = 0 then b.publish k nowMs true
  else
    match b.lookups[k]? with
    | none => b
    | some l =>
      let publish := DelayAction.publish nowMs ((nowMs + delayMs) % 2 ^ 64) l.entry
      { b with
        lookups := b.lookups.eraseIdx k
        line := b.line.step publish
        origins := Function.update b.origins b.line.journal.writeOffset l.epoch }

/-- A turn of `delayed_maturation_loop` over what was popped: the stream is not asked for. -/
def store (b : Broker) (accepted : Bool) : Broker :=
  match b.line.hand with
  | [] => b
  | e :: _ =>
    let b' := { b with line := b.line.step (.store accepted) }
    if accepted then b'.append e.ref (b.origins e.fileOffset) b.line.handTime else b'

/-- Only the first `k` bytes of the sidecar reached the disk. -/
def tear (s : LifeShard) (k : ℕ) : LifeShard := { s with sidecar := s.sidecar.map (·.take k) }

/-- The crash of a create while the sidecar is written, and the start after it. -/
def crashCreate (nowMs : ℕ) (b : Broker) (name : Bytes) (maxAgeMs : ℕ) (admitted : Bool) (k : ℕ) : Broker :=
  match b.names.getOrCreateStreamChecked (wireHash32 name) name admitted with
  | none => b.restart wireHash32 nowMs
  | some (id, _, _) =>
    let i := b.shardFor id
    let (s, saved) := handleCreate wireHash32 (b.shards i) id name maxAgeMs
    (b.setShard i (if saved then tear s k else s)).restart wireHash32 nowMs

/-- The crash of a delete while the sidecar is written, and the start after it. -/
def crashDelete (nowMs : ℕ) (b : Broker) (name : Bytes) (k : ℕ) : Broker :=
  match b.names.streamSeq (wireHash32 name) with
  | none => b.restart wireHash32 nowMs
  | some id =>
    let i := b.shardFor id
    (b.setShard i (tear (handleDelete wireHash32 (b.shards i) id) k)).restart wireHash32 nowMs

/-- What can happen to a broker. `serve` is any other command of a shard. -/
inductive Action where
  | createStream (name : Bytes) (maxAgeMs : ℕ) (admitted : Bool)
  | deleteStream (name : Bytes)
  | lookup (wire : SubjectHash) (subject payload : Bytes) (flags : ℕ)
  | publish (k timestamp : ℕ) (accepted : Bool)
  | publishDelayed (k nowMs delayMs : ℕ)
  /-- The maturation loop pops what is due. -/
  | mature (nowMs : ℕ)
  /-- It appends the next popped entry to the main store, or logs an error. -/
  | store (accepted : Bool)
  | serve (i : ℕ) (j : Job)
  | restart (nowMs : ℕ)
  | crashCreate (name : Bytes) (maxAgeMs : ℕ) (admitted : Bool) (k nowMs : ℕ)
  | crashDelete (name : Bytes) (k nowMs : ℕ)

/-- Commands other than those on streams. -/
def isOther : Job → Bool
  | .createStream _ _ _ => false
  | .deleteStream _ => false
  | .loadStreamLifecycle _ => false
  | _ => true

def step (wireHash32 : WireHash) (b : Broker) : Action → Broker
  | .createStream name maxAgeMs admitted => b.createStream wireHash32 name maxAgeMs admitted
  | .deleteStream name => b.deleteStream wireHash32 name
  | .lookup wire subject payload flags => b.lookup wire subject payload flags
  | .publish k timestamp accepted => b.publish k timestamp accepted
  | .publishDelayed k nowMs delayMs => b.publishDelayed k nowMs delayMs
  | .mature nowMs => { b with line := b.line.step (.mature nowMs) }
  | .store accepted => b.store accepted
  | .serve i j =>
    if isOther j then b.setShard i (take wireHash32 (b.shards i) j) else b
  | .restart nowMs => b.restart wireHash32 nowMs
  | .crashCreate name maxAgeMs admitted k nowMs => b.crashCreate wireHash32 nowMs name maxAgeMs admitted k
  | .crashDelete name k nowMs => b.crashDelete wireHash32 nowMs name k

end Broker

end Arbitro
