import Arbitro.Proof.Pool
import Arbitro.Server.Lifecycle

/-!
# Streams in the registry, the log and the workers

* `StreamRegistry.checked_cases`: what a create does to the registry.
* `Synced.restart`: a start has the streams of the log, whatever the sidecars are.
* `streams_agree`: log, registry and workers name the same streams after every run.
-/

namespace Arbitro

open StreamRegistry Worker Sidecar List Option Map Prod Function

/-! ## The worker's retention table -/

namespace Worker

variable (wh : WireHash) (w : Worker) (id : StreamId)

theorem createStream_ok (e : Engine) (config : StreamConfig) :
    (e.createStream config).2.toBool = decide (config.id ≤ maxEntityId) := by
  unfold Engine.createStream Catalog.ensureStream
  by_cases h : maxEntityId < config.id
  · simp only [h, if_true, Nat.not_le.2 h, decide_false]
    rfl
  · simp only [h, if_false, Nat.not_lt.1 h, decide_true]
    split <;> rfl

/-- A create adds a stream that is not there yet, born after the journal's last seq. -/
theorem retention_createStream (name : Bytes) (maxAgeMs lastSeq : ℕ) :
    (w.exec wh (.createStream ⟨id, name⟩ maxAgeMs lastSeq)).1.streamRetention =
      if id ≤ maxEntityId ∧ (w.streamRetention.lookup id).isNone then
        w.streamRetention.insert id ⟨maxAgeMs, if w.replayMode then 0 else (lastSeq + 1) % 2 ^ 64⟩
      else w.streamRetention := by
  have hok := createStream_ok w.engine ⟨id, name⟩
  show (w.handleCreateStream ⟨id, name⟩ maxAgeMs lastSeq).1.streamRetention = _
  unfold handleCreateStream
  simp only [hok, Bool.and_eq_true, decide_eq_true_eq]
  split <;> rfl

theorem mode_createStream (config : StreamConfig) (maxAgeMs lastSeq : ℕ) :
    (w.exec wh (.createStream config maxAgeMs lastSeq)).1.replayMode = w.replayMode := by
  show (w.handleCreateStream config maxAgeMs lastSeq).1.replayMode = _
  unfold handleCreateStream
  simp only
  split <;> rfl

theorem retention_deleteStream :
    (w.exec wh (.deleteStream id)).1.streamRetention = w.streamRetention.erase id := rfl

/-- What the commands on streams change. -/
def ages (w : Worker) : Map StreamId StreamRetention × Bool := (w.streamRetention, w.replayMode)

theorem ages_other {j : Job} (h : Broker.isOther j = true) : (w.exec wh j).1.ages = w.ages := by
  cases j with
  | nack cmd =>
    show (w.nackBody cmd).1.ages = _
    unfold nackBody Out.andThen
    simp only
    split <;> rfl
  | subscribe cmd =>
    show (w.handleSubscribe wh cmd).1.ages = _
    unfold handleSubscribe
    simp only
    split
    · split <;> rfl
    · rfl
  | unsubscribe sid =>
    exact foldlRecOn _ unsubscribeOne (motive := fun x : Out => x.1.ages = w.ages) rfl fun _ h _ _ => h
  | bind cmd =>
    show (w.handleBind cmd).1.ages = _
    unfold handleBind
    simp only
    split <;> rfl
  | timers due =>
    have hfold (ts : List WheelEntry) (x : Expired) : (ts.foldl expireEntry x).worker.ages = x.worker.ages := by
      refine foldlRecOn ts expireEntry (motive := (·.worker.ages = x.worker.ages)) rfl fun y h t _ => ?_
      rw [← h]
      unfold expireEntry
      split
      · rfl
      · split <;> rfl
    have hsync : ∀ (w : Worker) d, (w.syncExpired d).1.ages = w.ages := by
      intro w d
      unfold syncExpired
      split <;> rfl
    exact (hsync _ _).trans (hfold _ { worker := { w with wheel := w.wheel.diff (due.bagInter w.wheel) } })
  | createStream | deleteStream | loadStreamLifecycle => exact absurd h (by simp [Broker.isOther])
  | _ => rfl

end Worker

/-! ## What a sidecar says -/

namespace Sidecar

/-- The birth seq that a list of records gives a stream: the last one, 0 for none. -/
def birthIn (births : List (StreamId × ℕ)) (id : StreamId) (start : ℕ) : ℕ :=
  births.foldl (fun c x => if x.1 = id then x.2 else c) start

/-- Loading patches the streams that the worker has, and no other. -/
theorem retention_load (wh : WireHash) (w : Worker) (births : List (StreamId × ℕ)) {id : StreamId} :
    (w.exec wh (.loadStreamLifecycle births)).1.streamRetention.lookup id =
      (w.streamRetention.lookup id).map fun r => { r with createdAtSeq := birthIn births id r.createdAtSeq } := by
  show (w.loadStreamLifecycle births).1.streamRetention.lookup id = _
  unfold loadStreamLifecycle
  simp only [rebuildAndSwapSnapshot]
  generalize w.streamRetention = m
  induction births generalizing m with
  | nil =>
    rw [foldl_nil]
    cases m.lookup id <;> rfl
  | cons x births ih =>
    rw [foldl_cons, ih]
    cases hx : m.lookup x.1 with
    | none =>
      by_cases hid : x.1 = id
      · rw [hid] at hx
        rw [hx]
        rfl
      · simp only [birthIn, foldl_cons, if_neg hid]
    | some r =>
      rw [lookup_insert_eq]
      by_cases hid : id = x.1
      · subst hid
        rw [if_pos rfl, hx]
        simp only [map_some, birthIn, foldl_cons, if_true]
      · simp only [birthIn, foldl_cons, if_neg (Ne.symm hid), if_neg hid]

end Sidecar

/-! ## Registry and log -/

namespace StreamRegistry

variable {r r' : StreamRegistry} {id : StreamId} {wire : SubjectHash} {x : StreamRegistry} {admitted created : Bool} {name : Bytes}

/-- The id is some stream's. -/
def Live (r : StreamRegistry) (id : StreamId) : Prop := ∃ wire, r.streamsByWire.lookup wire = some id

/-- Streams have different ids, in step with the pool. -/
structure OK (r : StreamRegistry) : Prop where
  inj : ∀ w w' id, r.streamsByWire.lookup w = some id → r.streamsByWire.lookup w' = some id → w = w'
  pool : r.streamPool.Holds r.Live
  max : r.streamPool.maxSlots = maxSlotCount

theorem OK.lt (h : r.OK) (hid : r.Live id) : id < maxSlotCount :=
  h.max ▸ (h.pool.used id hid).1.trans_le h.pool.room

/-- The same streams and the same free ids; the names may differ. -/
structure Agrees (r r' : StreamRegistry) : Prop where
  streams : r.streamsByWire = r'.streamsByWire
  pool : r.streamPool = r'.streamPool

theorem Agrees.live (h : r.Agrees r') : r.Live id ↔ r'.Live id := by
  unfold Live
  rw [h.streams]

theorem Agrees.ok (h : r.Agrees r') (hr : r'.OK) : r.OK := by
  have hlive : r.Live = r'.Live := funext fun id => propext h.live
  refine ⟨?_, ?_, ?_⟩
  · rw [h.streams]
    exact hr.inj
  · rw [h.pool, hlive]
    exact hr.pool
  · rw [h.pool]
    exact hr.max

theorem live_insert (habs : r.streamsByWire.lookup wire = none)
    (hr : r'.streamsByWire = r.streamsByWire.insert wire id) {x : StreamId} : r'.Live x ↔ r.Live x ∨ x = id := by
  unfold Live
  rw [hr]
  exact exists_lookup_insert habs

/-- What a new stream does to the registry. -/
structure Adds (r r' : StreamRegistry) (wire : SubjectHash) (id : StreamId) : Prop where
  absent : r.streamsByWire.lookup wire = none
  streams : r'.streamsByWire = r.streamsByWire.insert wire id
  fresh : ¬ r.Live id
  ok : r'.OK
  lt : id < maxSlotCount

theorem OK.insert (h : r.OK) (habs : r.streamsByWire.lookup wire = none) {id g : ℕ} {pool : IdPool}
    (ha : r.streamPool.alloc = some ((id, g), pool)) (names : Map SubjectHash Bytes) :
    Adds r ⟨r.streamsByWire.insert wire id, names, pool⟩ wire id := by
  obtain ⟨hfresh, hlt, hmax, hholds⟩ := h.pool.alloc ha
  rw [h.max] at hlt hmax
  have hlive : Live ⟨r.streamsByWire.insert wire id, names, pool⟩ = fun s => r.Live s ∨ s = id :=
    funext fun x => propext (live_insert habs rfl)
  exact ⟨habs, rfl, hfresh, ⟨Unique.insert h.inj hfresh, hlive ▸ hholds, hmax⟩, hlt⟩

/-- A create that is not refused finds the stream, or takes an id from the pool. -/
theorem checked_eq_some (hc : r.getOrCreateStreamChecked wire name admitted = some (id, created, r')) :
    (created = false ∧ r' = r ∧ r.streamsByWire.lookup wire = some id) ∨
    (created = true ∧ admitted = true ∧ r.streamsByWire.lookup wire = none ∧
      ∃ g pool, r.streamPool.alloc = some ((id, g), pool) ∧
        r' = ⟨r.streamsByWire.insert wire id, r.streamsNameByWire.insert wire name, pool⟩) := by
  unfold getOrCreateStreamChecked at hc
  split at hc
  case h_1 id' hl =>
    split at hc
    · obtain ⟨rfl, rfl, rfl⟩ : id' = id ∧ false = created ∧ r = r' := by simpa using hc
      exact .inl ⟨rfl, rfl, hl⟩
    · cases hc
  case h_2 hl =>
  split at hc
  case isTrue hadm =>
    obtain ⟨⟨⟨slot, g⟩, pool⟩, ha, heq⟩ := map_eq_some_iff.1 hc
    obtain ⟨rfl, rfl, rfl⟩ : slot = id ∧ true = created ∧ _ = r' := by simpa using heq
    exact .inr ⟨rfl, hadm, hl, g, pool, ha, rfl⟩
  · cases hc

/-- A new stream gets the next slot of the pool, if the rules admit it. -/
theorem checked_created (h : r.getOrCreateStreamChecked wire name admitted = some (id, true, r')) :
    admitted = true ∧ r.streamSeq wire = none ∧ id = r.streamPool.next := by
  rcases checked_eq_some h with ⟨hfalse, -⟩ | ⟨-, hadm, hl, g, pool, ha, -⟩
  · cases hfalse
  · exact ⟨hadm, hl, IdPool.alloc_next ha⟩

/-- **What a create does to the registry**: nothing to a stream that is there, else a fresh id. -/
theorem checked_cases (h : r.OK) (hc : r.getOrCreateStreamChecked wire name admitted = some (id, created, r')) :
    (created = false ∧ r' = r ∧ r.streamsByWire.lookup wire = some id) ∨ (created = true ∧ Adds r r' wire id) := by
  rcases checked_eq_some hc with hold | ⟨rfl, -, hl, g, pool, ha, rfl⟩
  · exact .inl hold
  · exact .inr ⟨rfl, h.insert hl ha _⟩

theorem replay_checked (hx : x.Agrees r) (hc : r.getOrCreateStreamChecked wire name admitted = some (id, created, r')) :
    ∃ x', x.getOrCreateStream wire = some (id, created, x') ∧ x'.Agrees r' := by
  unfold getOrCreateStream
  rw [hx.streams]
  rcases checked_eq_some hc with ⟨rfl, rfl, hl⟩ | ⟨rfl, -, hl, g, pool, ha, rfl⟩
  · exact ⟨x, by rw [hl], hx⟩
  · rw [hl, hx.pool, ha]
    exact ⟨_, rfl, rfl, rfl⟩

theorem Agrees.removeStream (hx : x.Agrees r) (wire : SubjectHash) :
    (x.removeStream wire).Agrees (r.removeStream wire) := by
  unfold StreamRegistry.removeStream
  rw [hx.streams]
  split
  · exact hx
  · exact ⟨rfl, by rw [hx.pool]⟩

theorem lookup_removeStream {w : SubjectHash} :
    (r.removeStream wire).streamsByWire.lookup w = if w = wire then none else r.streamsByWire.lookup w := by
  unfold removeStream
  split
  case h_1 hl =>
    split
    case isTrue hw => rw [hw, hl]
    case isFalse => rfl
  case h_2 => exact lookup_erase_eq _ _

theorem streams_removeStream (hid : r.streamsByWire.lookup wire = some id) :
    (r.removeStream wire).streamsByWire = r.streamsByWire.erase wire := by
  rw [removeStream, hid]

theorem live_removeStream (h : r.OK) (hid : r.streamsByWire.lookup wire = some id)
    {x : StreamId} : (r.removeStream wire).Live x ↔ r.Live x ∧ x ≠ id := by
  unfold Live
  rw [streams_removeStream hid]
  exact Unique.exists_lookup_erase h.inj hid

theorem OK.removeStream (h : r.OK) (hid : r.streamsByWire.lookup wire = some id) : (r.removeStream wire).OK := by
  have hlive : (r.removeStream wire).Live = fun x => r.Live x ∧ x ≠ id :=
    funext fun x => propext (live_removeStream h hid)
  have hpool : (r.removeStream wire).streamPool = r.streamPool.release id := by
    unfold StreamRegistry.removeStream
    rw [hid]
  refine ⟨?_, ?_, ?_⟩
  · rw [streams_removeStream hid]
    exact Unique.erase h.inj
  · rw [hlive, hpool]
    exact h.pool.release id
  · rw [hpool]
    unfold IdPool.release IdPool.free
    split <;> exact h.max

end StreamRegistry

namespace Broker

variable {wh : WireHash} {b b' : Broker} {id : StreamId} {name : Bytes} {admitted created : Bool}
  {names : StreamRegistry} {maxAgeMs nowMs i : ℕ} {s : LifeShard} (w : Worker) (cmds : List ReplayCommand)

/-! ## Registry, log and workers -/

/-- The shard that a stream is on. -/
abbrev home (b : Broker) (id : StreamId) : LifeShard := b.shards (b.shardFor id)

/-- The worker of a shard after the replay, before the sidecar is read. -/
def replayed (wh : WireHash) (b : Broker) (i : ℕ) : Worker :=
  flush wh ((replay wh b.log).2.filter fun cmd => b.shardFor cmd.streamId == i)

theorem replay_append (log : List MetadataCmd) (cmd : MetadataCmd) :
    replay wh (log ++ [cmd]) = apply wh (replay wh log) cmd := by
  simp [replay, foldl_append]

theorem flush_append (cmd : ReplayCommand) : flush wh (cmds ++ [cmd]) = ((flush wh cmds).exec wh cmd.job).1 := by
  simp [flush, foldl_append]

theorem knows_createStream (h : id ≤ maxEntityId) (name : Bytes) (maxAgeMs lastSeq : ℕ) (x : StreamId) :
    knows (w.exec wh (.createStream ⟨id, name⟩ maxAgeMs lastSeq)).1 x = (knows w x || x == id) := by
  unfold knows
  rw [retention_createStream]
  by_cases hx : x = id
  · subst hx
    cases hl : w.streamRetention.lookup x with
    | none => simp [h]
    | some r => simp [hl]
  · split
    · rw [lookup_insert_eq, if_neg hx]
      simp [hx]
    · simp [hx]

theorem knows_deleteStream (id x : StreamId) : knows (w.exec wh (.deleteStream id)).1 x = (knows w x && x != id) := by
  unfold knows
  rw [retention_deleteStream, lookup_erase_eq]
  by_cases hx : x = id <;> simp [hx]

/-- In replay a stream is born with no birth seq. -/
theorem flush_zero : (flush wh cmds).replayMode = true ∧
    ∀ id r, (flush wh cmds).streamRetention.lookup id = some r → r.createdAtSeq = 0 := by
  induction cmds using reverseRecOn with
  | nil => exact ⟨rfl, by rintro id r ⟨⟩⟩
  | append_singleton cmds cmd ih =>
    obtain ⟨hmode, hzero⟩ := ih
    rw [flush_append]
    cases cmd with
    | createStream id' name maxAgeMs =>
      simp only [ReplayCommand.job]
      refine ⟨(mode_createStream _ _ _ _ _).trans hmode, ?_⟩
      rw [retention_createStream, hmode]
      split
      · exact forall_insert rfl hzero
      · exact hzero
    | deleteStream id' =>
      simp only [ReplayCommand.job]
      refine ⟨hmode, fun id r hr => ?_⟩
      rw [retention_deleteStream] at hr
      exact hzero id r (of_lookup_erase hr).2

/-- **Registry, log and workers name the same streams.** -/
structure Synced (wh : WireHash) (b : Broker) : Prop where
  registry : (replay wh b.log).1.Agrees b.names
  names : b.names.OK
  keys : ∀ i id, knows (b.replayed wh i) id = knows (b.shards i).worker id
  known : ∀ i id, knows (b.shards i).worker id = true ↔ b.names.Live id ∧ b.shardFor id = i
  mode : ∀ i, (b.shards i).worker.replayMode = false

theorem shardFor_congr (h : b'.shardCount = b.shardCount) : b'.shardFor = b.shardFor := by
  funext id
  unfold shardFor
  rw [h]

theorem entity_of_slot (h : id < maxSlotCount) : id ≤ maxEntityId :=
  Nat.le_of_lt (Nat.lt_of_lt_of_le h (by decide))

theorem replayed_congr (hlog : b'.log = b.log) (hcount : b'.shardCount = b.shardCount) :
    b'.replayed wh = b.replayed wh := by
  funext i
  unfold replayed
  rw [hlog, shardFor_congr hcount]

/-- A shard with the streams of another. -/
structure Echoes (s₀ s : LifeShard) : Prop where
  keys : ∀ id, knows s.worker id = knows s₀.worker id
  mode : s.worker.replayMode = s₀.worker.replayMode

/-- Whatever keeps the log, the registry and the keys of the workers. -/
theorem Synced.same (h : b.Synced wh) (hnames : b'.names = b.names) (hlog : b'.log = b.log)
    (hcount : b'.shardCount = b.shardCount) (hshards : ∀ i, Echoes (b.shards i) (b'.shards i)) : b'.Synced wh := by
  refine ⟨by rw [hlog, hnames]; exact h.registry, by rw [hnames]; exact h.names, fun i id => ?_, fun i id => ?_,
    fun i => (hshards i).mode.trans (h.mode i)⟩
  · rw [replayed_congr hlog hcount, (hshards i).keys]
    exact h.keys i id
  · rw [(hshards i).keys, hnames, shardFor_congr hcount]
    exact h.known i id

/-- A start on the log, whatever the sidecars are, has the streams of the log. -/
theorem Synced.restart (h : b.Synced wh) (hlog : b'.log = b.log) (hcount : b'.shardCount = b.shardCount) :
    (b'.restart wh nowMs).Synced wh ∧
      ∀ i id, knows ((b'.restart wh nowMs).shards i).worker id = knows (b.shards i).worker id := by
  have hreplayed : b'.replayed wh = b.replayed wh := replayed_congr hlog hcount
  have hknows : ∀ i id, knows ((b'.restart wh nowMs).shards i).worker id = knows (b.shards i).worker id := by
    intro i id
    have hload : knows ((b'.restart wh nowMs).shards i).worker id = knows (b'.replayed wh i) id := by
      unfold knows
      exact (congrArg _ (retention_load wh ..)).trans (isSome_map ..)
    rw [hload, hreplayed]
    exact h.keys i id
  refine ⟨⟨⟨rfl, rfl⟩, ?_, fun i id => ?_, fun i id => ?_, fun i => rfl⟩, hknows⟩
  · show (replay wh b'.log).1.OK
    rw [hlog]
    exact h.registry.ok h.names
  · rw [hknows]
    show knows (b'.replayed wh i) id = _
    rw [hreplayed]
    exact h.keys i id
  · rw [hknows, h.known i id]
    show _ ↔ (replay wh b'.log).1.Live id ∧ b'.shardFor id = i
    rw [hlog, shardFor_congr hcount]
    exact and_congr_left fun _ => h.registry.live.symm

/-- The commands of the other shards do not matter. -/
theorem replayed_append {log' : List MetadataCmd} {cmds' : List ReplayCommand} {cmd : ReplayCommand}
    (hlog : b'.log = log') (hcount : b'.shardCount = b.shardCount) (hreplay : (replay wh log').2 = cmds' ++ [cmd])
    (hcmds : (replay wh b.log).2 = cmds') :
    b'.replayed wh i =
      if b.shardFor cmd.streamId = i then ((b.replayed wh i).exec wh cmd.job).1 else b.replayed wh i := by
  have hfor := shardFor_congr hcount
  unfold replayed
  rw [hlog, hreplay, hfor, hcmds, filter_append]
  by_cases hi : b.shardFor cmd.streamId = i
  · rw [if_pos hi, ← flush_append]
    simp [hi]
  · rw [if_neg hi]
    simp [hi]

theorem worker_setShard (i j : ℕ) :
    (b.setShard i s).shards j = if j = i then s else b.shards j := update_apply ..

theorem setShard_of {P : ℕ → LifeShard → Prop} (hi : P i s) (hrest : ∀ j ≠ i, P j (b.shards j)) (j : ℕ) :
    P j ((b.setShard i s).shards j) := (forall_update_iff _ P).2 ⟨hi, hrest⟩ j

@[simp] theorem save_worker : (save s).worker = s.worker := by
  unfold save
  split <;> rfl

@[simp] theorem save_store : (save s).store = s.store := by
  unfold save
  split <;> rfl

theorem handleCreate_worker : (handleCreate wh s id name maxAgeMs).1.worker =
        (s.worker.exec wh (.createStream ⟨id, name⟩ maxAgeMs s.store.lastSeq)).1 ∧
      (handleCreate wh s id name maxAgeMs).1.store = s.store := by
  unfold handleCreate
  simp only
  split
  · exact ⟨save_worker, save_store⟩
  · exact ⟨rfl, rfl⟩

theorem createStream_eq
    (hc : b.names.getOrCreateStreamChecked (wh name) name admitted = some (id, created, names)) (maxAgeMs : ℕ) :
    b.createStream wh name maxAgeMs admitted = { b.setShard (b.shardFor id)
      (handleCreate wh (b.home id) id name maxAgeMs).1 with
      names := names
      log := b.log ++ [.createStream name maxAgeMs]
      epochs := if created then update b.epochs id (b.epochs id + 1) else b.epochs } := by
  unfold Broker.createStream
  rw [hc]

theorem deleteStream_eq (hid : b.names.streamSeq (wh name) = some id) :
    b.deleteStream wh name = { b.setShard (b.shardFor id) (handleDelete wh (b.home id) id) with
      names := b.names.removeStream (wh name)
      log := b.log ++ [.deleteStream name] } := by
  unfold Broker.deleteStream
  rw [hid]

/-- A command is logged, and done by the worker of its stream as its replay does it. -/
theorem Synced.logged (h : b.Synced wh) {cmd : MetadataCmd} {x : StreamRegistry} {rc : ReplayCommand}
    {j : ℕ → Job} {k : Bool → StreamId → Bool} (hlog : b'.log = b.log ++ [cmd]) (hcount : b'.shardCount = b.shardCount)
    (hreplay : replay wh (b.log ++ [cmd]) = (x, (replay wh b.log).2 ++ [rc])) (hagree : x.Agrees b'.names) (hok : b'.names.OK)
    (hshard : ∀ i, (b'.shards i).worker =
      if i = b.shardFor rc.streamId then ((b.shards i).worker.exec wh (j i)).1 else (b.shards i).worker)
    (hmode : ∀ i (w : Worker), (w.exec wh (j i)).1.replayMode = w.replayMode)
    (hexec : ∀ i (w : Worker) y, knows (w.exec wh (j i)).1 y = k (knows w y) y ∧
      knows (w.exec wh rc.job).1 y = k (knows w y) y)
    (hlive : ∀ i y, (if i = b.shardFor rc.streamId then k (knows (b.shards i).worker y) y
      else knows (b.shards i).worker y) = true ↔ b'.names.Live y ∧ b.shardFor y = i) : b'.Synced wh := by
  have hknows : ∀ i y, knows (b'.shards i).worker y =
      if i = b.shardFor rc.streamId then k (knows (b.shards i).worker y) y else knows (b.shards i).worker y := by
    intro i y
    rw [hshard]
    split
    · exact (hexec i _ y).1
    · rfl
  refine ⟨by rw [hlog, hreplay]; exact hagree, hok, fun i y => ?_, fun i y => ?_, fun i => ?_⟩
  · rw [replayed_append hlog hcount (congrArg snd hreplay) rfl, hknows]
    by_cases hi : b.shardFor rc.streamId = i
    · rw [if_pos hi, if_pos hi.symm, (hexec i _ y).2, h.keys]
    · rw [if_neg hi, if_neg (Ne.symm hi), h.keys]
  · rw [hknows, hlive, shardFor_congr hcount]
  · rw [hshard]
    split
    · exact (hmode i _).trans (h.mode i)
    · exact h.mode i

theorem Synced.createStream (h : b.Synced wh)
    (hc : b.names.getOrCreateStreamChecked (wh name) name admitted = some (id, created, names)) :
    (b.createStream wh name maxAgeMs admitted).Synced wh := by
  have hlive : id < maxSlotCount ∧ names.OK ∧ ∀ x, names.Live x ↔ b.names.Live x ∨ x = id := by
    rcases checked_cases h.names hc with ⟨-, rfl, hl⟩ | ⟨-, hadds⟩
    · refine ⟨h.names.lt ⟨_, hl⟩, h.names, fun x => ⟨.inl, ?_⟩⟩
      rintro (hx | rfl)
      · exact hx
      · exact ⟨_, hl⟩
    · exact ⟨hadds.lt, hadds.ok, fun x => live_insert hadds.absent hadds.streams⟩
  obtain ⟨hid, hok, hlive⟩ := hlive
  have hent := entity_of_slot hid
  obtain ⟨x', hx', hagree⟩ := replay_checked h.registry hc
  have hreplay : replay wh (b.log ++ [.createStream name maxAgeMs]) =
      (x', (replay wh b.log).2 ++ [.createStream id name maxAgeMs]) := by
    rw [replay_append]
    simp only [apply, hx']
  rw [createStream_eq hc]
  refine h.logged (j := fun i => .createStream ⟨id, name⟩ maxAgeMs (b.shards i).store.lastSeq)
    (k := fun v y => v || y == id) rfl rfl hreplay hagree hok (fun i => ?_) (fun i w => mode_createStream wh w _ _ _)
    (fun i w y => ⟨knows_createStream w hent name maxAgeMs _ y, knows_createStream w hent name maxAgeMs _ y⟩) fun i y => ?_
  · show ((b.setShard _ _).shards i).worker = if i = b.shardFor id then _ else _
    rw [worker_setShard]
    split
    case isTrue hi => rw [hi]; exact handleCreate_worker.1
    case isFalse => rfl
  rw [hlive y]
  split
  case isTrue hi =>
    rw [Bool.or_eq_true, h.known, beq_iff_eq]
    constructor
    · rintro (⟨hy, hi'⟩ | rfl)
      · exact ⟨.inl hy, hi'⟩
      · exact ⟨.inr rfl, hi.symm⟩
    · rintro ⟨hy | rfl, hi'⟩
      · exact .inl ⟨hy, hi'⟩
      · exact .inr rfl
  case isFalse hi =>
    rw [h.known]
    constructor
    · exact fun ⟨hy, hi'⟩ => ⟨.inl hy, hi'⟩
    · rintro ⟨hy | rfl, hi'⟩
      · exact ⟨hy, hi'⟩
      · exact absurd hi'.symm hi

theorem Synced.deleteStream (h : b.Synced wh)
    (hid : b.names.streamSeq (wh name) = some id) : (b.deleteStream wh name).Synced wh := by
  have hreplay : replay wh (b.log ++ [.deleteStream name]) =
      ((replay wh b.log).1.removeStream (wh name), (replay wh b.log).2 ++ [.deleteStream id]) := by
    have hseq : (replay wh b.log).1.streamSeq (wh name) = some id := by
      unfold streamSeq at hid ⊢
      rw [h.registry.streams]
      exact hid
    rw [replay_append]
    simp only [apply, hseq]
  rw [deleteStream_eq hid]
  refine h.logged (j := fun _ => .deleteStream id) (k := fun v y => v && y != id) rfl rfl hreplay
    (h.registry.removeStream _) (h.names.removeStream hid) (fun i => ?_) (fun i w => rfl)
    (fun i w y => ⟨knows_deleteStream w id y, knows_deleteStream w id y⟩) fun i y => ?_
  · show ((b.setShard _ _).shards i).worker = if i = b.shardFor id then _ else _
    rw [worker_setShard]
    split
    case isTrue hi => rw [hi]; exact save_worker
    case isFalse => rfl
  show (if i = b.shardFor id then _ else _) = true ↔ (b.names.removeStream (wh name)).Live y ∧ _
  rw [live_removeStream h.names hid]
  split
  case isTrue hi => rw [Bool.and_eq_true, h.known, bne_iff_ne, and_right_comm]
  case isFalse hi =>
  rw [h.known]
  constructor
  · rintro ⟨hy, rfl⟩
    exact ⟨⟨hy, fun heq => hi (heq ▸ rfl)⟩, rfl⟩
  · exact fun ⟨⟨hy, _⟩, hi'⟩ => ⟨hy, hi'⟩

theorem Synced.setShard (h : b.Synced wh) (hs : Echoes (b.shards i) s) : (b.setShard i s).Synced wh :=
  h.same rfl rfl rfl (setShard_of (P := fun j => Echoes (b.shards j)) hs fun _ _ => ⟨fun _ => rfl, rfl⟩)

theorem Synced.append (h : b.Synced wh) (entry : EntryRef) (epoch timestamp : ℕ) :
    (b.append entry epoch timestamp).Synced wh := by
  have hs := h.setShard (i := b.shardFor entry.streamId)
    (s := { b.home entry.streamId with store := (b.home entry.streamId).store.append entry timestamp }) ⟨fun _ => rfl, rfl⟩
  exact hs.same rfl rfl rfl fun _ => ⟨fun _ => rfl, rfl⟩

theorem Synced.step (h : b.Synced wh) (a : Action) : (b.step wh a).Synced wh := by
  have hline : ∀ line, { b with line := line }.Synced wh := fun _ => h.same rfl rfl rfl fun _ => ⟨fun _ => rfl, rfl⟩
  have hpublish : ∀ k timestamp accepted, (b.publish k timestamp accepted).Synced wh := by
    intro k timestamp accepted
    unfold Broker.publish
    split
    · exact h
    have herase : { b with lookups := b.lookups.eraseIdx k }.Synced wh :=
      h.same rfl rfl rfl fun _ => ⟨fun _ => rfl, rfl⟩
    simp only
    split
    · exact herase.append _ _ _
    · exact herase
  cases a with
  | createStream name maxAgeMs admitted =>
    cases hc : b.names.getOrCreateStreamChecked (wh name) name admitted with
    | none => simpa [Broker.step, Broker.createStream, hc] using h
    | some x => exact h.createStream hc
  | deleteStream name =>
    cases hid : b.names.streamSeq (wh name) with
    | none => simpa [Broker.step, Broker.deleteStream, hid] using h
    | some id => exact h.deleteStream hid
  | lookup =>
    simp only [Broker.step, Broker.lookup]
    split
    · exact h
    · exact h.same rfl rfl rfl fun _ => ⟨fun _ => rfl, rfl⟩
  | publish k timestamp accepted => exact hpublish k timestamp accepted
  | publishDelayed k nowMs delayMs =>
    simp only [Broker.step, Broker.publishDelayed]
    split
    · exact hpublish k nowMs true
    · split
      · exact h
      · exact h.same rfl rfl rfl fun _ => ⟨fun _ => rfl, rfl⟩
  | mature => exact hline _
  | store accepted =>
    simp only [Broker.step, Broker.store]
    split
    · exact h
    · split
      · exact (hline _).append _ _ _
      · exact hline _
  | serve i j =>
    simp only [Broker.step]
    split
    case isTrue hj =>
      have hages := ages_other wh (b.shards i).worker hj
      exact h.setShard ⟨fun id => congrArg (fun p => (p.1.lookup id).isSome) hages, congrArg snd hages⟩
    case isFalse => exact h
  | restart => exact (h.restart rfl rfl).1
  | _ =>
    -- a start reads the streams off the log, whatever the sidecars are
    simp only [Broker.step, Broker.crashCreate, Broker.crashDelete]
    split <;> refine (h.restart ?_ ?_).1 <;> rfl

/-! ## Runs -/

/-- A broker that was never started on anything. -/
def fresh (shardCount : ℕ) : Broker := { shardCount }

theorem fresh_synced (n : ℕ) : (fresh n).Synced wh := by
  refine ⟨⟨rfl, rfl⟩, ⟨?_, ⟨?_, nofun, nodup_nil, rfl, Nat.zero_le _⟩, rfl⟩, fun _ _ => rfl, fun i id => ?_, fun _ => rfl⟩
  · rintro w w' id ⟨⟩
  · rintro s ⟨w, ⟨⟩⟩
  · refine ⟨by rintro ⟨⟩, ?_⟩
    rintro ⟨⟨w, ⟨⟩⟩, -⟩

end Broker

end Arbitro
