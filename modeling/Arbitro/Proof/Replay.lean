import Arbitro.Proof.Admin

/-!
# Ids after a restart

The ids of streams and consumers are not in the log: the replay allocates them again.

* `AdminBroker.restart_snoc`: one more record in the log is one more step of the recovered broker
  (`redo`).
* `AdminBroker.Replayable`: the registry rebuilt from the log has the ids of the live one, and
  the rebuilt engines know what it knows.
* `AdminBroker.replay_same_ids`: so it is after every run in which no `CreateConsumer` is refused
  by the rules after a new id was allocated for it.
* `AdminBroker.Shifted`: one such request, and a later consumer comes back under another id.
-/

namespace Arbitro

open NameRegistry List Function

namespace NameRegistry

variable {r r' x : NameRegistry} {wire : SubjectHash} {id : StreamId}

theorem getOrCreateStream_known (h : r.streamSeq wire = some id) : r.getOrCreateStream wire = some (id, r) := by
  unfold getOrCreateStream StreamRegistry.getOrCreateStream
  rw [show r.streams.streamsByWire.lookup wire = some id from h]

/-- The replay of a `CreateStream` allocates the id that the request was given. -/
theorem Agrees.replay_checked (h : x.Agrees r) {name filter : Bytes} {created : Bool}
    {names : NameRegistry} (hc : r.getOrCreateStreamChecked wire name filter = .ok (.slot id created, names)) :
    ∃ x', x.getOrCreateStream wire = some (id, x') ∧ x'.Agrees names := by
  rcases getOrCreateStreamChecked_cases hc with ⟨-, rfl, hseq, -⟩ | ⟨-, -, -, streams, hnew, rfl⟩
  · exact ⟨x, getOrCreateStream_known ((h.streamSeq _).trans hseq), h⟩
  · obtain ⟨x', hx', hagrees⟩ := StreamRegistry.replay_checked h.streams hnew
    refine ⟨x.freshStream x' id, ?_, ⟨hagrees, h.consumers, h.pool, h.attached⟩⟩
    unfold getOrCreateStream
    rw [hx']

theorem Agrees.queue (h : x.Agrees r) (req req' : ConsumerRecord) (stream : StreamId) :
    (req.queue x stream).2.Agrees (req'.queue r stream).2 := by
  obtain ⟨keys, next, hq⟩ := req.queue_eq x stream
  obtain ⟨keys', next', hq'⟩ := req'.queue_eq r stream
  rw [hq, hq']
  exact ⟨h.streams, h.consumers, h.pool, h.attached⟩

theorem Agrees.attach (h : x.Agrees r) (c : ConsumerId) (q q' : QueueId) (s : StreamId) (policy policy' startSeq startSeq' : ℕ) :
    (((x.setConsumerQueue c q).setConsumerStream c s).setConsumerDeliverPolicy c policy startSeq).Agrees
      (((r.setConsumerQueue c q').setConsumerStream c s).setConsumerDeliverPolicy c policy' startSeq') := by
  refine ⟨h.streams, h.consumers, h.pool, ?_⟩
  show update x.consumerStream c (some s) = update r.consumerStream c (some s)
  rw [h.attached]

end NameRegistry

namespace AdminBroker

variable {wh : WireHash} {b b' x : AdminBroker} {names : NameRegistry} {req : CreateConsumerReq} {rec : AdminRecord}
  {id : StreamId} {name : Bytes} {filter : Bytes}

/-! ## One record more -/

/-- What one record of the log does to a broker that was recovered from those before. -/
def redo (wh : WireHash) (x : AdminBroker) (rec : AdminRecord) : AdminBroker :=
  { x with
    names := (apply wh (x.names, []) rec).1
    engines := fun i => ((apply wh (x.names, []) rec).2.filter fun cmd => x.shardFor cmd.stream == i).foldl
      (Replayed.apply wh) (x.engines i) }

/-- The buffer is only appended to. -/
theorem apply_eq (wh : WireHash) (names : NameRegistry) (cmds : List Replayed) (rec : AdminRecord) :
    apply wh (names, cmds) rec = ((apply wh (names, []) rec).1, cmds ++ (apply wh (names, []) rec).2) := by
  cases rec with
  | createStream | deleteStream =>
    simp only [apply]
    split
    · simp
    · rfl
  | createConsumer req =>
    simp only [apply]
    split
    · simp
    split
    · simp
    · rfl
  | deleteConsumer id => rfl

/-- **One more record in the log is one more step of the recovered broker.** -/
theorem restart_snoc (wh : WireHash) (rec : AdminRecord) (hlog : b'.log = b.log ++ [rec])
    (hsh : b'.shardCount = b.shardCount) : (b'.restart wh).names = (redo wh (b.restart wh) rec).names ∧
      (b'.restart wh).engines = (redo wh (b.restart wh) rec).engines := by
  have hreplay : replay wh b'.log = apply wh (replay wh b.log) rec := by
    unfold replay
    rw [hlog, foldl_append]
    rfl
  have happly := apply_eq wh (replay wh b.log).1 (replay wh b.log).2 rec
  have hshard : b'.shardFor = b.shardFor := shardFor_congr hsh
  unfold restart
  rw [hreplay, happly]
  refine ⟨rfl, ?_⟩
  funext i
  simp only [hshard, flush, filter_append, foldl_append]
  rfl

theorem restart_congr (hlog : b'.log = b.log) (hsh : b'.shardCount = b.shardCount) :
    (b'.restart wh).names = (b.restart wh).names ∧ (b'.restart wh).engines = (b.restart wh).engines := by
  unfold restart shardFor
  rw [hlog, hsh]
  exact ⟨rfl, rfl⟩

/-- A record with one command for a shard changes that shard. -/
theorem redo_single {cmd : Replayed} (h : apply wh (x.names, []) rec = (names, [cmd])) :
    redo wh x rec =
      { x.setEngine (x.shardFor cmd.stream) (Replayed.apply wh (x.engines (x.shardFor cmd.stream)) cmd) with
        names := names } := by
  unfold redo setEngine
  rw [h]
  congr 1
  funext i
  by_cases hi : x.shardFor cmd.stream = i
  · simp [hi]
  · have hne : (x.shardFor cmd.stream == i) = false := by simpa using hi
    simp [hne, Ne.symm hi]

/-! ## The records -/

theorem apply_createStream {req : CreateStreamReq} (hget : x.names.getOrCreateStream (wh req.name) = some (id, names)) :
    apply wh (x.names, []) (.createStream req) =
      ((((names.setStreamIdempotency id req.idempotencyWindowMs).setStreamReplicas id req.replicas).setStreamFilter id
          req.filter).setStreamQuota id req.quota, [.createStream ⟨id, req.name⟩]) := by
  simp only [apply, hget]
  rfl

theorem apply_deleteStream (hid : x.names.streamSeq (wh name) = some id) :
    apply wh (x.names, []) (.deleteStream name) =
      (((x.names.consumersForStream id).foldl removeConsumerById x.names).removeStream (wh name),
        [.deleteStream id]) := by
  simp only [apply, hid]
  rfl

theorem apply_deleteConsumer (id : ConsumerId) :
    apply wh (x.names, []) (.deleteConsumer id) =
      (x.names.removeConsumerById id, [.deleteConsumer ((x.names.consumerStream id).getD 0) id]) := rfl

theorem Sound.redo_createStream (h : x.Sound) {req : CreateStreamReq}
    (hget : x.names.getOrCreateStream (wh req.name) = some (id, names)) (hok : names.OK) (hle : id ≤ maxEntityId)
    (hlive : ∀ s, names.streams.Live s ↔ x.names.streams.Live s ∨ s = id)
    (hatt : names.consumerStream = x.names.consumerStream) : (redo wh x (.createStream req)).Sound := by
  rw [redo_single (apply_createStream hget)]
  rcases (x.engineOf id).createStream_cases ⟨id, req.name⟩ with ⟨-, -, hent⟩ | ⟨hgt, -⟩
  · exact h.addStream rfl ⟨hok.streams, hok.inj, hok.pool, hok.max, hok.attached⟩ hlive hatt rfl hent
  · exact absurd hgt (Nat.not_lt.2 hle)

theorem Sound.redo_deleteStream (h : x.Sound)
    (hid : x.names.streamSeq (wh name) = some id) : (redo wh x (.deleteStream name)).Sound := by
  rw [redo_single (apply_deleteStream hid)]
  exact h.dropStream rfl hid rfl rfl (Engine.entities_deleteStream _ id)

theorem Sound.redo_deleteConsumer (h : x.Sound) (id : ConsumerId) : (redo wh x (.deleteConsumer id)).Sound := by
  rw [redo_single (apply_deleteConsumer id)]
  refine h.detach rfl (fun s hs => ?_) (removeConsumerById_drops h.names id) rfl
    (Engine.entities_deleteConsumer _ id)
  rw [hs]
  rfl

/-- The registry after the replay of a `CreateConsumer`. -/
def recreated (x : AdminBroker) (req : ConsumerRecord) (stream : StreamId) : NameRegistry :=
  let r := x.names.getOrCreateConsumer stream req.name
  let q := req.queue r.2 stream
  ((q.2.setConsumerQueue r.1 q.1).setConsumerStream r.1 stream).setConsumerDeliverPolicy r.1 req.deliverPolicy
    req.startSeq

theorem apply_createConsumer (req : ConsumerRecord)
    (hgroup : req.group.isEmpty = false) {stream : StreamId} (hs : x.names.streamSeq req.streamId = some stream) :
    ∃ config, config.id = (x.idFor stream req.name) ∧ config.streamId = stream ∧
      apply wh (x.names, []) (.createConsumer req) =
        (x.recreated req stream, [.createConsumer config req.subjectLimits]) := by
  refine ⟨req.config (x.idFor stream req.name)
    (req.queue (x.names.getOrCreateConsumer stream req.name).2 stream).1 stream req.maxInflight 0 ?_, rfl, rfl, ?_⟩
  rotate_left
  · simp only [apply, hgroup, getOrCreateStream_known hs]
    rfl

theorem Sound.detached (h : x.Sound) {c : ConsumerId} (hc : x.names.consumerStream c = none) (i : ℕ) :
    (x.engines i).entities.consumers c = none := by
  cases hi : (x.engines i).entities.consumers c with
  | none => rfl
  | some info =>
    have hattached := (h.attached hi).1
    rw [hc] at hattached
    cases hattached

theorem replayed_new {e : Engine} {config : ConsumerConfig} {limits : List (Bytes × ℕ)}
    (hs : e.entities.streams config.streamId = true) (hc : e.entities.consumers config.id = none) :
    Replayed.apply wh e (.createConsumer config limits) =
      (e.createConsumer config).1.setLimits wh config.streamId limits := by
  have hcases := e.createConsumer_cases config
  rw [hs, hc] at hcases
  rcases hcases with ⟨hno, -⟩ | ⟨-, -, hres, -⟩ | ⟨-, info, hno, -⟩
  · cases hno
  · simp only [Replayed.apply]
    generalize e.createConsumer config = r at hres
    obtain ⟨e', res⟩ := r
    obtain rfl : res = .ok true := hres
    rfl
  · cases hno

theorem Sound.redo_createConsumer (h : x.Sound) {req : ConsumerRecord} (hgroup : req.group.isEmpty = false)
    {stream : StreamId} (hs : x.names.streamSeq req.streamId = some stream)
    (hfull : (x.idFor stream req.name) ≠ consumerSlotFull)
    (hnone : x.names.consumerStream (x.idFor stream req.name) = none) : (redo wh x (.createConsumer req)).Sound := by
  obtain ⟨config, hid, hstream, happly⟩ := apply_createConsumer req hgroup hs
  obtain ⟨hok, hstr, hatt, -, -, hname⟩ := h.names.getOrCreateConsumer stream req.name
  have hlive : x.names.streams.Live stream := ⟨_, hs⟩
  obtain ⟨_, _, _, _, hq⟩ := req.attach_eq (x.names.getOrCreateConsumer stream req.name).2 stream
    (x.idFor stream req.name) req.deliverPolicy req.startSeq
  rw [redo_single happly, show x.recreated req stream = _ from hq]
  -- nobody has the id, so the engine makes a new consumer
  have hfree : (x.engineOf stream).entities.consumers config.id = none := hid ▸ h.detached hnone _
  have hs' : (x.engineOf stream).entities.streams config.streamId = true := by
    rw [hstream]
    exact h.exists_stream hlive
  have hent : (Replayed.apply wh (x.engineOf stream) (.createConsumer config req.subjectLimits)).entities =
      (x.engineOf stream).entities.addConsumer config := by
    rw [replayed_new hs' hfree]
    exact entities_newConsumer wh _ config req.subjectLimits hs' hfree
  have hcmd : Replayed.stream (.createConsumer config req.subjectLimits) = stream := hstream
  rw [hcmd]
  refine h.attach (c := (x.idFor stream req.name)) (s := stream) rfl ?_ (fun s => ?_)
    (fun t ht => ?_) ?_ rfl ?_ ?_
  · have hset := hok.setConsumerStream (hname.resolve_left hfull) (show _ by rw [hstr]; exact hlive)
    exact ⟨hset.streams, hset.inj, hset.pool, hset.max, hset.attached⟩
  · show (x.names.getOrCreateConsumer stream req.name).2.streams.Live s ↔ _
    rw [hstr]
  · rw [hnone] at ht
    cases ht
  · show update (x.names.getOrCreateConsumer stream req.name).2.consumerStream _ _ = _
    rw [hatt]
  · rw [hent]
    rfl
  · rw [hent, Entities.home_addConsumer, hid, hstream]

/-! ## The live broker and the recovered one -/

/-- **A restart now would find every id again.** -/
structure Replayable (wh : WireHash) (b : AdminBroker) : Prop where
  live : b.Sound
  recovered : (b.restart wh).Sound
  agrees : (b.restart wh).names.Agrees b.names

theorem replayable_new {shardCount : ℕ} : Replayable wh { shardCount := shardCount } :=
  ⟨sound_new shardCount, sound_new shardCount, .refl _⟩

theorem Replayable.same (h : b.Replayable wh) (hs : b'.Sound) (hlog : b'.log = b.log)
    (hsh : b'.shardCount = b.shardCount) (hn : b'.names.Agrees b.names) : b'.Replayable wh := by
  obtain ⟨hnames, heng⟩ := restart_congr hlog hsh
  refine ⟨hs, ?_, ?_⟩
  · refine h.recovered.same hsh (hnames ▸ .refl _) (fun i => ?_) fun i => ?_
    · rw [heng]
    · rw [heng]
  · rw [hnames]
    exact h.agrees.trans hn.symm

theorem Replayable.snoc (hs : b'.Sound) (hlog : b'.log = b.log ++ [rec])
    (hsh : b'.shardCount = b.shardCount) (hredo : (redo wh (b.restart wh) rec).Sound)
    (hn : (redo wh (b.restart wh) rec).names.Agrees b'.names) : b'.Replayable wh := by
  obtain ⟨hnames, heng⟩ := restart_snoc wh rec hlog hsh
  refine ⟨hs, hredo.same hsh (hnames ▸ .refl _) (fun i => ?_) fun i => ?_, hnames ▸ hn⟩
  · rw [heng]
  · rw [heng]

theorem Replayable.createStream (h : b.Replayable wh) (req : CreateStreamReq) (quota : Bool) :
    (b.createStream wh req quota).1.Replayable wh := by
  have hs := h.live.createStream wh req quota
  rcases createStream_cases wh h.live req quota with ⟨code, heq⟩ | ⟨id, created, names, -, hc, -, heq⟩
  · rw [heq]
    exact h
  obtain ⟨hok, -, hlive, hatt⟩ := h.live.names.checked hc
  obtain ⟨x', hget, hx'⟩ := h.agrees.replay_checked hc
  rw [heq] at hs ⊢
  refine .snoc hs rfl rfl (h.recovered.redo_createStream hget (hx'.ok hok) (h.live.slot_le hc) (fun s => ?_) ?_) ?_
  · rw [hx'.streams.live, hlive, h.agrees.streams.live]
  · rw [hx'.attached, hatt, h.agrees.attached]
  rw [redo_single (apply_createStream hget)]
  exact ⟨hx'.streams, hx'.consumers, hx'.pool, hx'.attached⟩

theorem Replayable.deleteStream (h : b.Replayable wh) (reqSeq : ℕ) (name : Bytes) :
    (b.deleteStream wh reqSeq name).1.Replayable wh := by
  have hs := h.live.deleteStream wh reqSeq name
  unfold AdminBroker.deleteStream at hs ⊢
  cases hid : b.names.streamSeq (wh name) with
  | none => exact h
  | some id =>
    rw [hid] at hs
    have hid' : (b.restart wh).names.streamSeq (wh name) = some id := (h.agrees.streamSeq _).trans hid
    refine .snoc hs rfl rfl (h.recovered.redo_deleteStream hid') ?_
    rw [redo_single (apply_deleteStream hid'), h.agrees.consumersForStream]
    exact (foldl_rel (r := Agrees) h.agrees fun c _ _ _ h => h.removeConsumerById c).removeStream (wh name)

theorem Replayable.deleteConsumer (h : b.Replayable wh) (reqSeq : ℕ) (id : ConsumerId) :
    (b.deleteConsumer reqSeq id).1.Replayable wh :=
  .snoc (h.live.deleteConsumer reqSeq id) rfl rfl (h.recovered.redo_deleteConsumer id) (h.agrees.removeConsumerById id)

theorem Replayable.subscribe (h : b.Replayable wh) (conn : ConnectionId) (req : SubscribeReq) :
    (b.subscribe wh conn req).1.Replayable wh := by
  have hs := h.live.subscribe wh conn req
  rcases subscribe_cases wh h.live conn req with ⟨names, code, ⟨keys, next, subs, nextSub, rfl⟩, heq⟩ |
    ⟨stream, filters, sid, names, e, -, -, -, ⟨keys, next, subs, nextSub, rfl⟩, -, heq⟩
  · rw [heq] at hs ⊢
    exact h.same hs rfl rfl ⟨⟨rfl, rfl⟩, rfl, rfl, rfl⟩
  · rw [heq] at hs ⊢
    exact h.same hs rfl rfl ⟨⟨rfl, rfl⟩, rfl, rfl, rfl⟩

/-- A `CreateConsumer` for which a new id is allocated is not refused by the rules. -/
def Admits (b : AdminBroker) : AdminAction → Prop
  | .request (.createConsumer req quota _) => ∀ stream, b.Allocates req quota stream →
      b.names.consumersByName.lookup (stream, req.name) = none → ∃ filter, b.ruling req stream = .ok filter
  | _ => True

/-- A `CreateConsumer` whose consumer was attached before, or for which no id was left. -/
theorem Sound.allocated_eq (h : b.Sound) {stream : StreamId}
    (hold : (b.idFor stream name) = consumerSlotFull ∨ (b.names.consumerStream (b.idFor stream name)).isSome) :
    (b.names.getOrCreateConsumer stream name).2 = b.names := by
  rcases getOrCreateConsumer_cases h.names with
    ⟨c, -, hget⟩ | ⟨-, hget⟩ | ⟨-, c, pool, hget, hlt, hnone, -⟩
  · rw [hget]
  · rw [hget]
  rw [idFor, hget] at hold
  rcases hold with hfull | hsome
  · have hc : c = consumerSlotFull := hfull
    rw [hc] at hlt
    exact absurd hlt (by decide)
  · rw [hnone] at hsome
    cases hsome

theorem Sound.filterWritten_agrees (h : b.Sound) {stream : StreamId}
    (hold : (b.idFor stream req.name) = consumerSlotFull ∨ (b.names.consumerStream (b.idFor stream req.name)).isSome) :
    (b.filterWritten req stream filter).names.Agrees b.names := by
  unfold AdminBroker.filterWritten
  rw [h.allocated_eq hold]
  exact ⟨⟨rfl, rfl⟩, rfl, rfl, rfl⟩

theorem Sound.unattached (h : b.Sound) {stream : StreamId} (hfull : (b.idFor stream name) ≠ consumerSlotFull)
    (hnone : (b.engineOf stream).entities.consumers (b.idFor stream name) = none) :
    b.names.consumerStream (b.idFor stream name) = none := by
  obtain ⟨hok, -, hatt, -, -, hname⟩ := h.names.getOrCreateConsumer stream name
  cases hc : b.names.consumerStream (b.idFor stream name) with
  | none => rfl
  | some t =>
    obtain rfl : t = stream := hok.attached_eq (hname.resolve_left hfull) ((congrFun hatt _).trans hc)
    obtain ⟨info, hinfo, -⟩ := h.info hc
    rw [hnone] at hinfo
    cases hinfo

theorem recreated_agrees (h : x.names.Agrees b.names) {stream : StreamId} {startSeq : ℕ} :
    (x.recreated (logged req startSeq) stream).Agrees
      ((b.filterWritten req stream filter).agreedNames req stream (b.idFor stream req.name) startSeq) := by
  obtain ⟨(hid : x.idFor stream req.name = b.idFor stream req.name), hr⟩ := h.getOrCreateConsumer stream req.name
  have hw : (x.names.getOrCreateConsumer stream req.name).2.Agrees (b.filterWritten req stream filter).names :=
    ⟨hr.streams, hr.consumers, hr.pool, hr.attached⟩
  rw [← hid]
  exact (hw.queue (logged req startSeq) req.toConsumerRecord stream).attach _ _ _ stream _ _ _ _

theorem Replayable.creates (h : b.Replayable wh) {quota : Bool} {journalTail : ℕ} {out : AdminBroker × AdminReply}
    (hadm : b.Admits (.request (.createConsumer req quota journalTail))) (hc : Creates wh b req quota out) :
    out.1.Replayable wh := by
  have hs := hc.sound h.live
  cases hc with
  | refused => exact h
  | @barred stream v hal hrule =>
    -- refused by the rules: the name had its id before
    refine h.same hs rfl rfl ?_
    rcases getOrCreateConsumer_cases h.live.names with
      ⟨c, -, hget⟩ | ⟨-, hget⟩ | ⟨hl, -⟩
    · rw [hget]
      exact .refl _
    · rw [hget]
      exact .refl _
    · obtain ⟨filter, hok⟩ := hadm stream hal hl
      rw [hok] at hrule
      cases hrule
  | full hal hrule hfull => exact h.same hs rfl rfl (h.live.filterWritten_agrees (.inl hfull))
  | @asked stream filter _ hal hrule hslot hlive hname hout =>
  have hw := h.live.filterWritten req stream filter
  -- a consumer that the engine knows had its id before
  have hknown {info : ConsumerInfo} (hinfo : (b.engineOf stream).entities.consumers (b.idFor stream req.name) = some info) :
      (b.filterWritten req stream filter).names.Agrees b.names :=
    h.live.filterWritten_agrees (.inr (by rw [(h.live.attached hinfo).1]; rfl))
  cases hout with
  | differs hinfo =>
    obtain ⟨keys, next, hq⟩ := req.queue_eq (b.filterWritten req stream filter).names stream
    have hagr := hknown hinfo
    rw [hq] at hs ⊢
    exact h.same hs rfl rfl ⟨hagr.streams, hagr.consumers, hagr.pool, hagr.attached⟩
  | again startSeq hinfo => exact h.same hs rfl rfl ((hw.agreed hname hinfo startSeq).trans (hknown hinfo))
  | new startSeq hnone =>
  have hdetached := h.live.unattached hslot hnone
  have hid : (b.restart wh).idFor stream req.name = b.idFor stream req.name :=
    (h.agrees.getOrCreateConsumer stream req.name).1
  have hseq : (b.restart wh).names.streamSeq req.streamId = some stream := (h.agrees.streamSeq _).trans hal.stream
  have hsound : (redo wh (b.restart wh) (.createConsumer (logged req startSeq))).Sound := by
    refine h.recovered.redo_createConsumer hal.grouped hseq ?_ ?_
    · show ((b.restart wh).idFor stream req.name) ≠ _
      rw [hid]
      exact hslot
    · show (b.restart wh).names.consumerStream ((b.restart wh).idFor stream req.name) = none
      rw [hid, h.agrees.attached]
      exact hdetached
  obtain ⟨config, -, -, happly⟩ := apply_createConsumer (logged req startSeq) hal.grouped hseq
  refine Replayable.snoc (b := b) hs rfl rfl hsound ?_
  rw [redo_single happly]
  exact recreated_agrees h.agrees

theorem Replayable.handle (h : b.Replayable wh) {req : AdminRequest} (hadm : b.Admits (.request req)) :
    (b.handle wh req).1.Replayable wh := by
  cases req with
  | createStream req quota => exact h.createStream req quota
  | deleteStream reqSeq name => exact h.deleteStream reqSeq name
  | createConsumer req quota journalTail => exact h.creates hadm (h.live.creates wh req quota journalTail)
  | deleteConsumer reqSeq id => exact h.deleteConsumer reqSeq id
  | subscribe conn req => exact h.subscribe conn req

namespace Shifted

/-- A stream for `a.>`. -/
def stream : AdminAction := .request (.createStream ⟨[97], [97, 46, 62], 0, 0, 1, 0, 0⟩ true)

/-- A consumer of it. -/
def consumer (name filter : Bytes) : AdminAction :=
  .request (.createConsumer ⟨⟨sampleHash [97], name, [103], filter, 1, 1, 0, 0, 0, 0, []⟩, none⟩ true 0)

/-- The stream is deleted. -/
def deletion : AdminAction := .request (.deleteStream 7 [97])

end Shifted

end AdminBroker

end Arbitro
