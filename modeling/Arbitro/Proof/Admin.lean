import Arbitro.Proof.Entities
import Arbitro.Proof.Names

/-!
# Management requests: what each can do

* `AdminBroker.Sound`: a shard's engine knows exactly the streams of the shard and the consumers
  attached to them. Every request keeps it (`Sound.handle`), rejected ones included.
* `createStream_cases`, `Creates`, `deleteConsumer_eq`, `subscribe_cases`: what a request can do
  to registry, engines and log.
-/

namespace Arbitro

open NameRegistry AdminBroker Option Entities
open Function (update update_apply update_self update_of_ne update_eq_self)

namespace NameRegistry

variable {r names : NameRegistry} {wire : SubjectHash} {name filter : Bytes} {created : Bool} {id : StreamId}

/-- **What a `CreateStream` that gets an id does to the registry.** -/
theorem getOrCreateStreamChecked_cases (h : r.getOrCreateStreamChecked wire name filter = .ok (.slot id created, names)) :
    (created = false ∧ names = r ∧ r.streamSeq wire = some id ∧ r.collides wire name = false ∧
      StreamRules.onRecreate filter (r.streamFilters id) = .ok ()) ∨
    (created = true ∧ r.streamSeq wire = none ∧ StreamRules.onCreate filter r.claimed = .ok () ∧
      ∃ streams, r.streams.getOrCreateStreamChecked wire name true = some (id, true, streams) ∧
        names = { r.freshStream streams id with streamFilters := update r.streamFilters id filter }) := by
  unfold getOrCreateStreamChecked at h
  cases hs : r.streamSeq wire with
  | some id' =>
    simp only [hs] at h
    split at h
    · cases h
    case isFalse hcol =>
    split at h
    · cases h
    case h_2 u hrule =>
      obtain ⟨⟨rfl, rfl⟩, rfl⟩ : (id' = id ∧ false = created) ∧ r = names := by simpa using h
      exact .inl ⟨rfl, rfl, rfl, by simpa using hcol, hrule⟩
  | none =>
    simp only [hs] at h
    split at h
    · cases h
    case h_2 u hrule =>
    split at h
    · cases h
    case h_2 id' c streams hc =>
    obtain ⟨⟨rfl, rfl⟩, rfl⟩ : (id' = id ∧ true = created) ∧ _ = names := by simpa using h
    rcases StreamRegistry.checked_eq_some hc with ⟨-, -, hl⟩ | ⟨rfl, -⟩
    · cases hl.symm.trans hs
    exact .inr ⟨rfl, rfl, hrule, streams, hc, rfl⟩

theorem OK.checked (h : r.OK) (hc : r.getOrCreateStreamChecked wire name filter = .ok (.slot id created, names)) :
    names.OK ∧ names.streamSeq wire = some id ∧ (∀ s, names.streams.Live s ↔ r.streams.Live s ∨ s = id) ∧
      names.consumerStream = r.consumerStream := by
  rcases getOrCreateStreamChecked_cases hc with ⟨-, rfl, hseq, -⟩ | ⟨-, -, -, streams, hnew, rfl⟩
  · refine ⟨h, hseq, fun s => ⟨.inl, ?_⟩, rfl⟩
    rintro (hl | rfl)
    · exact hl
    · exact ⟨wire, hseq⟩
  rcases StreamRegistry.checked_cases h.streams hnew with ⟨hfalse, -⟩ | ⟨-, hadds⟩
  · cases hfalse
  have hlive : ∀ s, streams.Live s ↔ r.streams.Live s ∨ s = id :=
    fun s => StreamRegistry.live_insert hadds.absent hadds.streams
  refine ⟨⟨hadds.ok, h.inj, h.pool, h.max, fun c s hcs => ?_⟩, ?_, hlive, rfl⟩
  · obtain ⟨hname, hl⟩ := h.attached c s hcs
    exact ⟨hname, (hlive s).2 (.inl hl)⟩
  · show streams.streamsByWire.lookup wire = some id
    rw [hadds.streams, Map.lookup_insert_eq, if_pos rfl]

theorem getOrCreateQueue_eq (r : NameRegistry) (stream : StreamId) (group : Bytes) :
    ∃ keys next, (r.getOrCreateQueue stream group).2 = { r with queuesByKey := keys, nextQueue := next } := by
  unfold getOrCreateQueue
  split
  · exact ⟨_, _, rfl⟩
  · exact ⟨_, _, rfl⟩

theorem resolveSubscription_eq (r : NameRegistry) (conn : ConnectionId) (client : ℕ) :
    ∃ subs next, (r.resolveSubscription conn client).2 =
      { r with subscriptionsByConn := subs, nextSubscription := next } := by
  unfold resolveSubscription
  split
  · exact ⟨_, _, rfl⟩
  · exact ⟨_, _, rfl⟩

/-- At most queue and subscription ids were handed out. -/
def Handed (r r' : NameRegistry) : Prop :=
  ∃ keys next subs nextSub, r' =
    { r with queuesByKey := keys, nextQueue := next, subscriptionsByConn := subs, nextSubscription := nextSub }

end NameRegistry

theorem ConsumerRecord.queue_eq (req : ConsumerRecord) (names : NameRegistry) (stream : StreamId) :
    ∃ keys next, (req.queue names stream).2 = { names with queuesByKey := keys, nextQueue := next } := by
  unfold ConsumerRecord.queue
  split
  · exact ⟨_, _, rfl⟩
  · exact names.getOrCreateQueue_eq stream req.group

/-- The registry once a consumer is attached with its queue. -/
theorem ConsumerRecord.attach_eq (req : ConsumerRecord) (names : NameRegistry) (stream : StreamId) (c : ConsumerId)
    (policy startSeq : ℕ) : ∃ keys next queues deliver,
      (((req.queue names stream).2.setConsumerQueue c (req.queue names stream).1).setConsumerStream c
        stream).setConsumerDeliverPolicy c policy startSeq =
      { names with
        queuesByKey := keys, nextQueue := next, consumerQueue := queues, consumerDeliver := deliver
        consumerStream := update names.consumerStream c (some stream) } := by
  obtain ⟨keys, next, hq⟩ := req.queue_eq names stream
  rw [hq]
  exact ⟨_, _, _, _, rfl⟩

namespace AdminBroker

variable {b : AdminBroker} {s stream : StreamId} {c : ConsumerId} {wire : SubjectHash} {names : NameRegistry}
  {req : CreateConsumerReq} (wh : WireHash)

/-- The engine that a stream is on. -/
abbrev engineOf (b : AdminBroker) (stream : StreamId) : Engine := b.engines (b.shardFor stream)

/-- The id that a consumer's name has or is given. -/
abbrev idFor (b : AdminBroker) (stream : StreamId) (name : Bytes) : ConsumerId :=
  (b.names.getOrCreateConsumer stream name).1

/-- **Registry and engines know the same streams and consumers.** -/
structure Sound (b : AdminBroker) : Prop where
  names : b.names.OK
  streams : ∀ i s, (b.engines i).entities.streams s = true ↔ b.names.streams.Live s ∧ b.shardFor s = i
  homes : ∀ i c, (b.engines i).entities.home c = (b.names.consumerStream c).filter (b.shardFor · == i)

theorem sound_new (shardCount : ℕ) : Sound { shardCount := shardCount } := by
  refine ⟨ok_new, fun i s => ⟨(nomatch ·), ?_⟩, fun i c => rfl⟩
  rintro ⟨⟨w, ⟨⟩⟩, -⟩

theorem Sound.lt (h : b.Sound) (hs : b.names.streams.Live s) : s ≤ maxEntityId := by
  have hmax : maxSlotCount ≤ maxEntityId := by decide
  exact (h.names.streams.lt hs).le.trans hmax

/-- An attached consumer is known to the engine of its stream's shard. -/
theorem Sound.info (h : b.Sound) (hc : b.names.consumerStream c = some s) :
    ∃ info, (b.engineOf s).entities.consumers c = some info ∧ info.streamId = s := by
  have hhome := h.homes (b.shardFor s) c
  rw [hc, filter_some, beq_self_eq_true, if_pos rfl] at hhome
  exact map_eq_some_iff.1 hhome

theorem Sound.attached (h : b.Sound) {i : ℕ} {info : ConsumerInfo}
    (hc : (b.engines i).entities.consumers c = some info) :
    b.names.consumerStream c = some info.streamId ∧ b.shardFor info.streamId = i := by
  have hhome : (b.engines i).entities.home c = some info.streamId := by
    unfold home
    rw [hc]
    rfl
  rw [h.homes, filter_eq_some_iff, beq_iff_eq] at hhome
  exact hhome

theorem Sound.exists_stream (h : b.Sound) (hs : b.names.streams.Live s) :
    (b.engineOf s).entities.streams s = true := (h.streams _ s).2 ⟨hs, rfl⟩

/-! ## Steps of the invariant -/

section Steps

variable {b' : AdminBroker} {e : Engine} {id : StreamId} {i : ℕ}

theorem shardFor_congr (h : b'.shardCount = b.shardCount) : b'.shardFor = b.shardFor := by
  unfold shardFor
  rw [h]

/-- A part of the entities that the new engine of a shard has kept is the same in all shards. -/
theorem entities_update {α : Type} {f : Entities → α} (h : f e.entities = f (b.engines i).entities) (j : ℕ) :
    f (update b.engines i e j).entities = f (b.engines j).entities := by
  rw [update_apply]
  split
  case isTrue hj => rw [hj, h]
  case isFalse => rfl

/-- Where the shard's engine sets the flag of one stream, only that one changes. -/
theorem Sound.flag (h : b.Sound) (on : Bool)
    (he : e.entities.streams = update (b.engineOf id).entities.streams id on) :
    (update b.engines (b.shardFor id) e i).entities.streams s = true ↔
      (if s = id then on = true else b.names.streams.Live s) ∧ b.shardFor s = i := by
  by_cases hs : s = id
  · rw [if_pos hs, hs, update_apply]
    split
    case isTrue hi => rw [he, update_self, hi, and_iff_left rfl]
    case isFalse hi => simp [h.streams, Ne.symm hi]
  · have hkept : e.entities.streams s = (b.engineOf id).entities.streams s := by
      rw [he, update_of_ne hs]
    rw [if_neg hs, entities_update (f := fun x => x.streams s) hkept, h.streams]

variable (h : b.Sound) (hsh : b'.shardCount = b.shardCount)

include h hsh

theorem Sound.same (hn : b'.names.Agrees b.names)
    (hs : ∀ i, (b'.engines i).entities.streams = (b.engines i).entities.streams)
    (hc : ∀ i, (b'.engines i).entities.home = (b.engines i).entities.home) : b'.Sound := by
  have hshard := shardFor_congr hsh
  refine ⟨hn.ok h.names, fun i s => ?_, fun i c => ?_⟩
  · rw [hs, h.streams, hn.streams.live, hshard]
  · rw [hc, h.homes, hn.attached, hshard]

theorem Sound.addStream (hok : b'.names.OK) (hlive : ∀ s, b'.names.streams.Live s ↔ b.names.streams.Live s ∨ s = id)
    (hatt : b'.names.consumerStream = b.names.consumerStream) (heng : b'.engines = update b.engines (b.shardFor id) e)
    (he : e.entities = (b.engineOf id).entities.addStream id) : b'.Sound := by
  have hshard := shardFor_congr hsh
  refine ⟨hok, fun i s => ?_, fun i c => ?_⟩
  · rw [hlive, hshard, heng, h.flag true (by rw [he]; rfl)]
    split
    case isTrue hs => simp [hs]
    case isFalse hs => rw [or_iff_left hs]
  · have hkept : e.entities.home = (b.engineOf id).entities.home := by rw [he, home_addStream]
    rw [hatt, hshard, heng, entities_update hkept, h.homes]

theorem Sound.attach {s : StreamId} (hok : b'.names.OK) (hlive : ∀ x, b'.names.streams.Live x ↔ b.names.streams.Live x)
    (hold : ∀ t, b.names.consumerStream c = some t → t = s)
    (hatt : b'.names.consumerStream = update b.names.consumerStream c (some s))
    (heng : b'.engines = update b.engines (b.shardFor s) e) (hs : e.entities.streams = (b.engineOf s).entities.streams)
    (hc : e.entities.home = update (b.engineOf s).entities.home c (some s)) : b'.Sound := by
  have hshard := shardFor_congr hsh
  refine ⟨hok, fun i x => ?_, fun i x => ?_⟩
  · rw [hlive, hshard, heng, entities_update hs, h.streams]
  rw [hatt, hshard, heng, update_apply]
  split
  case isTrue hi =>
    rw [hc, update_apply, update_apply, hi]
    split
    · rw [filter_some, beq_self_eq_true, if_pos rfl]
    · exact h.homes _ x
  case isFalse hi =>
  rw [update_apply, h.homes]
  split
  case isTrue hx =>
    subst hx
    have hne : (b.shardFor s == i) = false := by simpa using fun hsi => hi hsi.symm
    rw [filter_some, hne]
    cases hcs : b.names.consumerStream x with
    | none => rfl
    | some t =>
      obtain rfl := hold t hcs
      rw [filter_some, hne]
  case isFalse => rfl

theorem Sound.detach (hi : ∀ s, b.names.consumerStream c = some s → b.shardFor s = i) (hd : b.names.Drops b'.names (· = c))
    (heng : b'.engines = update b.engines i e)
    (he : e.entities = (b.engines i).entities.dropConsumers (· == c)) : b'.Sound := by
  have hshard := shardFor_congr hsh
  refine ⟨hd.ok, fun j x => ?_, fun j x => ?_⟩
  · have hkept : e.entities.streams = (b.engines i).entities.streams := by
      rw [he]
      rfl
    rw [hd.streams, hshard, heng, entities_update hkept, h.streams]
  rw [hshard, heng, update_apply]
  by_cases hx : x = c
  · rw [(hd.attached x).1 hx, filter_none]
    subst hx
    split
    · rw [he, home_dropConsumers, beq_self_eq_true, if_pos rfl]
    case isFalse hj =>
    rw [h.homes]
    cases hcs : b.names.consumerStream x with
    | none => rfl
    | some s =>
      have hne : (b.shardFor s == j) = false := by simpa [hi s hcs] using Ne.symm hj
      rw [filter_some, hne]
      rfl
  · rw [(hd.attached x).2 hx]
    split
    case isTrue hj => rw [he, home_dropConsumers, if_neg (by simpa using hx), h.homes, hj]
    case isFalse => exact h.homes j x

theorem Sound.dropStream {wire : SubjectHash} (hid : b.names.streamSeq wire = some id)
    (hn : b'.names = ((b.names.consumersForStream id).foldl removeConsumerById b.names).removeStream wire)
    (heng : b'.engines = update b.engines (b.shardFor id) e)
    (he : e.entities = (b.engineOf id).entities.dropStream id) : b'.Sound := by
  have hshard := shardFor_congr hsh
  have hd := removeConsumers_drops (b.names.consumersForStream id) h.names
  generalize hr : (b.names.consumersForStream id).foldl removeConsumerById b.names = r at hd hn
  have hid' : r.streamSeq wire = some id := by
    unfold streamSeq
    rw [hd.streams]
    exact hid
  have hatt : ∀ c, r.consumerStream c = if b.names.consumerStream c = some id then none else b.names.consumerStream c := by
    intro c
    split
    case isTrue hc => exact (hd.attached c).1 ((mem_consumersForStream h.names).2 hc)
    case isFalse hc => exact (hd.attached c).2 fun hmem => hc ((mem_consumersForStream h.names).1 hmem)
  have hatt' : b'.names.consumerStream = r.consumerStream := by
    rw [hn, removeStream_eq hid']
  refine ⟨?_, fun i s => ?_, fun i c => ?_⟩
  · rw [hn]
    refine hd.ok.removeStream hid' fun c hc => ?_
    rw [hatt] at hc
    split at hc
    · cases hc
    case isFalse hne => exact hne hc
  · have hlive : b'.names.streams.Live s ↔ b.names.streams.Live s ∧ s ≠ id := by
      rw [hn, removeStream_eq hid', ← hd.streams]
      exact StreamRegistry.live_removeStream hd.ok.streams hid'
    rw [hlive, hshard, heng, h.flag false (by rw [he]; rfl)]
    split
    case isTrue hs => simp [hs]
    case isFalse hs => rw [and_iff_left hs]
  rw [hatt', hatt, hshard, heng, update_apply]
  by_cases hc : b.names.consumerStream c = some id
  · rw [if_pos hc, filter_none]
    split
    · rw [he, home_dropStream, h.homes, hc, filter_some, beq_self_eq_true, if_pos rfl, if_pos rfl]
    case isFalse hi =>
      have hne : (b.shardFor id == i) = false := by simpa using Ne.symm hi
      rw [h.homes, hc, filter_some, hne]
      rfl
  rw [if_neg hc]
  split
  case isTrue hi =>
    rw [he, home_dropStream, h.homes, hi, if_neg]
    intro hsome
    exact hc (filter_eq_some_iff.1 hsome).1
  case isFalse => exact h.homes i c

end Steps

variable (e : Engine) {name filter : Bytes} {info : ConsumerInfo} {created : Bool} {id : StreamId} {quota : Bool}
  {out : AdminBroker × AdminReply}

/-! ## Streams -/

/-- What the handlers check of a filter. -/
theorem empty_or_valid (h : ¬ (!filter.isEmpty && !validateSubject filter) = true) :
    filter = [] ∨ validateSubject filter = true := by
  by_cases hnil : filter = []
  · exact .inl hnil
  · exact .inr (by simpa [hnil] using h)

/-- What a `CreateStream` that got an id leaves. -/
def streamCreated (b : AdminBroker) (req : CreateStreamReq) (id : StreamId) (names : NameRegistry) : AdminBroker :=
  { b.setEngine (b.shardFor id) ((b.engines (b.shardFor id)).createStream ⟨id, req.name⟩).1 with
    names := ((names.setStreamIdempotency id req.idempotencyWindowMs).setStreamReplicas id
      req.replicas).setStreamQuota id req.quota
    log := b.log ++ [.createStream req] }

/-- The engine has room for every id that the registry hands out. -/
theorem Sound.slot_le (h : b.Sound) (hc : b.names.getOrCreateStreamChecked wire name filter = .ok (.slot id created, names)) :
    id ≤ maxEntityId := by
  obtain ⟨hok, hseq, -, -⟩ := h.names.checked hc
  exact (hok.streams.lt ⟨_, hseq⟩).le.trans (by decide)

/-- So the engine never refuses a stream. -/
theorem Sound.createStream_eq (h : b.Sound) (req : CreateStreamReq) (quota : Bool) :
    b.createStream wh req quota = if !quota then (b, .repError .streamFull)
      else if !validateName req.name then (b, .repError .invalidLength)
      else if !req.filter.isEmpty && !validateSubject req.filter then (b, .repError .invalidLength)
      else
        match b.names.getOrCreateStreamChecked (wh req.name) req.name req.filter with
        | .error v => (b, .repError v.wireCode)
        | .ok (.full, _) => (b, .repError .streamFull)
        | .ok (.collision, _) => (b, .repError .streamAlreadyExists)
        | .ok (.slot id _, names) => (b.streamCreated req id names, .repOk (wh req.name).toNat) := by
  unfold createStream
  split
  · rfl
  split
  · rfl
  split
  · rfl
  cases hc : b.names.getOrCreateStreamChecked (wh req.name) req.name req.filter with
  | error v => rfl
  | ok r =>
    obtain ⟨slot, names⟩ := r
    cases slot with
    | full => rfl
    | collision => rfl
    | slot id created =>
      rcases (b.engineOf id).createStream_cases ⟨id, req.name⟩ with ⟨-, hres, -⟩ | ⟨hgt, -⟩
      · simp only [streamCreated]
        generalize (b.engineOf id).createStream ⟨id, req.name⟩ = r at hres
        obtain ⟨e, res⟩ := r
        obtain rfl : res = .ok () := hres
        rfl
      · exact absurd hgt (Nat.not_lt.2 (h.slot_le hc))

theorem Sound.entities_createStream (h : b.Sound)
    (hc : b.names.getOrCreateStreamChecked wire name filter = .ok (.slot id created, names)) :
    ((b.engineOf id).createStream ⟨id, name⟩).1.entities = (b.engineOf id).entities.addStream id := by
  rcases (b.engineOf id).createStream_cases ⟨id, name⟩ with ⟨-, -, hent⟩ | ⟨hgt, -⟩
  · exact hent
  · exact absurd hgt (Nat.not_lt.2 (h.slot_le hc))

/-- **What a `CreateStream` can do.** -/
theorem createStream_cases (h : b.Sound) (req : CreateStreamReq) (quota : Bool) :
    (∃ code, b.createStream wh req quota = (b, .repError code)) ∨
    ∃ id created names, (req.filter = [] ∨ validateSubject req.filter = true) ∧
      b.names.getOrCreateStreamChecked (wh req.name) req.name req.filter = .ok (.slot id created, names) ∧
      ((b.engineOf id).createStream ⟨id, req.name⟩).1.entities = (b.engineOf id).entities.addStream id ∧
      b.createStream wh req quota = (b.streamCreated req id names, .repOk (wh req.name).toNat) := by
  rw [h.createStream_eq wh]
  split
  · exact .inl ⟨_, rfl⟩
  split
  · exact .inl ⟨_, rfl⟩
  split
  · exact .inl ⟨_, rfl⟩
  case isFalse hvalid =>
  split
  · exact .inl ⟨_, rfl⟩
  · exact .inl ⟨_, rfl⟩
  · exact .inl ⟨_, rfl⟩
  case h_4 id created names hc => exact .inr ⟨id, created, names, empty_or_valid hvalid, hc, h.entities_createStream hc, rfl⟩

theorem Sound.createStream (h : b.Sound) (req : CreateStreamReq) (quota : Bool) :
    (b.createStream wh req quota).1.Sound := by
  rcases createStream_cases wh h req quota with ⟨code, heq⟩ | ⟨id, created, names, -, hc, hent, heq⟩
  · rw [heq]
    exact h
  · obtain ⟨hok, -, hlive, hatt⟩ := h.names.checked hc
    rw [heq]
    exact h.addStream rfl ⟨hok.streams, hok.inj, hok.pool, hok.max, hok.attached⟩ hlive hatt rfl hent

theorem Sound.deleteStream (h : b.Sound) (reqSeq : ℕ) (name : Bytes) : (b.deleteStream wh reqSeq name).1.Sound := by
  unfold AdminBroker.deleteStream
  split
  · exact h
  case h_2 id hid => exact h.dropStream rfl hid rfl rfl (Engine.entities_deleteStream _ id)

/-! ## Consumers -/

/-- A `CreateConsumer` that gets as far as the allocation of an id. -/
structure Allocates (b : AdminBroker) (req : CreateConsumerReq) (quota : Bool) (stream : StreamId) : Prop where
  stream : b.names.streamSeq req.streamId = some stream
  name : validateName req.name = true
  grouped : req.group.isEmpty = false
  group : validateName req.group = true
  subject : req.subject = [] ∨ validateSubject req.subject = true
  quota : quota = true

/-- The checks before it. -/
def screened (b : AdminBroker) (req : CreateConsumerReq) (quota : Bool) : Except ErrorCode StreamId :=
  match b.names.streamSeq req.streamId with
  | none => .error .streamNotFound
  | some stream =>
    if !validateName req.name then .error .invalidLength
    else if req.group.isEmpty then .error .invalidConsumerConfig
    else if !validateName req.group then .error .invalidLength
    else if !req.subject.isEmpty && !validateSubject req.subject then .error .invalidLength
    else if !quota then .error .consumerAlreadyExists
    else .ok stream

theorem allocates_of_screened (h : b.screened req quota = .ok stream) : b.Allocates req quota stream := by
  unfold screened at h
  split at h
  · cases h
  case h_2 s hs =>
  split at h
  · cases h
  case isFalse hname =>
  split at h
  · cases h
  case isFalse hgrouped =>
  split at h
  · cases h
  case isFalse hgroup =>
  split at h
  · cases h
  case isFalse hsubject =>
  split at h
  · cases h
  case isFalse hquota =>
  obtain rfl : s = stream := Except.ok.inj h
  exact ⟨hs, by simpa using hname, by simpa using hgrouped, by simpa using hgroup, empty_or_valid hsubject,
    by simpa using hquota⟩

/-- What the rules say of it. -/
def ruling (b : AdminBroker) (req : CreateConsumerReq) (stream : StreamId) : Except Violation Bytes :=
  ConsumerRules.onCreate req.subject ((b.names.getOrCreateConsumer stream req.name).2.streamFilters stream)
    ((b.names.getOrCreateConsumer stream req.name).2.siblingConsumerFilters stream
      (b.names.getOrCreateConsumer stream req.name).1)

/-- The broker once the filter is written. -/
def filterWritten (b : AdminBroker) (req : CreateConsumerReq) (stream : StreamId) (filter : Bytes) : AdminBroker :=
  { b with
    names := (b.names.getOrCreateConsumer stream req.name).2.setConsumerFilter
      (b.names.getOrCreateConsumer stream req.name).1 filter }

section CreateConsumer

variable (b : AdminBroker) (req : CreateConsumerReq) (stream : StreamId) (c : ConsumerId) (filter : Bytes) (quota : Bool)
  (journalTail : ℕ)

theorem createConsumer_eq :
    b.createConsumer wh req quota journalTail =
      match b.screened req quota with
      | .error code => (b, .repError code)
      | .ok stream =>
        match b.ruling req stream with
        | .error v => ({ b with names := (b.names.getOrCreateConsumer stream req.name).2 }, .repError v.wireCode)
        | .ok filter =>
          if (b.idFor stream req.name) = consumerSlotFull then
            (b.filterWritten req stream filter, .repError .consumerAlreadyExists)
          else engineCreate wh (b.filterWritten req stream filter) req stream
            (b.idFor stream req.name) filter journalTail := by
  unfold createConsumer screened
  cases b.names.streamSeq req.streamId with
  | none => rfl
  | some stream =>
  cases validateName req.name with
  | false => rfl
  | true =>
  cases req.group.isEmpty with
  | true => rfl
  | false =>
  cases validateName req.group with
  | false => rfl
  | true =>
  cases !req.subject.isEmpty && !validateSubject req.subject with
  | true => rfl
  | false =>
  cases quota with
  | false => rfl
  | true => rfl

/-- The configuration that the engine is asked for. -/
def askedConfig (b : AdminBroker) (req : CreateConsumerReq) (stream : StreamId) (c : ConsumerId) (filter : Bytes) :
    ConsumerConfig :=
  req.config c (req.queue b.names stream).1 stream req.effectiveMaxInflight (req.maxNack.getD 0) filter

/-- The registry after the engine agreed. -/
def agreedNames (b : AdminBroker) (req : CreateConsumerReq) (stream : StreamId) (c : ConsumerId) (startSeq : ℕ) :
    NameRegistry :=
  (((req.queue b.names stream).2.setConsumerQueue c (req.queue b.names stream).1).setConsumerStream c
    stream).setConsumerDeliverPolicy c req.deliverPolicy startSeq

/-- What the log says of a new consumer. -/
def logged (req : CreateConsumerReq) (startSeq : ℕ) : ConsumerRecord :=
  { req.toConsumerRecord with maxInflight := req.effectiveMaxInflight, startSeq := startSeq }

theorem engineCreate_match : engineCreate wh b req stream c filter journalTail =
      match (b.engineOf stream).createConsumer (b.askedConfig req stream c filter) with
      | (_, .error _) => ({ b with names := (req.queue b.names stream).2 }, .repError .invalidConsumerConfig)
      | (engine, .ok new) =>
        ({ b.setEngine (b.shardFor stream) (if new then engine.setLimits wh stream req.limits else engine) with
            names := b.agreedNames req stream c
              (effectiveStartSeq (req.queue b.names stream).2 req c new journalTail)
            log := if new then b.log ++ [.createConsumer
                { req.toConsumerRecord with
                  maxInflight := req.effectiveMaxInflight
                  startSeq := effectiveStartSeq (req.queue b.names stream).2 req c new journalTail }]
              else b.log }, .repOk c) := rfl

/-- **The engine's part of a `CreateConsumer`** on a stream it knows. -/
theorem engineCreate_eq (hs : (b.engineOf stream).entities.streams stream = true) :
    engineCreate wh b req stream c filter journalTail =
      match (b.engineOf stream).entities.consumers c with
      | some info =>
        if info.sameConfig (b.askedConfig req stream c filter) then
          ({ b with
              names := b.agreedNames req stream c
                (effectiveStartSeq (req.queue b.names stream).2 req c false journalTail) }, .repOk c)
        else ({ b with names := (req.queue b.names stream).2 }, .repError .invalidConsumerConfig)
      | none =>
        ({ b.setEngine (b.shardFor stream)
              (((b.engineOf stream).createConsumer (b.askedConfig req stream c filter)).1.setLimits wh stream
                req.limits) with
            names := b.agreedNames req stream c
              (effectiveStartSeq (req.queue b.names stream).2 req c true journalTail)
            log := b.log ++ [.createConsumer
              (logged req (effectiveStartSeq (req.queue b.names stream).2 req c true journalTail))] }, .repOk c) := by
  have hcases := (b.engineOf stream).createConsumer_cases (b.askedConfig req stream c filter)
  rw [engineCreate_match]
  rcases hcases with ⟨hno, -⟩ | ⟨-, hnone, hres, -⟩ | ⟨-, info, hsome, -⟩
  · exact absurd (hs.symm.trans hno) (by decide)
  · rw [show (b.engineOf stream).entities.consumers c = none from hnone]
    generalize (b.engineOf stream).createConsumer (b.askedConfig req stream c filter) = r at hres
    obtain ⟨e, res⟩ := r
    obtain rfl : res = .ok true := hres
    rfl
  rw [show (b.engineOf stream).entities.consumers c = some info from hsome, Engine.createConsumer_known _ hs hsome]
  cases hsame : info.sameConfig (b.askedConfig req stream c filter) with
  | false => simp [hsame]
  | true =>
    have hself : b.setEngine (b.shardFor stream) (b.engineOf stream) = b := by
      unfold setEngine
      rw [update_eq_self]
    simp only [Bool.false_eq_true, if_false, hself, hsame, if_true]

theorem entities_newConsumer (config : ConsumerConfig) (limits : List (Bytes × ℕ))
    (hs : e.entities.streams config.streamId = true) (hc : e.entities.consumers config.id = none) :
    ((e.createConsumer config).1.setLimits wh config.streamId limits).entities = e.entities.addConsumer config := by
  rw [Engine.entities_setLimits]
  rcases e.createConsumer_cases config with ⟨hno, -⟩ | ⟨-, -, -, hent⟩ | ⟨-, info, hno, -⟩
  · exact absurd (hs.symm.trans hno) (by decide)
  · exact hent
  · rw [hc] at hno
    cases hno

end CreateConsumer

/-- **What the engine's part of a `CreateConsumer` can do** on a stream it knows. -/
inductive Engaged (wh : WireHash) (b : AdminBroker) (req : CreateConsumerReq) (stream : StreamId) (c : ConsumerId)
    (filter : Bytes) : AdminBroker × AdminReply → Prop
  | differs {info : ConsumerInfo} (hinfo : (b.engineOf stream).entities.consumers c = some info)
      (hsame : info.sameConfig (b.askedConfig req stream c filter) = false) : Engaged wh b req stream c filter
        ({ b with names := (req.queue b.names stream).2 }, .repError .invalidConsumerConfig)
  | again {info : ConsumerInfo} (startSeq : ℕ) (hinfo : (b.engineOf stream).entities.consumers c = some info)
      (hsame : info.sameConfig (b.askedConfig req stream c filter) = true) : Engaged wh b req stream c filter
        ({ b with names := b.agreedNames req stream c startSeq }, .repOk c)
  | new {e : Engine} (startSeq : ℕ) (hnone : (b.engineOf stream).entities.consumers c = none)
      (he : e = ((b.engineOf stream).createConsumer (b.askedConfig req stream c filter)).1.setLimits wh stream req.limits)
      (hent : e.entities = (b.engineOf stream).entities.addConsumer (b.askedConfig req stream c filter)) :
      Engaged wh b req stream c filter
        ({ b.setEngine (b.shardFor stream) e with
            names := b.agreedNames req stream c startSeq
            log := b.log ++ [.createConsumer (logged req startSeq)] }, .repOk c)

theorem engineCreate_engaged (hs : (b.engineOf stream).entities.streams stream = true) (filter : Bytes) (journalTail : ℕ) :
    Engaged wh b req stream c filter (engineCreate wh b req stream c filter journalTail) := by
  rw [engineCreate_eq wh b req stream c filter journalTail hs]
  cases hc : (b.engineOf stream).entities.consumers c with
  | none => exact .new _ hc rfl (entities_newConsumer wh _ (b.askedConfig req stream c filter) _ hs hc)
  | some info =>
    cases hsame : info.sameConfig (b.askedConfig req stream c filter) with
    | false =>
      simp only [hsame, Bool.false_eq_true, if_false]
      exact .differs hc hsame
    | true =>
      simp only [hsame, if_true]
      exact .again _ hc hsame

/-- **What a `CreateConsumer` can do.** -/
inductive Creates (wh : WireHash) (b : AdminBroker) (req : CreateConsumerReq) (quota : Bool) :
    AdminBroker × AdminReply → Prop
  | refused (code : ErrorCode) : Creates wh b req quota (b, .repError code)
  | barred {stream : StreamId} {v : Violation} (hal : b.Allocates req quota stream) (hrule : b.ruling req stream = .error v) :
      Creates wh b req quota ({ b with names := (b.names.getOrCreateConsumer stream req.name).2 }, .repError v.wireCode)
  | full {stream : StreamId} {filter : Bytes} (hal : b.Allocates req quota stream)
      (hrule : b.ruling req stream = .ok filter) (hfull : b.idFor stream req.name = consumerSlotFull) :
      Creates wh b req quota (b.filterWritten req stream filter, .repError .consumerAlreadyExists)
  | asked {stream : StreamId} {filter : Bytes} {out : AdminBroker × AdminReply} (hal : b.Allocates req quota stream)
      (hrule : b.ruling req stream = .ok filter) (hslot : b.idFor stream req.name ≠ consumerSlotFull)
      (hlive : (b.filterWritten req stream filter).names.streams.Live stream)
      (hname : (b.filterWritten req stream filter).names.consumersByName.lookup (stream, req.name) =
        some (b.idFor stream req.name))
      (hout : Engaged wh (b.filterWritten req stream filter) req stream (b.idFor stream req.name) filter out) :
      Creates wh b req quota out

theorem Sound.allocated (h : b.Sound) :
    Sound { b with names := (b.names.getOrCreateConsumer stream name).2 } := by
  obtain ⟨hok, hstr, hatt, -⟩ := h.names.getOrCreateConsumer stream name
  refine ⟨hok, fun i s => ?_, fun i c => ?_⟩
  · show (b.engines i).entities.streams s = true ↔ (b.names.getOrCreateConsumer stream name).2.streams.Live s ∧ _
    rw [hstr]
    exact h.streams i s
  · show (b.engines i).entities.home c =
      ((b.names.getOrCreateConsumer stream name).2.consumerStream c).filter _
    rw [hatt]
    exact h.homes i c

theorem Sound.filterWritten (h : b.Sound) (req : CreateConsumerReq) (stream : StreamId) (filter : Bytes) :
    (b.filterWritten req stream filter).Sound :=
  h.allocated.same rfl ⟨⟨rfl, rfl⟩, rfl, rfl, rfl⟩ (fun _ => rfl) fun _ => rfl

theorem Sound.live_filterWritten (h : b.Sound) (hal : b.Allocates req quota stream) (filter : Bytes) :
    (b.filterWritten req stream filter).names.streams.Live stream := by
  obtain ⟨-, hstr, -⟩ := h.names.getOrCreateConsumer stream req.name
  refine ⟨req.streamId, ?_⟩
  show (b.names.getOrCreateConsumer stream req.name).2.streams.streamsByWire.lookup req.streamId = some stream
  rw [hstr]
  exact hal.stream

theorem Sound.agreed (h : b.Sound) (hname : b.names.consumersByName.lookup (stream, req.name) = some c)
    (hinfo : (b.engineOf stream).entities.consumers c = some info) (startSeq : ℕ) :
    (b.agreedNames req stream c startSeq).Agrees b.names := by
  obtain ⟨hatt, -⟩ := h.attached hinfo
  have hstream : info.streamId = stream := h.names.attached_eq hname hatt
  obtain ⟨_, _, _, _, hq⟩ := req.attach_eq b.names stream c req.deliverPolicy startSeq
  unfold agreedNames
  rw [hq]
  refine ⟨⟨rfl, rfl⟩, rfl, rfl, ?_⟩
  show update b.names.consumerStream c (some stream) = b.names.consumerStream
  rw [← hstream, ← hatt, update_eq_self]

variable {wh} in
theorem Sound.engaged (h : b.Sound) (hlive : b.names.streams.Live stream)
    (hname : b.names.consumersByName.lookup (stream, req.name) = some c) (hout : Engaged wh b req stream c filter out) :
    out.1.Sound := by
  cases hout with
  | differs =>
    obtain ⟨keys, next, hq⟩ := req.queue_eq b.names stream
    rw [hq]
    exact h.same rfl ⟨⟨rfl, rfl⟩, rfl, rfl, rfl⟩ (fun _ => rfl) fun _ => rfl
  | again startSeq hinfo => exact h.same rfl (h.agreed hname hinfo startSeq) (fun _ => rfl) fun _ => rfl
  | new startSeq hnone he hent =>
    have hset := h.names.setConsumerStream hname hlive
    obtain ⟨_, _, _, _, hn⟩ := req.attach_eq b.names stream c req.deliverPolicy startSeq
    unfold agreedNames
    rw [hn]
    refine h.attach rfl ⟨hset.streams, hset.inj, hset.pool, hset.max, hset.attached⟩ (fun _ => .rfl)
      (fun t ht => h.names.attached_eq hname ht) rfl rfl ?_ ?_
    · rw [hent]
      rfl
    · rw [hent, home_addConsumer]
      rfl

theorem Sound.creates (h : b.Sound) (req : CreateConsumerReq) (quota : Bool) (journalTail : ℕ) :
    Creates wh b req quota (b.createConsumer wh req quota journalTail) := by
  rw [createConsumer_eq]
  cases hs : b.screened req quota with
  | error code => exact .refused code
  | ok stream =>
  have hal := allocates_of_screened hs
  cases hr : b.ruling req stream with
  | error v =>
    simp only [hr]
    exact .barred hal hr
  | ok filter =>
  simp only [hr]
  split
  case isTrue hfull => exact .full hal hr hfull
  case isFalse hslot =>
  have hlive := h.live_filterWritten hal filter
  obtain ⟨-, -, -, -, -, hname⟩ := h.names.getOrCreateConsumer stream req.name
  exact .asked hal hr hslot hlive (hname.resolve_left hslot)
    (engineCreate_engaged wh ((h.filterWritten req stream filter).exists_stream hlive) filter journalTail)

variable {wh} in
theorem Creates.sound (hc : Creates wh b req quota out) (h : b.Sound) : out.1.Sound := by
  cases hc with
  | refused => exact h
  | barred => exact h.allocated
  | full => exact h.filterWritten req _ _
  | asked hal hrule hslot hlive hname hout => exact (h.filterWritten req _ _).engaged hlive hname hout

/-- The shard a `DeleteConsumer` goes to. -/
def shardOf (b : AdminBroker) (id : ConsumerId) : ℕ :=
  match b.names.consumerStream id with
  | some stream => b.shardFor stream
  | none => 0

theorem deleteConsumer_eq (reqSeq : ℕ) (id : ConsumerId) :
    b.deleteConsumer reqSeq id =
      ({ b.setEngine (b.shardOf id) ((b.engines (b.shardOf id)).deleteConsumer id).1 with
          names := b.names.removeConsumerById id
          log := b.log ++ [.deleteConsumer id] }, .repOk reqSeq) := rfl

theorem Sound.deleteConsumer (h : b.Sound) (reqSeq : ℕ) (id : ConsumerId) : (b.deleteConsumer reqSeq id).1.Sound := by
  rw [deleteConsumer_eq]
  refine h.detach rfl (fun s hs => ?_) (removeConsumerById_drops h.names id) rfl
    (Engine.entities_deleteConsumer _ id)
  unfold shardOf
  rw [hs]

/-! ## Subscriptions -/

variable (conn : ConnectionId) (consumer : ConsumerConfig) (sub : SubscriptionConfig)

theorem handleSubscribe_eq
    : handleSubscribe wh e conn consumer sub =
      let r₁ := e.createStream ⟨sub.streamId, []⟩
      let r₂ := r₁.1.createConsumer consumer
      let r₃ := r₂.1.createSubscription wh sub
      let ok := r₁.2.toBool && (match r₂.2 with
        | .ok _ => true
        | .error err => err == .consumerConfigMismatch) && r₃.2.toBool
      (if ok then (r₃.1.subscribe conn sub.id).2.1 else r₃.1, ok) := by
  rfl

/-- **What `handle_subscribe` does to an engine that knows stream and consumer.** -/
theorem handleSubscribe_known (hid : sub.streamId ≤ maxEntityId) (hs : e.entities.streams sub.streamId = true)
    (hstream : consumer.streamId = sub.streamId) (hconsumer : consumer.id = sub.consumerId)
    (hc : (e.entities.consumers sub.consumerId).isSome) : (handleSubscribe wh e conn consumer sub).2 = true ∧
      (handleSubscribe wh e conn consumer sub).1.entities =
        if (e.entities.subscriptions sub.id).isSome then e.entities else e.entities.addSubscription sub := by
  have hsame : e.entities.addStream sub.streamId = e.entities := by
    ext : 1
    · show update e.entities.streams sub.streamId true = _
      rw [← hs, update_eq_self]
    · rfl
    · rfl
  rw [handleSubscribe_eq]
  simp only
  rcases e.createStream_cases ⟨sub.streamId, []⟩ with ⟨-, hok₁, hent₁⟩ | ⟨hgt, -⟩
  case inr => exact absurd hgt (Nat.not_lt.2 hid)
  rw [hsame] at hent₁
  generalize e.createStream ⟨sub.streamId, []⟩ = r₁ at hok₁ hent₁ ⊢
  obtain ⟨info, hinfo⟩ := isSome_iff_exists.1 hc
  have hcons := r₁.1.createConsumer_cases consumer
  rw [hent₁, hstream, hconsumer, hs, hinfo] at hcons
  rcases hcons with ⟨hno, -⟩ | ⟨-, hno, -⟩ | ⟨-, info', -, heq⟩
  · cases hno
  · cases hno
  simp only [heq]
  have hsub := r₁.1.createSubscription_cases wh sub
  rw [hent₁, hs, hinfo] at hsub
  rcases hsub with ⟨-, -, hno | hno⟩ | ⟨-, -, hok₃, hent₃⟩
  · cases hno
  · cases hno
  -- the consumer is there, so the configuration offered is the same or is ignored
  have hok₂ : (match (if info'.sameConfig consumer then .ok false else .error .consumerConfigMismatch : EngineResult Bool) with
      | .ok _ => true
      | .error err => err == EngineError.consumerConfigMismatch) = true := by
    cases info'.sameConfig consumer <;> rfl
  rw [hok₁, hok₂, hok₃]
  refine ⟨rfl, ?_⟩
  show (r₁.1.createSubscription wh sub).1.subscribe conn sub.id |>.2.1.entities = _
  rw [Engine.entities_subscribe]
  exact hent₃

theorem servedBy_eq (b : AdminBroker) (stream : StreamId) (c : ConsumerId) :
    ∃ keys next, (b.servedBy stream c).2 = { b.names with queuesByKey := keys, nextQueue := next } := by
  unfold servedBy
  split
  · exact ⟨_, _, rfl⟩
  · exact b.names.getOrCreateQueue_eq stream []

/-- A `Subscribe` to an attached consumer, with well-formed filters. -/
theorem subscribe_eq (req : SubscribeReq)
    (hvalid : ¬ (req.filters.any fun f => !f.isEmpty && !validateSubject f) = true)
    (hstream : b.names.consumerStream req.consumerId = some stream) :
    b.subscribe wh conn req =
      match SubscriptionRules.onCreate req.subscriptionId (req.filters.filter fun f => !f.isEmpty)
        ((b.servedBy stream req.consumerId).2.consumerFilters req.consumerId) with
      | .error v => ({ b with names := (b.servedBy stream req.consumerId).2 }, .repError v.wireCode)
      | .ok filters =>
        let q := b.servedBy stream req.consumerId
        let s := q.2.resolveSubscription conn req.subscriptionId
        let r := handleSubscribe wh (b.engineOf stream) conn (bareConfig req.consumerId q.1 stream)
          ⟨s.1, req.subscriptionId, stream, req.consumerId, filters⟩
        ({ b.setEngine (b.shardFor stream) r.1 with names := s.2 },
          if r.2 then .repOk (req.consumerId + if q.1 = 0 then 2 ^ 63 else 0) else .repError .consumerNotFound) := by
  unfold subscribe
  rewrite [if_neg hvalid, hstream]
  rfl

/-- **What a `Subscribe` can do.** -/
theorem subscribe_cases (h : b.Sound) (conn : ConnectionId) (req : SubscribeReq) :
    (∃ names code, b.names.Handed names ∧ b.subscribe wh conn req = ({ b with names := names }, .repError code)) ∨
    ∃ stream filters sid names e, (∀ f ∈ req.filters, f = [] ∨ validateSubject f = true) ∧
      b.names.consumerStream req.consumerId = some stream ∧
      SubscriptionRules.onCreate req.subscriptionId (req.filters.filter fun f => !f.isEmpty)
        (b.names.consumerFilters req.consumerId) = .ok filters ∧
      b.names.Handed names ∧
      e.entities = (if ((b.engineOf stream).entities.subscriptions sid).isSome
        then (b.engineOf stream).entities
        else (b.engineOf stream).entities.addSubscription
          ⟨sid, req.subscriptionId, stream, req.consumerId, filters⟩) ∧
      (b.subscribe wh conn req).1 = { b.setEngine (b.shardFor stream) e with names := names } := by
  by_cases hvalid : (req.filters.any fun f => !f.isEmpty && !validateSubject f) = true
  · unfold subscribe
    rw [if_pos hvalid]
    exact .inl ⟨b.names, _, ⟨_, _, _, _, rfl⟩, rfl⟩
  cases hstream : b.names.consumerStream req.consumerId with
  | none =>
    unfold subscribe
    rw [if_neg hvalid, hstream]
    exact .inl ⟨b.names, _, ⟨_, _, _, _, rfl⟩, rfl⟩
  | some stream =>
    obtain ⟨keys, next, hq⟩ := b.servedBy_eq stream req.consumerId
    have hfilters : (b.servedBy stream req.consumerId).2.consumerFilters = b.names.consumerFilters := by rw [hq]
    rw [subscribe_eq wh conn req hvalid hstream, hfilters]
    split
    · exact .inl ⟨_, _, ⟨keys, next, _, _, hq⟩, rfl⟩
    case h_2 filters hrule =>
    obtain ⟨subs, nextSub, hr⟩ := (b.servedBy stream req.consumerId).2.resolveSubscription_eq conn req.subscriptionId
    rw [hq] at hr
    obtain ⟨-, hlive⟩ := h.names.attached _ _ hstream
    obtain ⟨info, hinfo, -⟩ := h.info hstream
    obtain ⟨-, hent⟩ := handleSubscribe_known wh (b.engineOf stream) conn
      (bareConfig req.consumerId (b.servedBy stream req.consumerId).1 stream)
      ⟨((b.servedBy stream req.consumerId).2.resolveSubscription conn req.subscriptionId).1, req.subscriptionId,
        stream, req.consumerId, filters⟩ (h.lt hlive) (h.exists_stream hlive) rfl rfl (by rw [hinfo]; rfl)
    have hfs : ∀ f ∈ req.filters, f = [] ∨ validateSubject f = true := fun f hf =>
      empty_or_valid fun hbad => hvalid (List.any_eq_true.2 ⟨f, hf, hbad⟩)
    exact .inr ⟨stream, filters, _, _, _, hfs, rfl, hrule, ⟨keys, next, subs, nextSub, by rw [hq]; exact hr⟩, hent, rfl⟩

theorem Sound.subscribe (h : b.Sound) (conn : ConnectionId) (req : SubscribeReq) :
    (b.subscribe wh conn req).1.Sound := by
  have hagrees : ∀ {names : NameRegistry}, b.names.Handed names → names.Agrees b.names := by
    rintro names ⟨keys, next, subs, nextSub, rfl⟩
    exact ⟨⟨rfl, rfl⟩, rfl, rfl, rfl⟩
  rcases subscribe_cases wh h conn req with
    ⟨names, code, hn, heq⟩ | ⟨stream, filters, sid, names, e, -, -, -, hn, hent, heq⟩
  · rw [heq]
    exact h.same rfl (hagrees hn) (fun _ => rfl) fun _ => rfl
  have hview : e.entities.streams = (b.engineOf stream).entities.streams ∧
      e.entities.home = (b.engineOf stream).entities.home := by
    rw [hent]
    split
    · exact ⟨rfl, rfl⟩
    · exact ⟨rfl, rfl⟩
  rw [heq]
  exact h.same rfl (hagrees hn) (entities_update hview.1) (entities_update hview.2)

/-- **Every request keeps registry and engines in step.** -/
theorem Sound.handle (h : b.Sound) (req : AdminRequest) : (b.handle wh req).1.Sound := by
  cases req with
  | createStream req quota => exact h.createStream wh req quota
  | deleteStream reqSeq name => exact h.deleteStream wh reqSeq name
  | createConsumer req quota journalTail => exact (h.creates wh req quota journalTail).sound h
  | deleteConsumer reqSeq id => exact h.deleteConsumer reqSeq id
  | subscribe conn req => exact h.subscribe wh conn req

end AdminBroker

end Arbitro
