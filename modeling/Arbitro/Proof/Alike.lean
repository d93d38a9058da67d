import Arbitro.Proof.Limits
import Arbitro.Proof.Replay

/-!
# Brokers that answer alike

Two brokers that differ only in what no answer depends on: the names that streams were filed
under, what was kept of consumers that are gone, and subscriptions.

* `NameRegistry.core`: the rest of the registry. Every operation commutes with it.
* `NameRegistry.Alike`, `AdminBroker.Alike`: the same rest, and the same of attached consumers.
* `AdminBroker.Alike.handle`: a request is answered alike, and the brokers stay alike, unless it
  creates a stream under the hash of another name.
-/

namespace Arbitro

open Function Engine List

namespace NameRegistry

variable {r x : NameRegistry} (cs : List ConsumerId) (conn : ConnectionId) (client : ℕ)

/-- What is left when names, subscriptions and what is kept by consumer is taken away. -/
def core (r : NameRegistry) : NameRegistry :=
  { r with
    streams := { r.streams with streamsNameByWire := ∅ }
    consumerFilters := fun _ => []
    consumerQueue := ∅
    consumerDeliver := ∅
    subscriptionsByConn := ∅
    nextSubscription := 1 }

theorem agrees_core : r.core.Agrees r := ⟨⟨rfl, rfl⟩, rfl, rfl, rfl⟩

theorem agrees_of_core (h : x.core = r.core) : x.Agrees r := agrees_core.symm.trans (h ▸ agrees_core)

/-! ## Operations commute with it -/

/-- What is the same for a registry and its core is the same for registries of one core. -/
theorem congr_core {α : Type} (f : NameRegistry → α) (hf : ∀ r, f r = f r.core) (h : x.core = r.core) : f x = f r := by
  rw [hf x, h, ← hf r]

theorem core_freshStream {streams : StreamRegistry} {id : StreamId} {filter : Bytes} :
    ((r.freshStream streams id).setStreamFilter id filter).core =
      (r.core.freshStream { streams with streamsNameByWire := ∅ } id).setStreamFilter id filter := rfl

theorem core_resolveSubscription : (r.resolveSubscription conn client).2.core = r.core := by
  unfold resolveSubscription
  split
  · rfl
  · rfl

section Core

variable (h : x.core = r.core) (stream : StreamId) (c : ConsumerId)

include h

theorem core_removeConsumerById : (x.removeConsumerById c).core = (r.removeConsumerById c).core := by
  refine congr_core (fun r => (r.removeConsumerById c).core) (fun r => ?_) h
  unfold removeConsumerById
  rw [show r.core.consumersByName = r.consumersByName from rfl]
  split
  · rfl
  · rfl

theorem core_removeConsumers : (cs.foldl removeConsumerById x).core = (cs.foldl removeConsumerById r).core :=
  foldl_rel (r := fun x r : NameRegistry => x.core = r.core) h fun c _ _ _ hc => core_removeConsumerById hc c

theorem core_removeStream (wire : SubjectHash) : (x.removeStream wire).core = (r.removeStream wire).core := by
  refine congr_core (fun r => (r.removeStream wire).core) (fun r => ?_) h
  unfold removeStream
  rw [show r.core.streamSeq wire = r.streamSeq wire from rfl]
  split
  · rfl
  case h_2 id hid =>
    unfold core StreamRegistry.removeStream
    simp only [show r.streams.streamsByWire.lookup wire = some id from hid]

theorem core_getOrCreateConsumer (name : Bytes) :
    (x.getOrCreateConsumer stream name).1 = (r.getOrCreateConsumer stream name).1 ∧
      (x.getOrCreateConsumer stream name).2.core = (r.getOrCreateConsumer stream name).2.core := by
  refine Prod.ext_iff.1 (congr_core (fun r => Prod.map id core (r.getOrCreateConsumer stream name)) (fun r => ?_) h)
  unfold getOrCreateConsumer
  rw [show r.core.consumersByName = r.consumersByName from rfl, show r.core.consumerPool = r.consumerPool from rfl]
  split
  · rfl
  split
  · rfl
  · rfl

theorem core_getOrCreateQueue (group : Bytes) :
    (x.getOrCreateQueue stream group).1 = (r.getOrCreateQueue stream group).1 ∧
      (x.getOrCreateQueue stream group).2.core = (r.getOrCreateQueue stream group).2.core := by
  refine Prod.ext_iff.1 (congr_core (fun r => Prod.map id core (r.getOrCreateQueue stream group)) (fun r => ?_) h)
  unfold getOrCreateQueue
  rw [show r.core.queuesByKey = r.queuesByKey from rfl]
  split
  · rfl
  · rfl

theorem core_queue {req : ConsumerRecord} (stream : StreamId) :
    (req.queue x stream).1 = (req.queue r stream).1 ∧ (req.queue x stream).2.core = (req.queue r stream).2.core := by
  unfold ConsumerRecord.queue
  split
  · exact ⟨rfl, h⟩
  · exact core_getOrCreateQueue h stream req.group

/-- A consumer is attached: of all that is written, the stream is in the core. -/
theorem core_attach (q q' : QueueId) (s : StreamId) (policy startSeq : ℕ) :
    (((x.setConsumerQueue c q).setConsumerStream c s).setConsumerDeliverPolicy c policy startSeq).core =
      (((r.setConsumerQueue c q').setConsumerStream c s).setConsumerDeliverPolicy c policy startSeq).core := by
  show x.core.setConsumerStream c s = r.core.setConsumerStream c s
  rw [h]

end Core

/-! ## Alike -/

/-- The same core, no other names, and the same of attached consumers. -/
structure Alike (r x : NameRegistry) : Prop where
  core : x.core = r.core
  filed : ∀ wire name, x.streams.streamsNameByWire.lookup wire = some name →
    r.streams.streamsNameByWire.lookup wire = some name
  attached : ∀ c s, r.consumerStream c = some s → x.consumerFilters c = r.consumerFilters c ∧
    x.consumerQueue.lookup c = r.consumerQueue.lookup c ∧ x.consumerDeliver.lookup c = r.consumerDeliver.lookup c

variable (h : r.Alike x)

include h

theorem Alike.agrees : x.Agrees r := agrees_of_core h.core

theorem Alike.streamFilters : x.streamFilters = r.streamFilters :=
  (congrArg NameRegistry.streamFilters h.core : x.core.streamFilters = r.core.streamFilters)

theorem Alike.streamQuotas : x.streamQuotas = r.streamQuotas :=
  (congrArg NameRegistry.streamQuotas h.core : x.core.streamQuotas = r.core.streamQuotas)

theorem Alike.removeConsumerById (hr : r.OK) (c : ConsumerId) :
    (r.removeConsumerById c).Alike (x.removeConsumerById c) := by
  have hd := removeConsumerById_drops hr c
  refine ⟨core_removeConsumerById h.core c, fun wire name hw => ?_, fun c' s hc' => ?_⟩
  · unfold NameRegistry.removeConsumerById at hw ⊢
    rw [h.agrees.consumers] at hw
    split
    case h_1 hf =>
      rw [hf] at hw
      exact h.filed wire name hw
    case h_2 e hf =>
      rw [hf] at hw
      exact h.filed wire name hw
  have hne : c' ≠ c := by
    intro heq
    rw [(hd.attached c').1 heq] at hc'
    cases hc'
  rw [(hd.attached c').2 hne] at hc'
  obtain ⟨hf, hq, hdel⟩ := h.attached c' s hc'
  unfold NameRegistry.removeConsumerById
  rw [h.agrees.consumers]
  split
  · exact ⟨hf, hq, hdel⟩
  · simp only [Map.lookup_erase_eq, if_neg hne]
    exact ⟨hf, hq, hdel⟩

theorem Alike.removeConsumers (hr : r.OK) :
    (cs.foldl NameRegistry.removeConsumerById r).Alike (cs.foldl NameRegistry.removeConsumerById x) :=
  (foldl_rel (r := fun r x : NameRegistry => r.Alike x ∧ r.OK) ⟨h, hr⟩ fun c _ _ _ h =>
    ⟨h.1.removeConsumerById h.2 c, (removeConsumerById_drops h.2 c).ok⟩).1

theorem Alike.removeStream (wire : SubjectHash) : (r.removeStream wire).Alike (x.removeStream wire) := by
  have hseq := h.agrees.streamSeq wire
  cases hid : r.streamSeq wire with
  | none =>
    unfold NameRegistry.removeStream
    rw [hseq, hid]
    exact h
  | some id =>
    refine ⟨core_removeStream h.core wire, fun w name hw => ?_, fun c s hc => ?_⟩
    · rw [lookup_name_removeStream (hseq.trans hid)] at hw
      rw [lookup_name_removeStream hid]
      split at hw
      · cases hw
      case isFalse hne =>
        rw [if_neg hne]
        exact h.filed w name hw
    · rw [removeStream_eq hid] at hc ⊢
      rw [removeStream_eq (hseq.trans hid)]
      exact h.attached c s hc

variable (stream : StreamId) (c : ConsumerId) (filter : Bytes)

theorem Alike.getOrCreateConsumer (name : Bytes) :
    (x.getOrCreateConsumer stream name).1 = (r.getOrCreateConsumer stream name).1 ∧
      (r.getOrCreateConsumer stream name).2.Alike (x.getOrCreateConsumer stream name).2 := by
  obtain ⟨hid, hcore⟩ := core_getOrCreateConsumer h.core stream name
  refine ⟨hid, hcore, ?_, ?_⟩
  · have hsame : ∀ r : NameRegistry, (r.getOrCreateConsumer stream name).2.streams = r.streams := by
      intro r
      unfold NameRegistry.getOrCreateConsumer
      split
      · rfl
      split
      · rfl
      · rfl
    rw [hsame, hsame]
    exact h.filed
  · unfold NameRegistry.getOrCreateConsumer
    rw [h.agrees.consumers, h.agrees.pool]
    split
    · exact h.attached
    split
    · exact h.attached
    · exact h.attached

theorem Alike.setConsumerFilter : (r.setConsumerFilter c filter).Alike (x.setConsumerFilter c filter) := by
  refine ⟨h.core, h.filed, fun c' s hc' => ?_⟩
  obtain ⟨hf, hq, hd⟩ := h.attached c' s hc'
  refine ⟨?_, hq, hd⟩
  show update x.consumerFilters c filter c' = update r.consumerFilters c filter c'
  simp only [update_apply, hf]

theorem Alike.getOrCreateQueue (group : Bytes) :
    (x.getOrCreateQueue stream group).1 = (r.getOrCreateQueue stream group).1 ∧
      (r.getOrCreateQueue stream group).2.Alike (x.getOrCreateQueue stream group).2 := by
  obtain ⟨hid, hcore⟩ := core_getOrCreateQueue h.core stream group
  obtain ⟨keys, next, hq⟩ := r.getOrCreateQueue_eq stream group
  obtain ⟨keys', next', hq'⟩ := x.getOrCreateQueue_eq stream group
  refine ⟨hid, hcore, ?_, ?_⟩
  · rw [hq, hq']
    exact h.filed
  · rw [hq, hq']
    exact h.attached

theorem Alike.queue (req : ConsumerRecord) (stream : StreamId) :
    (req.queue x stream).1 = (req.queue r stream).1 ∧ (req.queue r stream).2.Alike (req.queue x stream).2 := by
  unfold ConsumerRecord.queue
  split
  · exact ⟨rfl, h⟩
  · exact h.getOrCreateQueue stream req.group

theorem Alike.attach (q : QueueId) (s : StreamId) (policy startSeq : ℕ)
    (hf : x.consumerFilters c = r.consumerFilters c) :
    (((r.setConsumerQueue c q).setConsumerStream c s).setConsumerDeliverPolicy c policy startSeq).Alike
      (((x.setConsumerQueue c q).setConsumerStream c s).setConsumerDeliverPolicy c policy startSeq) := by
  refine ⟨core_attach h.core c q q s policy startSeq, h.filed, fun c' t hc' => ?_⟩
  change update r.consumerStream c (some s) c' = some t at hc'
  simp only [setConsumerDeliverPolicy, setConsumerStream, setConsumerQueue, Map.lookup_insert_eq]
  by_cases hc : c' = c
  · rw [hc]
    simp [hf]
  · rw [update_of_ne hc] at hc'
    simp only [if_neg hc]
    exact h.attached c' t hc'

theorem Alike.settings (id : StreamId) (windowMs replicas : ℕ) (quota : StreamQuota) :
    (((r.setStreamIdempotency id windowMs).setStreamReplicas id replicas).setStreamQuota id quota).Alike
      (((x.setStreamIdempotency id windowMs).setStreamReplicas id replicas).setStreamQuota id quota) := by
  refine ⟨?_, h.filed, h.attached⟩
  exact congr_core (fun r => NameRegistry.core
    (((r.setStreamIdempotency id windowMs).setStreamReplicas id replicas).setStreamQuota id quota)) (fun _ => rfl) h.core

theorem Alike.resolveSubscription :
    (r.resolveSubscription conn client).2.Alike (x.resolveSubscription conn client).2 := by
  obtain ⟨subs, next, hr⟩ := r.resolveSubscription_eq conn client
  obtain ⟨subs', next', hx⟩ := x.resolveSubscription_eq conn client
  refine ⟨?_, ?_, ?_⟩
  · rw [core_resolveSubscription, core_resolveSubscription, h.core]
  · rw [hr, hx]
    exact h.filed
  · rw [hr, hx]
    exact h.attached

/-- The other consumers of a stream are attached to it, so their filters are known alike. -/
theorem Alike.siblings : x.siblingConsumerFilters stream c = r.siblingConsumerFilters stream c := by
  unfold siblingConsumerFilters
  rw [h.agrees.consumers, h.agrees.attached]
  congr 1
  refine map_congr_left fun c' hc' => ?_
  obtain ⟨-, hkeep⟩ := mem_filter.1 hc'
  rw [Bool.and_eq_true, beq_iff_eq] at hkeep
  exact (h.attached c' stream hkeep.2).1

/-- **A `CreateStream` under a name that its hash is not filed under otherwise** gets the same id,
or is refused alike. -/
theorem Alike.checked {wire : SubjectHash} {name : Bytes}
    (hkept : ∀ n, r.streams.streamsNameByWire.lookup wire = some n → n = name) :
    (∃ v, r.getOrCreateStreamChecked wire name filter = .error v ∧
      x.getOrCreateStreamChecked wire name filter = .error v) ∨
    (r.getOrCreateStreamChecked wire name filter = .ok (.full, r) ∧
      x.getOrCreateStreamChecked wire name filter = .ok (.full, x)) ∨
    ∃ id created names names', r.getOrCreateStreamChecked wire name filter = .ok (.slot id created, names) ∧
      x.getOrCreateStreamChecked wire name filter = .ok (.slot id created, names') ∧ names.Alike names' := by
  have hfree : ∀ r : NameRegistry, (∀ n, r.streams.streamsNameByWire.lookup wire = some n → n = name) →
      r.collides wire name = false := by
    intro r hr
    unfold collides
    cases hl : r.streams.streamsNameByWire.lookup wire with
    | none => rfl
    | some n => simp [hr n hl]
  have hclaimed : x.claimed = r.claimed := by
    unfold claimed
    rw [h.agrees.streams.streams, h.streamFilters]
  unfold getOrCreateStreamChecked
  rw [h.agrees.streamSeq, hclaimed, hfree r hkept, hfree x fun n hn => hkept n (h.filed wire n hn)]
  cases hs : r.streamSeq wire with
  | some id =>
    rw [h.streamFilters]
    simp only [Bool.false_eq_true, if_false]
    cases hrule : StreamRules.onRecreate filter (r.streamFilters id) with
    | error v => exact .inl ⟨v, rfl, rfl⟩
    | ok _ => exact .inr (.inr ⟨id, false, r, x, rfl, rfl, h⟩)
  | none =>
    cases hrule : StreamRules.onCreate filter r.claimed with
    | error v => exact .inl ⟨v, rfl, rfl⟩
    | ok _ =>
      have hlook : r.streams.streamsByWire.lookup wire = none := hs
      simp only [StreamRegistry.getOrCreateStreamChecked, h.agrees.streams.streams, h.agrees.streams.pool, hlook, if_true]
      cases ha : r.streams.streamPool.alloc with
      | none => exact .inr (.inl ⟨rfl, rfl⟩)
      | some a =>
        refine .inr (.inr ⟨a.1.1, true, _, _, rfl, rfl, ⟨?_, fun w n hw => ?_, h.attached⟩⟩)
        · show ((x.freshStream _ _).setStreamFilter _ filter).core = ((r.freshStream _ _).setStreamFilter _ filter).core
          rw [core_freshStream, core_freshStream, h.core]
        change (x.streams.streamsNameByWire.insert wire name).lookup w = some n at hw
        show (r.streams.streamsNameByWire.insert wire name).lookup w = some n
        rw [Map.lookup_insert_eq] at hw ⊢
        split
        case isTrue heq => rwa [if_pos heq] at hw
        case isFalse hne =>
          rw [if_neg hne] at hw
          exact h.filed w n hw

end NameRegistry

namespace AdminBroker

variable {wh : WireHash} {b b' x x' : AdminBroker} {stream : StreamId} {c : ConsumerId}

/-- **Two brokers that differ in what no answer depends on.** -/
structure Alike (b x : AdminBroker) : Prop where
  shards : x.shardCount = b.shardCount
  live : b.Sound
  other : x.Sound
  names : b.names.Alike x.names
  consumers : ∀ i, (x.engines i).entities.consumers = (b.engines i).entities.consumers
  limits : ∀ i, (x.engines i).limits = (b.engines i).limits

section Alike

variable (h : b.Alike x) (s : StreamId) (reqSeq : ℕ)

include h

theorem Alike.shardFor : x.shardFor = b.shardFor := by
  unfold AdminBroker.shardFor
  rw [h.shards]

theorem Alike.consumersOf : (x.engineOf s).entities.consumers = (b.engineOf s).entities.consumers := by
  rw [engineOf, h.shardFor, h.consumers]

theorem Alike.limitsOf : (x.engineOf s).limits = (b.engineOf s).limits := by
  rw [engineOf, h.shardFor, h.limits]

theorem Alike.rename {names names' : NameRegistry} (hs : Sound { b with names := names })
    (hs' : Sound { x with names := names' }) (hn : names.Alike names') :
    Alike { b with names := names } { x with names := names' } :=
  ⟨h.shards, hs, hs', hn, h.consumers, h.limits⟩

theorem Alike.update {i i' : ℕ} {e e' : Engine} (hs : b'.Sound) (hs' : x'.Sound)
    (hsh : b'.shardCount = b.shardCount) (hsh' : x'.shardCount = x.shardCount) (hn : b'.names.Alike x'.names)
    (hb : b'.engines = update b.engines i e) (hx : x'.engines = update x.engines i' e')
    (hi : i' = i) (hc : e'.entities.consumers = e.entities.consumers) (hl : e'.limits = e.limits) : b'.Alike x' := by
  subst hi
  refine ⟨hsh'.trans (h.shards.trans hsh.symm), hs, hs', hn, fun j => ?_, fun j => ?_⟩
  · rw [hb, hx, update_apply, update_apply]
    split
    · exact hc
    · exact h.consumers j
  · rw [hb, hx, update_apply, update_apply]
    split
    · exact hl
    · exact h.limits j

/-! ## Streams -/

theorem Alike.createStream (req : CreateStreamReq) (quota : Bool)
    (hkept : ∀ n, b.names.streams.streamsNameByWire.lookup (wh req.name) = some n → n = req.name) :
    (x.createStream wh req quota).2 = (b.createStream wh req quota).2 ∧
      (b.createStream wh req quota).1.Alike (x.createStream wh req quota).1 := by
  have hs := h.live.createStream wh req quota
  have hs' := h.other.createStream wh req quota
  rw [h.live.createStream_eq wh] at hs ⊢
  rw [h.other.createStream_eq wh] at hs' ⊢
  by_cases hquota : (!quota) = true
  · simp only [if_pos hquota]
    exact ⟨trivial, h⟩
  by_cases hname : (!validateName req.name) = true
  · simp only [if_neg hquota, if_pos hname]
    exact ⟨trivial, h⟩
  by_cases hfilter : (!req.filter.isEmpty && !validateSubject req.filter) = true
  · simp only [if_neg hquota, if_neg hname, if_pos hfilter]
    exact ⟨trivial, h⟩
  simp only [if_neg hquota, if_neg hname, if_neg hfilter] at hs hs' ⊢
  rcases h.names.checked req.filter hkept with
    ⟨v, hb, hx⟩ | ⟨hb, hx⟩ | ⟨id, created, names, names', hb, hx, hnames⟩
  · rw [hb, hx]
    exact ⟨rfl, h⟩
  · rw [hb, hx]
    exact ⟨rfl, h⟩
  rw [hb] at hs ⊢
  rw [hx] at hs' ⊢
  refine ⟨rfl, h.update hs hs' rfl rfl (hnames.settings id _ _ _) rfl rfl (congrFun h.shardFor id) ?_ ?_⟩
  · have hent := h.live.entities_createStream hb
    have hent' := h.other.entities_createStream hx
    rw [hent, hent']
    exact h.consumersOf id
  · rw [limits_createStream, limits_createStream]
    exact h.limitsOf id

theorem Alike.deleteStream (name : Bytes) : (x.deleteStream wh reqSeq name).2 = (b.deleteStream wh reqSeq name).2 ∧
      (b.deleteStream wh reqSeq name).1.Alike (x.deleteStream wh reqSeq name).1 := by
  have hs := h.live.deleteStream wh reqSeq name
  have hs' := h.other.deleteStream wh reqSeq name
  unfold AdminBroker.deleteStream at hs hs' ⊢
  rw [h.names.agrees.streamSeq] at hs' ⊢
  cases hid : b.names.streamSeq (wh name) with
  | none => exact ⟨rfl, h⟩
  | some id =>
    rw [hid] at hs hs'
    have hlive : b.names.streams.Live id := ⟨_, hid⟩
    have hlive' : x.names.streams.Live id := h.names.agrees.streams.live.2 hlive
    have hkept : ∀ i, (x.engines i).entities.streams id = (b.engines i).entities.streams id := by
      intro i
      rw [Bool.eq_iff_iff, h.other.streams, h.live.streams, h.shardFor]
      exact ⟨fun hx => ⟨hlive, hx.2⟩, fun hx => ⟨hlive', hx.2⟩⟩
    refine ⟨rfl, h.update hs hs' rfl rfl ?_ rfl rfl (congrFun h.shardFor id) ?_ ?_⟩
    · show NameRegistry.Alike (NameRegistry.removeStream (foldl _ _ _) _)
        (NameRegistry.removeStream ((x.names.consumersForStream id).foldl _ _) _)
      rw [h.names.agrees.consumersForStream]
      exact (h.names.removeConsumers _ h.live.names).removeStream (wh name)
    · rw [entities_deleteStream, entities_deleteStream, h.shardFor]
      have hdrop : ∀ y : Entities, (y.dropStream id).consumers = fun c => if y.reads id c then none else y.consumers c :=
        fun _ => rfl
      rw [hdrop, hdrop]
      unfold Entities.reads
      rw [h.consumers]
    · rw [limits_deleteStream, limits_deleteStream, h.shardFor, h.limits, hkept]

/-! ## Consumers -/

/-- What the engine is asked for is the same, and so is what it knows. -/
theorem Alike.engineCreate {req : CreateConsumerReq}
    (hlive : b.names.streams.Live stream) (hname : b.names.consumersByName.lookup (stream, req.name) = some c)
    (hfilter : x.names.consumerFilters c = b.names.consumerFilters c) (filter : Bytes) (journalTail : ℕ) :
    (AdminBroker.engineCreate wh x req stream c filter journalTail).2 =
        (AdminBroker.engineCreate wh b req stream c filter journalTail).2 ∧
      (AdminBroker.engineCreate wh b req stream c filter journalTail).1.Alike
        (AdminBroker.engineCreate wh x req stream c filter journalTail).1 := by
  have hlive' : x.names.streams.Live stream := h.names.agrees.streams.live.2 hlive
  have hname' : x.names.consumersByName.lookup (stream, req.name) = some c := by rw [h.names.agrees.consumers, hname]
  have hb := h.live.exists_stream hlive
  have hx := h.other.exists_stream hlive'
  obtain ⟨hq, hnames⟩ := h.names.queue req.toConsumerRecord stream
  have hask : x.askedConfig req stream c filter = b.askedConfig req stream c filter := by
    unfold askedConfig
    rw [hq]
  have hs := h.live.engaged hlive hname (engineCreate_engaged wh hb filter journalTail)
  have hs' := h.other.engaged hlive' hname' (engineCreate_engaged wh hx filter journalTail)
  have hagreed : ∀ startSeq, (b.agreedNames req stream c startSeq).Alike (x.agreedNames req stream c startSeq) := by
    intro startSeq
    obtain ⟨keys, next, hkeys⟩ := req.queue_eq b.names stream
    obtain ⟨keys', next', hkeys'⟩ := req.queue_eq x.names stream
    unfold agreedNames
    rw [hq]
    refine hnames.attach c _ stream _ _ ?_
    rw [hkeys, hkeys']
    exact hfilter
  rw [engineCreate_eq wh b req stream c filter journalTail hb] at hs ⊢
  rw [engineCreate_eq wh x req stream c filter journalTail hx, h.consumersOf, hask] at hs' ⊢
  cases hc : (b.engineOf stream).entities.consumers c with
  | none =>
    rw [hc] at hs hs'
    -- the start of a new consumer is not looked up
    refine ⟨rfl, h.update hs hs' rfl rfl ?_ rfl rfl (congrFun h.shardFor stream) ?_ ?_⟩
    · show (b.agreedNames req stream c _).Alike (x.agreedNames req stream c _)
      exact hagreed _
    · have hent := entities_newConsumer wh (b.engineOf stream) (b.askedConfig req stream c filter) req.limits hb hc
      have hent' := entities_newConsumer wh (x.engineOf stream) (b.askedConfig req stream c filter) req.limits hx
        ((congrFun (h.consumersOf stream) c).trans hc)
      rw [show (b.askedConfig req stream c filter).streamId = stream from rfl] at hent hent'
      rw [hent, hent']
      show Function.update _ _ _ = Function.update _ _ _
      rw [h.consumersOf]
    · have hlim := limits_newConsumer _ wh (b.askedConfig req stream c filter) req.limits hb
      have hlim' := limits_newConsumer _ wh (b.askedConfig req stream c filter) req.limits hx
      rw [show (b.askedConfig req stream c filter).streamId = stream from rfl] at hlim hlim'
      rw [hlim, hlim', h.limitsOf]
  | some info =>
    rw [hc] at hs hs'
    cases hsame : info.sameConfig (b.askedConfig req stream c filter) with
    | false =>
      simp only [hsame, Bool.false_eq_true, if_false] at hs hs' ⊢
      exact ⟨trivial, h.rename hs hs' hnames⟩
    | true =>
      obtain ⟨hatt, -⟩ := h.live.attached hc
      have hstart : effectiveStartSeq (req.queue x.names stream).2 req c false journalTail =
          effectiveStartSeq (req.queue b.names stream).2 req c false journalTail := by
        obtain ⟨keys, next, hkeys⟩ := req.queue_eq b.names stream
        obtain ⟨keys', next', hkeys'⟩ := req.queue_eq x.names stream
        unfold effectiveStartSeq
        rw [hkeys, hkeys']
        simp only [(h.names.attached c _ hatt).2.2]
      simp only [hsame, if_true, hstart] at hs hs' ⊢
      exact ⟨trivial, h.rename hs hs' (hagreed _)⟩

theorem Alike.createConsumer (req : CreateConsumerReq) (quota : Bool) (journalTail : ℕ) :
    (x.createConsumer wh req quota journalTail).2 = (b.createConsumer wh req quota journalTail).2 ∧
      (b.createConsumer wh req quota journalTail).1.Alike (x.createConsumer wh req quota journalTail).1 := by
  have hscreened : x.screened req quota = b.screened req quota := by
    unfold screened
    rw [h.names.agrees.streamSeq]
  rw [createConsumer_eq, createConsumer_eq, hscreened]
  cases hs : b.screened req quota with
  | error code => exact ⟨rfl, h⟩
  | ok stream =>
    obtain ⟨hid, hnames⟩ := h.names.getOrCreateConsumer stream req.name
    have hrule : x.ruling req stream = b.ruling req stream := by
      unfold ruling
      rw [hid, hnames.streamFilters, hnames.siblings]
    simp only [hrule, hid]
    cases b.ruling req stream with
    | error v => exact ⟨rfl, h.rename h.live.allocated h.other.allocated hnames⟩
    | ok filter =>
      have hw : (b.filterWritten req stream filter).Alike (x.filterWritten req stream filter) := by
        refine h.rename (h.live.filterWritten req stream filter) (h.other.filterWritten req stream filter) ?_
        rw [hid]
        exact hnames.setConsumerFilter _ filter
      obtain ⟨-, -, -, -, -, hname⟩ := h.live.names.getOrCreateConsumer stream req.name
      simp only
      split
      · exact ⟨rfl, hw⟩
      case isFalse hfull =>
      refine hw.engineCreate (h.live.live_filterWritten (allocates_of_screened hs) filter) (hname.resolve_left hfull) ?_
        filter journalTail
      simp only [AdminBroker.filterWritten, NameRegistry.setConsumerFilter, hid, update_self]

theorem Alike.deleteConsumer (id : ConsumerId) :
    (b.deleteConsumer reqSeq id).1.Alike (x.deleteConsumer reqSeq id).1 := by
  have hshard : x.shardOf id = b.shardOf id := by
    unfold shardOf
    rw [h.names.agrees.attached, h.shardFor]
  have hs := h.live.deleteConsumer reqSeq id
  have hs' := h.other.deleteConsumer reqSeq id
  rw [deleteConsumer_eq] at hs hs' ⊢
  rw [deleteConsumer_eq]
  refine h.update hs hs' rfl rfl (h.names.removeConsumerById h.live.names id) rfl rfl hshard ?_ ?_
  · rw [entities_deleteConsumer, entities_deleteConsumer, hshard]
    funext c
    show (if _ then none else (x.engines (b.shardOf id)).entities.consumers c) =
      if _ then none else (b.engines (b.shardOf id)).entities.consumers c
    rw [h.consumers]
  · rw [limits_deleteConsumer, limits_deleteConsumer, hshard, h.limits]

end Alike

/-! ## Subscriptions -/

theorem limits_handleSubscribe {e : Engine} {conn : ConnectionId} {consumer : ConsumerConfig} {sub : SubscriptionConfig} :
    (handleSubscribe wh e conn consumer sub).1.limits = e.limits := by
  rw [handleSubscribe_eq]
  rw [apply_ite limits, limits_subscribe, limits_createSubscription, limits_createConsumer,
    limits_createStream, ite_self]

/-- An engine knows every attached consumer, so it takes the subscription. -/
theorem Sound.subscribed (h : b.Sound) (hc : b.names.consumerStream c = some stream)
    (conn : ConnectionId) (queue : QueueId) (sid : SubscriptionId) (client : ℕ) (filters : List Bytes) :
    (handleSubscribe wh (b.engineOf stream) conn (bareConfig c queue stream)
        ⟨sid, client, stream, c, filters⟩).2 = true ∧
      (handleSubscribe wh (b.engineOf stream) conn (bareConfig c queue stream)
        ⟨sid, client, stream, c, filters⟩).1.entities.consumers =
        (b.engineOf stream).entities.consumers := by
  obtain ⟨-, hlive⟩ := h.names.attached _ _ hc
  obtain ⟨info, hinfo, -⟩ := h.info hc
  obtain ⟨hok, hent⟩ := handleSubscribe_known wh (b.engineOf stream) conn (bareConfig c queue stream)
    ⟨sid, client, stream, c, filters⟩ (h.lt hlive) (h.exists_stream hlive) rfl rfl (by rw [hinfo]; rfl)
  refine ⟨hok, ?_⟩
  rw [hent]
  split
  · rfl
  · rfl

theorem Alike.servedBy (h : b.Alike x) (hc : b.names.consumerStream c = some stream) :
    (x.servedBy stream c).1 = (b.servedBy stream c).1 ∧ (b.servedBy stream c).2.Alike (x.servedBy stream c).2 := by
  obtain ⟨-, hqueue, -⟩ := h.names.attached c stream hc
  unfold AdminBroker.servedBy
  rw [hqueue]
  split
  · exact ⟨rfl, h.names⟩
  · exact h.names.getOrCreateQueue stream []

theorem Alike.subscribe (h : b.Alike x) (conn : ConnectionId) (req : SubscribeReq) :
    (x.subscribe wh conn req).2 = (b.subscribe wh conn req).2 ∧
      (b.subscribe wh conn req).1.Alike (x.subscribe wh conn req).1 := by
  have hs := h.live.subscribe wh conn req
  have hs' := h.other.subscribe wh conn req
  by_cases hvalid : (req.filters.any fun f => !f.isEmpty && !validateSubject f) = true
  · unfold AdminBroker.subscribe
    rw [if_pos hvalid, if_pos hvalid]
    exact ⟨rfl, h⟩
  cases hstream : b.names.consumerStream req.consumerId with
  | none =>
    unfold AdminBroker.subscribe
    rw [if_neg hvalid, if_neg hvalid, h.names.agrees.attached, hstream]
    exact ⟨rfl, h⟩
  | some stream =>
    have hstream' : x.names.consumerStream req.consumerId = some stream := by rw [h.names.agrees.attached, hstream]
    obtain ⟨hq, hnames⟩ := h.servedBy hstream
    have hfilters : (x.servedBy stream req.consumerId).2.consumerFilters req.consumerId =
        (b.servedBy stream req.consumerId).2.consumerFilters req.consumerId := by
      obtain ⟨keys, next, hkeys⟩ := b.servedBy_eq stream req.consumerId
      obtain ⟨keys', next', hkeys'⟩ := x.servedBy_eq stream req.consumerId
      rw [hkeys, hkeys']
      exact (h.names.attached _ _ hstream).1
    rw [subscribe_eq wh conn req hvalid hstream] at hs ⊢
    rw [subscribe_eq wh conn req hvalid hstream', hfilters] at hs' ⊢
    cases hrule : SubscriptionRules.onCreate req.subscriptionId (req.filters.filter fun f => !f.isEmpty)
        ((b.servedBy stream req.consumerId).2.consumerFilters req.consumerId) with
    | error v =>
      rw [hrule] at hs hs'
      exact ⟨rfl, h.rename hs hs' hnames⟩
    | ok filters =>
      rw [hrule] at hs hs'
      refine ⟨?_, h.update hs hs' rfl rfl (hnames.resolveSubscription conn _) rfl rfl (congrFun h.shardFor stream) ?_ ?_⟩
      · simp only [(h.live.subscribed hstream conn _ _ _ filters).1, (h.other.subscribed hstream' conn _ _ _ filters).1, hq]
      · rw [(h.live.subscribed hstream conn _ _ _ filters).2, (h.other.subscribed hstream' conn _ _ _ filters).2]
        exact h.consumersOf stream
      · rw [limits_handleSubscribe, limits_handleSubscribe]
        exact h.limitsOf stream

/-! ## Requests -/

/-- A `CreateStream` uses no name whose hash is filed under another one. -/
def NameKept (wh : WireHash) (b : AdminBroker) : AdminRequest → Prop
  | .createStream req _ => ∀ n, b.names.streams.streamsNameByWire.lookup (wh req.name) = some n → n = req.name
  | _ => True

/-- **Brokers that are alike answer alike and stay alike.** -/
theorem Alike.handle (h : b.Alike x) {req : AdminRequest} (hkept : b.NameKept wh req) :
    (x.handle wh req).2 = (b.handle wh req).2 ∧ (b.handle wh req).1.Alike (x.handle wh req).1 := by
  cases req with
  | createStream req quota => exact h.createStream req quota hkept
  | deleteStream reqSeq name => exact h.deleteStream reqSeq name
  | createConsumer req quota journalTail => exact h.createConsumer req quota journalTail
  | deleteConsumer reqSeq id => exact ⟨rfl, h.deleteConsumer reqSeq id⟩
  | subscribe conn req => exact h.subscribe conn req

theorem Alike.run (reqs : List AdminRequest) {b x : AdminBroker} (h : b.Alike x)
    (hok : Run.Guarded (fun b req => (b.handle wh req).1) (NameKept wh) b reqs) :
    x.answers wh reqs = b.answers wh reqs ∧ (b.run wh reqs).Alike (x.run wh reqs) := by
  induction reqs generalizing b x with
  | nil => exact ⟨rfl, h⟩
  | cons req reqs ih =>
    obtain ⟨hreply, hnext⟩ := h.handle hok.1
    obtain ⟨hreplies, hend⟩ := ih hnext hok.2
    refine ⟨?_, hend⟩
    unfold answers
    rw [hreply, hreplies]

end AdminBroker

end Arbitro
