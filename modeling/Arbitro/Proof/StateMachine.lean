import Arbitro.Cluster.StateMachine
import Arbitro.Proof.Admin

/-!
# The state machine and the handlers

* `AdminBroker.Same`: two brokers with the same streams, filters, quotas, consumers and limits. A
  command keeps them the same (`Same.applyCommand`).
* `AdminBroker.Agreed`: when a command does what the handler of the request does
  (`StreamAgreed.same`, `AskedAlike.same`, `DeclinedAlike.same`, `same_deleteStream`,
  `same_deleteConsumer`). The state machine keeps neither filter nor quota of a stream and asks no
  rule, so a command for a new stream is never agreed on while there is a slot.
* `Replicas.follower_agrees`: the same over whole runs.
-/

namespace Arbitro

open Function NameRegistry AdminBroker Option List

namespace NameRegistry

/-- The registry without what is a node's own: replica counts, and the seqs that consumers start
at. -/
def shared (r : NameRegistry) : NameRegistry := { r with streamsReplicas := fun _ => 1, consumerDeliver := ∅ }

variable (r : NameRegistry) (wire : SubjectHash)

theorem shared_getOrCreateStreamNamed (name : Bytes) :
    (r.shared.getOrCreateStreamNamed wire name).1 = (r.getOrCreateStreamNamed wire name).1 ∧
      (r.shared.getOrCreateStreamNamed wire name).2.shared = (r.getOrCreateStreamNamed wire name).2.shared := by
  unfold getOrCreateStreamNamed
  rw [show r.shared.streamSeq wire = r.streamSeq wire from rfl,
    show r.shared.collides wire name = r.collides wire name from rfl, show r.shared.streams = r.streams from rfl]
  split
  · split <;> exact ⟨rfl, rfl⟩
  · split <;> exact ⟨rfl, rfl⟩

theorem shared_getOrCreateConsumer {stream : StreamId} {name : Bytes} :
    r.shared.getOrCreateConsumer stream name =
      ((r.getOrCreateConsumer stream name).1, (r.getOrCreateConsumer stream name).2.shared) := by
  unfold getOrCreateConsumer
  rw [show r.shared.consumersByName = r.consumersByName from rfl, show r.shared.consumerPool = r.consumerPool from rfl]
  split
  · rfl
  · split <;> rfl

theorem shared_queue {req : ConsumerRecord} {stream : StreamId} :
    req.queue r.shared stream = ((req.queue r stream).1, (req.queue r stream).2.shared) := by
  unfold ConsumerRecord.queue
  split
  · rfl
  · unfold getOrCreateQueue
    rw [show r.shared.queuesByKey = r.queuesByKey from rfl]
    split <;> rfl

theorem shared_removeConsumerById (id : ConsumerId) :
    (r.shared.removeConsumerById id).shared = (r.removeConsumerById id).shared := by
  unfold removeConsumerById
  rw [show r.shared.consumersByName = r.consumersByName from rfl]
  split <;> rfl

theorem shared_removeConsumers (ids : List ConsumerId) (r r' : NameRegistry) (h : r.shared = r'.shared) :
    (ids.foldl removeConsumerById r).shared = (ids.foldl removeConsumerById r').shared :=
  foldl_rel (r := fun r r' : NameRegistry => r.shared = r'.shared) h fun id _ r r' h => by
    rw [← r.shared_removeConsumerById, h, r'.shared_removeConsumerById]

theorem shared_removeStream : (r.shared.removeStream wire).shared = (r.removeStream wire).shared := by
  unfold removeStream
  rw [show r.shared.streamSeq wire = r.streamSeq wire from rfl]
  split <;> rfl

end NameRegistry

namespace AdminBroker

variable {r : NameRegistry} {wire : SubjectHash} {wh : WireHash} {lossy : Bytes → Bytes} {stream : StreamId}
  {req : CreateConsumerReq} {cmd : ClusterCommand}

/-- The broker without its log and what is a node's own. -/
def shared (b : AdminBroker) : AdminBroker := { b with names := b.names.shared, log := [] }

/-- **The same streams, filters, quotas, consumers and limits**, in the registry and in the engines
of the shards. -/
def Same (b b' : AdminBroker) : Prop := b.shared = b'.shared

variable {b b' : AdminBroker} {name : Bytes} {body : CreateStreamReq}

theorem same_of (hsh : b.shardCount = b'.shardCount) (hn : b.names.shared = b'.names.shared) (he : b.engines = b'.engines) :
    b.Same b' := by
  unfold Same shared
  rw [hsh, hn, he]

/-! ## A command does the same to brokers that are the same -/

theorem shared_doCreateStream :
    (b.shared.doCreateStream wh body).shared = (b.doCreateStream wh body).shared := by
  obtain ⟨hslot, hnames⟩ := b.names.shared_getOrCreateStreamNamed (wh body.name) body.name
  unfold doCreateStream
  rw [show b.shared.names = b.names.shared from rfl]
  generalize b.names.shared.getOrCreateStreamNamed (wh body.name) body.name = x at hslot hnames
  generalize b.names.getOrCreateStreamNamed (wh body.name) body.name = y at hslot hnames
  obtain ⟨slot, names⟩ := x
  obtain ⟨slot', names'⟩ := y
  obtain rfl : slot = slot' := hslot
  have hshared : names.shared = names'.shared := hnames
  cases slot with
  | full => rfl
  | collision => rfl
  | slot id created =>
    have hres : (b.shared.engines (b.shared.shardFor id)).createStream ⟨id, body.name⟩ =
      (b.engines (b.shardFor id)).createStream ⟨id, body.name⟩ := rfl
    simp only [hres]
    split
    · exact same_of rfl hshared rfl
    · refine same_of rfl ?_ rfl
      show (names.shared.setStreamIdempotency id _).shared = (names'.shared.setStreamIdempotency id _).shared
      rw [hshared]

theorem shared_doDeleteStream : (b.shared.doDeleteStream wh name).shared = (b.doDeleteStream wh name).shared := by
  unfold doDeleteStream
  rw [show b.shared.names.streamSeq (wh name) = b.names.streamSeq (wh name) from rfl]
  split
  · rfl
  case h_2 id hid =>
  refine same_of rfl ?_ rfl
  show (((b.names.consumersForStream id).foldl removeConsumerById b.names.shared).removeStream _).shared = _
  rw [← shared_removeStream, shared_removeConsumers _ b.names.shared b.names rfl, shared_removeStream]

theorem shared_doCreateConsumer (cmd : CreateConsumerCmd) (tail tail' : ℕ) :
    (b.shared.doCreateConsumer cmd tail).shared = (b.doCreateConsumer cmd tail').shared := by
  unfold doCreateConsumer
  cases cmd.streamName with
  | none => rfl
  | some wire =>
  simp only
  rw [show b.shared.names.streamSeq wire = b.names.streamSeq wire from rfl]
  cases b.names.streamSeq wire with
  | none => rfl
  | some stream =>
  simp only
  split
  · rfl
  rw [show b.shared.names = b.names.shared from rfl, shared_getOrCreateConsumer]
  split
  · rfl
  rw [shared_queue]
  have hres (config : ConsumerConfig) : (b.shared.engines (b.shared.shardFor stream)).createConsumer config =
    (b.engines (b.shardFor stream)).createConsumer config := rfl
  simp only [hres]
  split <;> exact same_of rfl rfl rfl

theorem shared_doDeleteConsumer {streamName name : Bytes} :
    (b.shared.doDeleteConsumer wh streamName name).shared = (b.doDeleteConsumer wh streamName name).shared := by
  unfold doDeleteConsumer
  split
  · rfl
  rw [show b.shared.names.streamSeq (wh streamName) = b.names.streamSeq (wh streamName) from rfl]
  split
  · rfl
  case h_2 stream hs =>
  rw [show b.shared.names.consumersByName = b.names.consumersByName from rfl]
  split
  · rfl
  case h_2 id hid => exact same_of rfl (b.names.shared_removeConsumerById id) rfl

/-- **The tail of the journal apart, a command does the same to brokers that are the same.** -/
theorem Same.applyCommand (h : b.Same b') (wh : WireHash) (tail tail' : ℕ) (cmd : ClusterCommand) :
    (b.applyCommand wh tail cmd).Same (b'.applyCommand wh tail' cmd) := by
  cases cmd with
  | createStream body => exact shared_doCreateStream.symm.trans (h ▸ shared_doCreateStream)
  | deleteStream name => exact shared_doDeleteStream.symm.trans (h ▸ shared_doDeleteStream)
  | createConsumer body =>
    exact (shared_doCreateConsumer body 0 tail).symm.trans (h ▸ shared_doCreateConsumer body 0 tail')
  | deleteConsumer streamName name =>
    exact shared_doDeleteConsumer.symm.trans (h ▸ shared_doDeleteConsumer)

/-! ## Texts -/

variable (hascii : ∀ text : Bytes, (∀ c ∈ text, c < 128) → lossy text = text) {id : StreamId} {quota : Bool}
  {reqSeq : ℕ} {tail : ℕ}

section Texts

include hascii

theorem lossy_name {name : Bytes} (h : validateName name = true) : lossy name = name := by
  apply hascii
  intro c hc
  unfold validateName at h
  rw [Bool.and_eq_true, List.all_eq_true] at h
  have hbyte := h.2 c hc
  simp only [isNameByte, Bool.or_eq_true, Bool.and_eq_true, decide_eq_true_eq, beq_iff_eq, UInt8.le_iff_toNat_le,
    ← UInt8.toNat_inj] at hbyte
  rw [UInt8.lt_iff_toNat_lt]
  simp at hbyte ⊢
  omega

theorem lossy_subject {subject : Bytes} (h : subject = [] ∨ validateSubject subject = true) : lossy subject = subject := by
  apply hascii
  intro c hc
  rcases h with rfl | h
  · cases hc
  simp only [validateSubject, Bool.and_eq_true, List.all_eq_true] at h
  have hbyte := h.1.1.2 c hc
  simp only [isNameByte, dotByte, starByte, gtByte, Bool.or_eq_true, Bool.and_eq_true, decide_eq_true_eq, beq_iff_eq,
    UInt8.le_iff_toNat_le, ← UInt8.toNat_inj] at hbyte
  rw [UInt8.lt_iff_toNat_lt]
  simp at hbyte ⊢
  omega

end Texts

/-! ## Streams -/

/-- A node takes the request as one for a stream that it has. -/
def readmits (b : AdminBroker) (req : CreateStreamReq) (id : StreamId) : Bool :=
  validateName req.name && (req.filter.isEmpty || validateSubject req.filter) &&
    (req.filter.isEmpty || req.filter == b.names.streamFilters id)

/-- The state machine does with a `CreateStream` what the handler does: there is no slot for the
stream; or the hash is that of another name; or the stream is there, with the quota of the request
or, when the handler refuses, with its window. -/
def StreamAgreed (wh : WireHash) (lossy : Bytes → Bytes) (b : AdminBroker) (req : CreateStreamReq) : Prop :=
  (b.names.streamSeq (wh (lossy req.name)) = none → b.names.streams.streamPool.alloc.isNone = true) ∧
    ∀ id ∈ b.names.streamSeq (wh (lossy req.name)),
      b.names.collides (wh (lossy req.name)) (lossy req.name) = true ∨
        if b.readmits req id then b.names.streamQuotas id = req.quota
        else b.names.streamsIdempotencyWindowMs id = min req.idempotencyWindowMs maxIdempotencyWindowMs

theorem createStream_known {e : Engine} (config : StreamConfig) (hid : config.id ≤ maxEntityId)
    (hs : e.entities.streams config.id = true) : e.createStream config = (e, .ok ()) := by
  have hens : e.catalog.ensureStream config = .ok e.catalog := by
    unfold Catalog.ensureStream
    rw [if_neg (Nat.not_lt.2 hid), if_pos (show e.catalog.streamExists config.id = true from hs)]
  unfold Engine.createStream
  rw [hens]
  rfl

theorem doCreateStream_known (h : b.Sound)
    (hid : b.names.streamSeq (wh body.name) = some id) (hcol : b.names.collides (wh body.name) body.name = false) :
    b.doCreateStream wh body = { b with names := b.names.setStreamIdempotency id body.idempotencyWindowMs } := by
  have hlive : b.names.streams.Live id := ⟨_, hid⟩
  have hnamed : b.names.getOrCreateStreamNamed (wh body.name) body.name = (.slot id false, b.names) := by
    unfold getOrCreateStreamNamed
    rw [hid]
    simp only [hcol, Bool.false_eq_true, if_false]
  have hengine := createStream_known ⟨id, body.name⟩ (h.lt hlive) (h.exists_stream hlive)
  unfold doCreateStream
  rw [hnamed]
  simp only [hengine, setEngine, update_eq_self]

theorem getOrCreateStreamNamed_full (hid : r.streamSeq wire = none)
    (hfull : r.streams.streamPool.alloc = none) :
    r.streams.getOrCreateStreamChecked wire name true = none := by
  unfold StreamRegistry.getOrCreateStreamChecked
  rw [show r.streams.streamsByWire.lookup wire = none from hid]
  simp only [if_true, hfull, map_none]

/-- **What the handler does with a `CreateStream` whose hash is known.** -/
theorem createStream_known_eq (h : b.Sound) (req : CreateStreamReq)
    (hid : b.names.streamSeq (wh req.name) = some id) :
    (b.createStream wh req true).1 =
      if b.names.collides (wh req.name) req.name = false ∧ b.readmits req id = true then b.streamCreated req id b.names
      else b := by
  rw [h.createStream_eq wh]
  unfold readmits
  cases hname : validateName req.name with
  | false => simp
  | true =>
  cases hfilter : !req.filter.isEmpty && !validateSubject req.filter with
  | true =>
    simp_all
  | false =>
    have hvalid : (req.filter.isEmpty || validateSubject req.filter) = true := by
      cases hf : req.filter.isEmpty <;> simp_all
    unfold getOrCreateStreamChecked StreamRules.onRecreate
    simp only [hid, hvalid]
    cases hcol : b.names.collides (wh req.name) req.name with
    | true => simp
    | false =>
      cases hkeep : req.filter.isEmpty || req.filter == b.names.streamFilters id with
      | true => simp
      | false => simp

include hascii in
/-- **The two agree on a `CreateStream`.** -/
theorem StreamAgreed.same (h : b.Sound) {req : CreateStreamReq} (hreq : b.StreamAgreed wh lossy req) :
    (b.doCreateStream wh { req with name := lossy req.name, filter := lossy req.filter }).Same
      (b.createStream wh req true).1 := by
  obtain ⟨hnew, hknown⟩ := hreq
  cases hid : b.names.streamSeq (wh (lossy req.name)) with
  | none =>
    have hfull : b.names.streams.streamPool.alloc = none := isNone_iff_eq_none.1 (hnew hid)
    have hdo : b.doCreateStream wh { req with name := lossy req.name, filter := lossy req.filter } = b := by
      unfold doCreateStream getOrCreateStreamNamed
      simp only [hid, getOrCreateStreamNamed_full hid hfull]
    have hnode : (b.createStream wh req true).1 = b := by
      rw [h.createStream_eq wh]
      cases hname : validateName req.name with
      | false => rfl
      | true =>
        rw [lossy_name hascii hname] at hid
        simp only [Bool.not_true, Bool.false_eq_true, if_false]
        split
        · rfl
        unfold getOrCreateStreamChecked
        simp only [hid, getOrCreateStreamNamed_full hid hfull]
        cases StreamRules.onCreate req.filter b.names.claimed <;> rfl
    rw [hdo, hnode]
    rfl
  | some id =>
    -- the handler sees the same hash whenever it gets as far as the registry
    have hnode : (b.createStream wh req true).1 =
        if b.names.collides (wh (lossy req.name)) (lossy req.name) = false ∧ b.readmits req id = true then
          b.streamCreated req id b.names else b := by
      cases hname : validateName req.name with
      | true =>
        rw [lossy_name hascii hname] at hid ⊢
        exact createStream_known_eq h req hid
      | false =>
        rw [h.createStream_eq wh]
        simp [readmits, hname]
    cases hcol : b.names.collides (wh (lossy req.name)) (lossy req.name) with
    | true =>
      have hdo : b.doCreateStream wh { req with name := lossy req.name, filter := lossy req.filter } = b := by
        unfold doCreateStream getOrCreateStreamNamed
        simp only [hid, hcol, if_true]
      rw [hdo, hnode, hcol, if_neg (by simp)]
      rfl
    | false =>
      have hagree := (hknown id hid).resolve_left (by simp [hcol])
      rw [doCreateStream_known h hid hcol, hnode, hcol]
      cases hre : b.readmits req id with
      | true =>
        rw [hre, if_pos rfl] at hagree
        rw [if_pos ⟨rfl, rfl⟩]
        have hlive : b.names.streams.Live id := ⟨_, hid⟩
        have hengine := createStream_known ⟨id, req.name⟩ (h.lt hlive) (h.exists_stream hlive)
        refine same_of rfl ?_ ?_
        · show (b.names.setStreamIdempotency id req.idempotencyWindowMs).shared =
            NameRegistry.shared { b.names.setStreamIdempotency id req.idempotencyWindowMs with
              streamQuotas := update b.names.streamQuotas id req.quota }
          rw [← hagree, update_eq_self]
          rfl
        · show b.engines = update b.engines (b.shardFor id) _
          rw [hengine, update_eq_self]
      | false =>
        rw [hre, if_neg Bool.false_ne_true] at hagree
        rw [if_neg (by simp)]
        refine same_of rfl ?_ rfl
        show NameRegistry.shared { b.names with
          streamsIdempotencyWindowMs := update b.names.streamsIdempotencyWindowMs id
            (min req.idempotencyWindowMs maxIdempotencyWindowMs) } = b.names.shared
        rw [← hagree, update_eq_self]

/-! ## Consumers -/

/-- The id that a `CreateConsumer` gets. -/
def granted (b : AdminBroker) (req : CreateConsumerReq) (stream : StreamId) : ConsumerId :=
  (b.names.getOrCreateConsumer stream req.name).1

/-- The handler takes the consumer as it is asked for: the filter is admitted, is the one that is
kept and stands at the id already; and nothing is asked for that a command has no place for. -/
def AskedAlike (b : AdminBroker) (req : CreateConsumerReq) (quota : Bool) (stream : StreamId) : Prop :=
  b.screened req quota = .ok stream ∧ b.ruling req stream = .ok req.subject ∧
    b.names.consumerFilters (b.granted req stream) = req.subject ∧ req.maxNack.getD 0 = 0 ∧
    (req.limits = [] ∨ ((b.engines (b.shardFor stream)).catalog.consumer (b.granted req stream)).isSome = true)

/-- The configuration that the state machine asks the engine for. -/
def commandConfig (b : AdminBroker) (cmd : CreateConsumerCmd) (wire : SubjectHash) (stream : StreamId) (c : ConsumerId) :
    ConsumerConfig :=
  (cmd.request wire).config c ((cmd.request wire).queue b.names stream).1 stream (cmd.request wire).effectiveMaxInflight 0
    cmd.filter

/-- The handler refuses the consumer. -/
def Declined (b : AdminBroker) (req : CreateConsumerReq) (quota : Bool) (stream : StreamId) : Prop :=
  ((b.screened req quota).toBool && (b.ruling req stream).toBool) = false

/-- The handler refuses the consumer, and there is one of the name with another configuration; the
queue is there. -/
def DeclinedAlike (lossy : Bytes → Bytes) (b : AdminBroker) (req : CreateConsumerReq) (quota : Bool) (stream : StreamId) :
    Prop :=
  b.Declined req quota stream ∧ (lossy req.group).isEmpty = false ∧
    (req.deliverMode = 0 ∨ (b.names.queuesByKey.lookup (stream, lossy req.group)).isSome = true) ∧
    ∃ c ∈ b.names.consumersByName.lookup (stream, lossy req.name),
      ∃ info ∈ (b.engines (b.shardFor stream)).catalog.consumer c,
        info.sameConfig (b.commandConfig (req.command lossy) req.streamId stream c) = false

/-- **What the state machine does with a `CreateConsumer`** on a stream that is there. -/
theorem doCreateConsumer_eq {cmd : CreateConsumerCmd}
    (hwire : cmd.streamName = some wire) (hstream : b.names.streamSeq wire = some stream)
    (hgroup : cmd.group.isEmpty = false) {c : ConsumerId} {names : NameRegistry}
    (hc : b.names.getOrCreateConsumer stream cmd.name = (c, names)) (hfull : c ≠ consumerSlotFull) :
    b.doCreateConsumer cmd tail =
      match (b.engines (b.shardFor stream)).createConsumer
          ({ b with names := names }.commandConfig cmd wire stream c) with
      | (_, .error _) => { b with names := ((cmd.request wire).queue names stream).2 }
      | (engine, .ok new) =>
        { b.setEngine (b.shardFor stream) engine with
          names := { b with names := names }.agreedNames (cmd.request wire) stream c
            (effectiveStartSeq ((cmd.request wire).queue names stream).2 (cmd.request wire) c new tail) } := by
  unfold doCreateConsumer
  simp only [hwire, hstream, hgroup, Bool.false_eq_true, if_false, hc, if_neg hfull]
  rfl

include hascii in
theorem AskedAlike.same (h : b.Sound) (hreq : b.AskedAlike req quota stream) (tail tail' : ℕ) :
    (b.doCreateConsumer (req.command lossy) tail').Same (b.createConsumer wh req quota tail).1 := by
  obtain ⟨hscreen, hrule, hfilter, hnack, hlimits⟩ := hreq
  obtain ⟨hstream, hname, hgrouped, hgroup, hsubject, -⟩ := allocates_of_screened hscreen
  obtain ⟨-, hstr, -, -, hcf, hfiled⟩ := h.names.getOrCreateConsumer stream req.name
  have hwritten : b.filterWritten req stream req.subject =
      { b with names := (b.names.getOrCreateConsumer stream req.name).2 } := by
    unfold filterWritten setConsumerFilter
    rw [hcf, ← hfilter]
    unfold granted
    rw [update_eq_self, ← hcf]
  have hcommand : req.command lossy = req.command id := by
    unfold CreateConsumerReq.command
    rw [lossy_name hascii hname, lossy_name hascii hgroup, lossy_subject hascii hsubject]
    rfl
  rw [createConsumer_eq, hscreen, hcommand]
  simp only [hrule, hwritten, idFor]
  unfold granted at hlimits
  generalize hc : b.names.getOrCreateConsumer stream req.name = x at hlimits
  obtain ⟨c, names⟩ := x
  split
  case isTrue hfull =>
    unfold doCreateConsumer
    simp only [CreateConsumerReq.command, hstream, id, hgrouped, Bool.false_eq_true, if_false, hc, hfull, if_true]
    rfl
  case isFalse hfull =>
  have hconfig : { b with names := names }.commandConfig (req.command id) req.streamId stream c =
      { b with names := names }.askedConfig req stream c req.subject := by
    unfold askedConfig
    rw [hnack]
    rfl
  have hs : (b.engineOf stream).entities.streams stream = true := h.exists_stream ⟨_, hstream⟩
  have hlim : req.limits = [] ∨ ((b.engineOf stream).entities.consumers c).isSome = true := hlimits
  rw [doCreateConsumer_eq rfl hstream hgrouped hc hfull, hconfig]
  rw [engineCreate_match wh { b with names := names } req stream c req.subject tail,
    show engineOf { b with names := names } stream = b.engineOf stream from rfl]
  generalize hx : (b.engineOf stream).createConsumer
    ({ b with names := names }.askedConfig req stream c req.subject) = x
  obtain ⟨engine, res⟩ := x
  cases res with
  | error _ => exact same_of rfl rfl rfl
  | ok new =>
  refine same_of rfl rfl ?_
  cases new with
  | false => rfl
  | true =>
    -- limits are for a consumer that the engine knows, and this one is new
    have hnil : req.limits = [] := hlim.resolve_right fun hsome => by
      obtain ⟨info, hinfo⟩ := isSome_iff_exists.1 hsome
      rw [Engine.createConsumer_known _ hs hinfo] at hx
      split at hx <;> cases hx
    show update b.engines _ engine = update b.engines _ (engine.setLimits wh stream req.limits)
    rw [hnil]
    rfl

include hascii in
theorem DeclinedAlike.same (wh : WireHash) (h : b.Sound) (hstream : b.names.streamSeq req.streamId = some stream)
    (hreq : b.DeclinedAlike lossy req quota stream) (tail tail' : ℕ) :
    b.doCreateConsumer (req.command lossy) tail' = b ∧ (b.createConsumer wh req quota tail).1 = b := by
  obtain ⟨hdeclined, hgroup, hqueue, c, hc, info, hinfo, hsame⟩ := hreq
  have hs : (b.engines (b.shardFor stream)).entities.streams stream = true := h.exists_stream ⟨_, hstream⟩
  constructor
  · have hgot : b.names.getOrCreateConsumer stream (req.command lossy).name = (c, b.names) := by
      unfold getOrCreateConsumer
      rw [show b.names.consumersByName.lookup (stream, (req.command lossy).name) = some c from hc]
    have hfull : c ≠ consumerSlotFull := by
      have hlt : c < maxSlotCount := h.names.lt ⟨_, hc⟩
      rintro rfl
      exact absurd hlt (by decide)
    have hkept : (((req.command lossy).request req.streamId).queue b.names stream).2 = b.names := by
      unfold ConsumerRecord.queue getOrCreateQueue
      split
      · rfl
      case isFalse hmode =>
        obtain ⟨q, hq⟩ := isSome_iff_exists.1 (hqueue.resolve_left hmode)
        rw [show b.names.queuesByKey.lookup (stream, ((req.command lossy).request req.streamId).group) = some q from hq]
    have hcreate := Engine.createConsumer_known (b.commandConfig (req.command lossy) req.streamId stream c) hs
      (mem_def.1 hinfo)
    rw [doCreateConsumer_eq rfl hstream hgroup hgot hfull, hcreate, hsame, hkept]
    rfl
  rw [createConsumer_eq]
  unfold Declined at hdeclined
  cases hscreen : b.screened req quota with
  | error code => rfl
  | ok stream' =>
    obtain rfl : stream' = stream := by
      have hal := allocates_of_screened hscreen
      exact some.inj (hal.stream.symm.trans hstream)
    cases hr : b.ruling req stream' with
    | ok filter =>
      rw [hscreen, hr] at hdeclined
      cases hdeclined
    | error v =>
      have hgot : (b.names.getOrCreateConsumer stream' req.name).2 = b.names := by
        rw [lossy_name hascii (allocates_of_screened hscreen).name] at hc
        unfold getOrCreateConsumer
        rw [hc]
      simp only [hr, hgot]

/-! ## Deletions -/

/-- Every stream is filed under the hash of its name. -/
def Hashed (wh : WireHash) (b : AdminBroker) : Prop :=
  ∀ wire name, b.names.streams.streamsNameByWire.lookup wire = some name → wh name = wire

theorem same_deleteStream : (b.doDeleteStream wh name).Same (b.deleteStream wh reqSeq name).1 := by
  unfold doDeleteStream deleteStream
  cases b.names.streamSeq (wh name) with
  | none => rfl
  | some id => exact same_of rfl rfl rfl

theorem fromUtf8_some {text text' : Bytes} (h : fromUtf8 lossy text = some text') : text' = text := by
  unfold fromUtf8 at h
  split at h
  · exact (some.inj h).symm
  · cases h

theorem streamWire_some (h : r.streamWire id = some wire) : r.streamSeq wire = some id := by
  obtain ⟨hmap, -⟩ := filter_eq_some_iff.1 h
  obtain ⟨e, hfind, rfl⟩ := map_eq_some_iff.1 hmap
  have hid : e.2 = id := by simpa using find?_some hfind
  rw [← hid]
  exact AList.mem_lookup_iff.2 (mem_of_find?_eq_some hfind)

variable {id : ConsumerId}

theorem consumerName_some (h : r.consumerName id = some name) :
    ∃ stream, r.consumersByName.lookup (stream, name) = some id := by
  obtain ⟨⟨⟨stream, n⟩, c⟩, hfind, rfl⟩ := map_eq_some_iff.1 h
  obtain rfl : c = id := by simpa using find?_some hfind
  exact ⟨stream, AList.mem_lookup_iff.2 (mem_of_find?_eq_some hfind)⟩

/-- **What a node proposes for a `DeleteConsumer`**: the names that the id stands for. -/
theorem propose_deleteConsumer (h : b.Sound) (hhash : b.Hashed wh)
    (hcmd : b.names.propose lossy (.deleteConsumer reqSeq id) = some cmd) :
    ∃ streamName name stream, cmd = .deleteConsumer streamName name ∧ streamName.isEmpty = false ∧ name.isEmpty = false ∧
      b.names.consumerStream id = some stream ∧ b.names.streamSeq (wh streamName) = some stream ∧
      b.names.consumersByName.lookup (stream, name) = some id := by
  simp only [propose] at hcmd
  split at hcmd
  · cases hcmd
  case isFalse hne =>
  rw [Bool.or_eq_true, not_or, Bool.not_eq_true, Bool.not_eq_true] at hne
  obtain ⟨hs, hn⟩ := hne
  cases hst : ((b.names.consumerStream id).bind b.names.streamName).bind (fromUtf8 lossy) with
  | none => rw [hst] at hs; cases hs
  | some streamName =>
  cases hnm : (b.names.consumerName id).bind (fromUtf8 lossy) with
  | none => rw [hnm] at hn; cases hn
  | some name =>
  rw [hst, hnm] at hcmd
  rw [hst] at hs
  rw [hnm] at hn
  obtain ⟨n, hn', hutf⟩ := bind_eq_some_iff.1 hnm
  obtain rfl := fromUtf8_some hutf
  obtain ⟨sn, hsn, hutf'⟩ := bind_eq_some_iff.1 hst
  obtain rfl := fromUtf8_some hutf'
  obtain ⟨stream, hstream, hname⟩ := bind_eq_some_iff.1 hsn
  obtain ⟨wire, hwire, hfiled⟩ := bind_eq_some_iff.1 hname
  obtain ⟨stream', hl⟩ := consumerName_some hn'
  obtain rfl : stream = stream' := h.names.attached_eq hl hstream
  refine ⟨_, _, stream, (some.inj hcmd).symm, hs, hn, hstream, ?_, hl⟩
  rw [getD_some, hhash wire _ hfiled]
  exact streamWire_some hwire

theorem same_deleteConsumer (h : b.Sound) (hhash : b.Hashed wh)
    (hcmd : b.names.propose lossy (.deleteConsumer reqSeq id) = some cmd) :
    (b.applyCommand wh tail cmd).Same (b.deleteConsumer reqSeq id).1 := by
  obtain ⟨streamName, name, stream, rfl, hs, hn, hstream, hseq, hl⟩ := propose_deleteConsumer h hhash hcmd
  have hshard : b.shardOf id = b.shardFor stream := by
    unfold shardOf
    rw [hstream]
  rw [deleteConsumer_eq, hshard]
  unfold applyCommand doDeleteConsumer
  simp only [hs, hn, Bool.or_self, Bool.false_eq_true, if_false, hseq, hl]
  exact same_of rfl rfl rfl

/-! ## Names and hashes -/

theorem Hashed.of_streams (h : b.Hashed wh) (hs : b'.names.streams = b.names.streams) : b'.Hashed wh := by
  intro wire name hl
  rw [hs] at hl
  exact h wire name hl

theorem Hashed.createStream (h : b.Hashed wh) (hb : b.Sound) (req : CreateStreamReq) (quota : Bool) :
    (b.createStream wh req quota).1.Hashed wh := by
  rcases createStream_cases wh hb req quota with ⟨code, heq⟩ | ⟨id, created, names, -, hc, -, heq⟩
  · rw [heq]
    exact h
  rw [heq]
  have hstr : (b.streamCreated req id names).names.streams = names.streams := rfl
  rcases getOrCreateStreamChecked_cases hc with ⟨-, rfl, -⟩ | ⟨-, -, -, streams, hnew, rfl⟩
  · exact h.of_streams hstr
  obtain ⟨-, -, -, g, pool, -, rfl⟩ := (StreamRegistry.checked_eq_some hnew).resolve_left (by simp)
  exact Map.forall_insert rfl h

theorem Hashed.deleteStream (h : b.Hashed wh) (hb : b.Sound) (reqSeq : ℕ) (name : Bytes) :
    (b.deleteStream wh reqSeq name).1.Hashed wh := by
  unfold AdminBroker.deleteStream
  split
  · exact h
  case h_2 id hid =>
  have hdrops := removeConsumers_drops (b.names.consumersForStream id) hb.names
  have hseq : ((b.names.consumersForStream id).foldl removeConsumerById b.names).streamSeq (wh name) =
      some id := by
    unfold streamSeq
    rw [hdrops.streams]
    exact hid
  intro wire n hl
  rw [lookup_name_removeStream hseq, hdrops.streams] at hl
  split at hl
  · cases hl
  · exact h wire n hl

theorem Sound.streams_creates (hb : b.Sound) {out : AdminBroker × AdminReply} (hc : Creates wh b req quota out) :
    out.1.names.streams = b.names.streams := by
  cases hc with
  | refused => rfl
  | @barred stream => exact (hb.names.getOrCreateConsumer stream req.name).2.1
  | @full stream => exact (hb.names.getOrCreateConsumer stream req.name).2.1
  | @asked stream filter _ hal hrule hslot hlive hname hout =>
  have hw : (b.filterWritten req stream filter).names.streams = b.names.streams :=
    (hb.names.getOrCreateConsumer stream req.name).2.1
  obtain ⟨keys, next, hq⟩ := req.queue_eq (b.filterWritten req stream filter).names stream
  cases hout with
  | differs =>
    rw [hq]
    exact hw
  | again | new =>
    unfold agreedNames
    rw [hq]
    exact hw

theorem Hashed.handle (h : b.Hashed wh) (hb : b.Sound) (req : AdminRequest) : (b.handle wh req).1.Hashed wh := by
  cases req with
  | createStream req quota => exact h.createStream hb req quota
  | deleteStream reqSeq name => exact h.deleteStream hb reqSeq name
  | createConsumer req quota tail => exact h.of_streams (hb.streams_creates (hb.creates wh req quota tail))
  | deleteConsumer reqSeq id => exact h.of_streams (removeConsumerById_drops hb.names id).streams
  | subscribe conn req =>
    have hstr {names : NameRegistry} (hh : b.names.Handed names) : names.streams = b.names.streams := by
      obtain ⟨_, _, _, _, rfl⟩ := hh
      rfl
    rcases subscribe_cases wh hb conn req with ⟨names, code, hh, heq⟩ | ⟨stream, filters, sid, names, e, -, -, -, hh, -, heq⟩
    · exact h.of_streams (by rw [show (b.handle wh (.subscribe conn req)).1 = _ from congrArg Prod.fst heq]; exact hstr hh)
    · exact h.of_streams (by rw [show (b.handle wh (.subscribe conn req)).1 = _ from heq]; exact hstr hh)

/-! ## Runs -/

/-- The state machine does with the request what the handler does. -/
def Agreed (wh : WireHash) (lossy : Bytes → Bytes) (b : AdminBroker) : AdminRequest → Prop
  | .createStream req _ => b.StreamAgreed wh lossy req
  | .deleteStream _ name => lossy name = name
  | .createConsumer req quota _ =>
    ∀ stream ∈ b.names.streamSeq req.streamId, b.AskedAlike req quota stream ∨ b.DeclinedAlike lossy req quota stream
  | .deleteConsumer _ _ => True
  | .subscribe _ _ => True

instance (req : CreateStreamReq) : Decidable (b.StreamAgreed wh lossy req) := inferInstanceAs (Decidable (_ ∧ _))

instance (quota : Bool) : Decidable (b.AskedAlike req quota stream) := inferInstanceAs (Decidable (_ ∧ _))

instance (quota : Bool) : Decidable (b.Declined req quota stream) := inferInstanceAs (Decidable (_ = _))

instance (quota : Bool) : Decidable (b.DeclinedAlike lossy req quota stream) := inferInstanceAs (Decidable (_ ∧ _))

instance : ∀ req, Decidable (b.Agreed wh lossy req)
  | .createStream req _ => inferInstanceAs (Decidable (b.StreamAgreed wh lossy req))
  | .deleteStream _ name => inferInstanceAs (Decidable (lossy name = name))
  | .createConsumer req quota _ => inferInstanceAs (Decidable (∀ stream ∈ b.names.streamSeq req.streamId,
      b.AskedAlike req quota stream ∨ b.DeclinedAlike lossy req quota stream))
  | .deleteConsumer _ _ => isTrue trivial
  | .subscribe _ _ => isTrue trivial

include hascii in
/-- **A command that is agreed on leaves registry and engines as the handler does.** -/
theorem Agreed.same (h : b.Sound) (hhash : b.Hashed wh)
    {req : AdminRequest} (hreq : b.Agreed wh lossy req) (hcmd : b.names.propose lossy req = some cmd)
    (tail : ℕ) : (b.applyCommand wh tail cmd).Same (b.handle wh req).1 := by
  cases req with
  | createStream req quota =>
    cases quota with
    | false => cases hcmd
    | true =>
      obtain rfl := some.inj hcmd
      exact StreamAgreed.same hascii h hreq
  | deleteStream reqSeq name =>
    obtain rfl := some.inj hcmd
    rw [show lossy name = name from hreq]
    exact same_deleteStream
  | createConsumer req quota tail' =>
    simp only [propose] at hcmd
    split at hcmd
    · cases hcmd
    obtain rfl := some.inj hcmd
    show (b.doCreateConsumer (req.command lossy) tail).Same (b.createConsumer wh req quota tail').1
    cases hstream : b.names.streamSeq req.streamId with
    | none =>
      have hdo : b.doCreateConsumer (req.command lossy) tail = b := by
        unfold doCreateConsumer
        simp only [CreateConsumerReq.command, hstream]
      have hnode : (b.createConsumer wh req quota tail').1 = b := by
        unfold createConsumer
        rw [hstream]
      rw [hdo, hnode]
      rfl
    | some stream =>
      rcases hreq stream hstream with halike | halike
      · exact halike.same hascii h tail' tail
      · obtain ⟨hdo, hnode⟩ := DeclinedAlike.same hascii wh h hstream halike tail' tail
        rw [hdo, hnode]
        rfl
  | deleteConsumer reqSeq id => exact same_deleteConsumer h hhash hcmd
  | subscribe conn req => cases hcmd

/-- The codes of the admission rules, and that of a hash taken by another name. -/
def ofAdmission : ErrorCode → Bool
  | .invalidStreamFilter => true
  | .streamFilterConflict => true
  | .streamAlreadyExists => true
  | .invalidConsumerFilter => true
  | _ => false

include hascii in
/-- A request that the rules reject changes nothing where the two agree. -/
theorem Agreed.rejected (h : b.Sound) {req : AdminRequest}
    (hreq : b.Agreed wh lossy req) {code : ErrorCode} (hcode : (b.handle wh req).2 = .repError code)
    (hadm : ofAdmission code = true) (hcmd : (b.names.propose lossy req).isSome = true) : (b.handle wh req).1 = b := by
  cases req with
  | createStream req quota =>
    change (b.createStream wh req quota).1 = b
    change (b.createStream wh req quota).2 = _ at hcode
    rcases createStream_cases wh h req quota with ⟨code', heq⟩ | ⟨id, created, names, -, -, -, heq⟩
    · rw [heq]
    · rw [heq] at hcode
      cases hcode
  | deleteStream reqSeq name =>
    simp only [handle, deleteStream] at hcode ⊢
    cases hid : b.names.streamSeq (wh name) with
    | none => rfl
    | some id =>
      rw [hid] at hcode
      cases hcode
  | createConsumer req quota tail =>
    change (b.createConsumer wh req quota tail).1 = b
    change (b.createConsumer wh req quota tail).2 = _ at hcode
    cases hstream : b.names.streamSeq req.streamId with
    | none =>
      unfold createConsumer
      rw [hstream]
    | some stream =>
      rcases hreq stream hstream with halike | halike
      · have hc := h.creates wh req quota tail
        generalize b.createConsumer wh req quota tail = out at hcode hc ⊢
        cases hc with
        | refused => rfl
        | @barred stream' v hal hno =>
          obtain rfl : stream = stream' := some.inj (hstream.symm.trans hal.stream)
          cases halike.2.1.symm.trans hno
        | full =>
          cases hcode
          cases hadm
        | asked hal hrule hslot hlive hname hout =>
        cases hout with
        | differs =>
          cases hcode
          cases hadm
        | again | new => cases hcode
      · exact (DeclinedAlike.same hascii wh h hstream halike tail tail).2
  | deleteConsumer reqSeq id => cases hcode
  | subscribe conn req => cases hcmd

end AdminBroker

namespace Replicas

variable {wh : WireHash} {lossy : Bytes → Bytes}

/-- A request that is proposed is agreed on. -/
def Agreed (wh : WireHash) (lossy : Bytes → Bytes) (r : Replicas) (a : AdminRequest × ℕ) : Prop :=
  (r.node.names.propose lossy a.1).isSome = true → r.node.Agreed wh lossy a.1

instance (r : Replicas) (a : AdminRequest × ℕ) : Decidable (r.Agreed wh lossy a) := inferInstanceAs (Decidable (_ → _))

structure Settled (wh : WireHash) (r : Replicas) : Prop where
  sound : r.node.Sound
  hashed : r.node.Hashed wh
  same : r.follower.Same r.node

theorem Settled.step (hascii : ∀ text : Bytes, (∀ c ∈ text, c < 128) → lossy text = text) (r : Replicas)
    (a : AdminRequest × ℕ) (h : r.Settled wh) (hok : r.Agreed wh lossy a) : (r.step wh lossy a).Settled wh := by
  unfold Replicas.step
  cases hcmd : r.node.names.propose lossy a.1 with
  | none => exact h
  | some cmd =>
    have hagreed := hok (by rw [hcmd]; rfl)
    refine ⟨h.sound.handle wh a.1, h.hashed.handle h.sound a.1, ?_⟩
    exact (h.same.applyCommand wh a.2 a.2 cmd).trans (hagreed.same hascii h.sound h.hashed hcmd a.2)

/-- Two brokers that have served the same requests. -/
def start (wh : WireHash) (shardCount : ℕ) (before : List AdminRequest) : Replicas :=
  ⟨run wh { shardCount := shardCount } before, run wh { shardCount := shardCount } before⟩

theorem settled_start {shardCount : ℕ} {before : List AdminRequest} : (start wh shardCount before).Settled wh := by
  have hinv : ∀ (reqs : List AdminRequest) (b : AdminBroker), b.Sound ∧ b.Hashed wh →
      (b.run wh reqs).Sound ∧ (b.run wh reqs).Hashed wh := by
    intro reqs
    induction reqs with
    | nil => exact fun b h => h
    | cons req reqs ih => exact fun b h => ih _ ⟨h.1.handle wh req, h.2.handle h.1 req⟩
  obtain ⟨hsound, hhashed⟩ := hinv before { shardCount := shardCount }
    ⟨sound_new shardCount, fun wire name hl => by cases hl⟩
  exact ⟨hsound, hhashed, rfl⟩

/-- **The state machine keeps a broker in step with one that handles the requests**, as long as
every command is agreed on; and a request that the rules reject then changes neither. -/
theorem follower_agrees (wh : WireHash) (lossy : Bytes → Bytes)
    (hascii : ∀ text : Bytes, (∀ c ∈ text, c < 128) → lossy text = text) (shardCount : ℕ) (before : List AdminRequest)
    (acts : List (AdminRequest × ℕ))
    (hok : Run.Guarded (Replicas.step wh lossy) (Replicas.Agreed wh lossy) (start wh shardCount before) acts) :
    let r := acts.foldl (Replicas.step wh lossy) (start wh shardCount before)
    r.follower.Same r.node ∧
      ∀ a code, r.Agreed wh lossy a → (r.node.handle wh a.1).2 = .repError code → ofAdmission code = true →
        (r.step wh lossy a).node.Same r.node ∧ (r.step wh lossy a).follower.Same r.follower := by
  intro r
  have hset : r.Settled wh := Run.invariant (Settled.step hascii) acts _ settled_start hok
  refine ⟨hset.same, fun a code hag hcode hadm => ?_⟩
  have hnext := hset.step hascii r a hag
  have hnode : (r.step wh lossy a).node = r.node := by
    unfold Replicas.step
    cases hcmd : r.node.names.propose lossy a.1 with
    | none => rfl
    | some cmd =>
      have hsome : (r.node.names.propose lossy a.1).isSome = true := by rw [hcmd]; rfl
      exact (hag hsome).rejected hascii hset.sound hcode hadm hsome
  refine ⟨congrArg _ hnode, hnext.same.trans ?_⟩
  rw [hnode]
  exact hset.same.symm

namespace Overlapping

/-- Stream `a` with filter `a.>` and room for ten messages. -/
def first : AdminRequest := .createStream ⟨[97], [97, 46, 62], 10, 0, 1, 1, 0⟩ true

/-- Stream `b` with filter `a.b`. -/
def second : AdminRequest := .createStream ⟨[98], [97, 46, 98], 0, 0, 1, 0, 0⟩ true

def run (acts : List (AdminRequest × ℕ)) : Replicas := acts.foldl (Replicas.step sampleHash id) (start sampleHash 1 [])

/-- Both commands are committed. The follower has stream `a` without filter and quota, so it has
stream `b` too, which the rules reject. -/
theorem created_anyway :
    let r := run [(first, 0)]
    (r.node.names.propose id first).isSome = true ∧ (r.node.names.propose id second).isSome = true ∧
      r.node.names.streamFilters 0 = [97, 46, 62] ∧ r.follower.names.streamFilters 0 = [] ∧
      r.node.names.streamQuotas 0 = ⟨10, 0, 1⟩ ∧ r.follower.names.streamQuotas 0 = ⟨0, 0, 0⟩ ∧
      (r.node.handle sampleHash second).2 = .repError .streamFilterConflict ∧
      (run [(first, 0), (second, 0)]).node.names.streamSeq (sampleHash [98]) = none ∧
      (run [(first, 0), (second, 0)]).follower.names.streamSeq (sampleHash [98]) = some 1 := by
  decide +kernel

/-- A consumer of stream `a`. -/
def consumer : AdminRequest := .createConsumer ⟨⟨97, [99], [103], [97, 46, 98], 5, 1, 0, 1, 0, 0, []⟩, none⟩ true 0

/-- Requests for what is there, a rejected one, and deletions: the follower keeps up. -/
theorem keeps_up :
    let r := [(consumer, 7), (first, 0), (AdminRequest.createStream ⟨[97], [98], 0, 0, 1, 0, 0⟩ true, 0),
      (AdminRequest.deleteConsumer 3 1, 0), (AdminRequest.deleteStream 4 [97], 0)].foldl (Replicas.step sampleHash id)
        (start sampleHash 1 [first, consumer])
    r.follower.Same r.node :=
  (follower_agrees sampleHash id (fun _ _ => rfl) 1 [first, consumer] _ (by decide +kernel)).1

end Overlapping

end Replicas

end Arbitro
