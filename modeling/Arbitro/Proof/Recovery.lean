import Arbitro.Proof.Alike
import Arbitro.Proof.Filters
import Arbitro.Proof.Queues

/-!
# The recovered broker

What a broker that is started on its command log answers, compared to the one that wrote it.

* `AdminBroker.Recorded`: the log has the streams, their settings and limits, and the queues.
  Accepted requests keep it, except two: a stream created again without a filter, and limits for
  a consumer that does not acknowledge.
* `AdminBroker.recovered_iff`: what the log has not is the filters of consumers, so the recovered
  broker is as good as the old one exactly when there are no consumers to come back.
* `AdminBroker.Forgotten`: with one, a subscription outside of its filter is accepted after the
  restart and not before.
-/

namespace Arbitro

open Function NameRegistry Engine Option

namespace NameRegistry

variable {r x : NameRegistry}

/-- The replay of a `CreateStream` writes what the request wrote. -/
theorem core_replay_checked (h : x.core = r.core) {wire : SubjectHash} {name filter : Bytes} {id : StreamId} {created : Bool}
    {names : NameRegistry} (hfilter : filter ≠ [])
    (hc : r.getOrCreateStreamChecked wire name filter = .ok (.slot id created, names)) :
    ∃ x', x.getOrCreateStream wire = some (id, x') ∧ (x'.setStreamFilter id filter).core = names.core ∧
      x'.streams.streamsNameByWire = x.streams.streamsNameByWire ∧ x'.consumerFilters = x.consumerFilters := by
  have hagrees := agrees_of_core h
  rcases getOrCreateStreamChecked_cases hc with ⟨-, rfl, hseq, -, hrule⟩ | ⟨-, hnone, -, streams, hnew, rfl⟩
  · -- created again: the rule has it that the filter is the old one
    have hsame : filter = names.streamFilters id := by
      unfold StreamRules.onRecreate at hrule
      split at hrule
      case isTrue hor => simpa [hfilter] using hor
      case isFalse => cases hrule
    have hseq' : x.streamSeq wire = some id := (hagrees.streamSeq _).trans hseq
    refine ⟨x, getOrCreateStream_known hseq', ?_, rfl, rfl⟩
    have hcomm : (x.setStreamFilter id filter).core = x.core.setStreamFilter id filter := rfl
    rw [hcomm, h]
    show { names.core with streamFilters := update names.streamFilters id filter } = names.core
    rw [hsame, update_eq_self]
    rfl
  · obtain ⟨-, -, hlook, g, pool, ha, rfl⟩ := (StreamRegistry.checked_eq_some hnew).resolve_left (by simp)
    refine ⟨x.freshStream { x.streams with
      streamsByWire := x.streams.streamsByWire.insert wire id, streamPool := pool } id, ?_, ?_, rfl, rfl⟩
    · unfold getOrCreateStream StreamRegistry.getOrCreateStream
      rw [hagrees.streams.streams, hagrees.streams.pool, hlook, ha]
      rfl
    · show _ = ((r.freshStream _ _).setStreamFilter _ filter).core
      rw [core_freshStream, core_freshStream, h, hagrees.streams.streams]

theorem removeStream_unnamed (h : ∀ w, r.streams.streamsNameByWire.lookup w = none) {wire w : SubjectHash} :
    (r.removeStream wire).streams.streamsNameByWire.lookup w = none := by
  cases hid : r.streamSeq wire with
  | none =>
    rw [removeStream, hid]
    exact h w
  | some id => rw [lookup_name_removeStream hid, h w, ite_self]

end NameRegistry

namespace AdminBroker

variable {wh : WireHash} {b b' : AdminBroker} {quota : Bool} {n journalTail : ℕ} {req : CreateConsumerReq}
  {x : AdminBroker} {filter : Bytes}

/-! ## What the log has -/

/-- **The log has all but names, the filters of consumers and subscriptions.** -/
structure Recorded (wh : WireHash) (b : AdminBroker) : Prop where
  replayable : b.Replayable wh
  core : (b.restart wh).names.core = b.names.core
  unnamed : ∀ wire, (b.restart wh).names.streams.streamsNameByWire.lookup wire = none
  unfiltered : ∀ c, (b.restart wh).names.consumerFilters c = []
  limits : ∀ i, ((b.restart wh).engines i).limits = (b.engines i).limits
  queued : b.names.Queued
  queues : ∀ i c info, (b.engines i).entities.consumers c = some info → info.queueId < b.names.nextQueue

theorem recorded_new {shardCount : ℕ} : Recorded wh { shardCount := shardCount } :=
  ⟨replayable_new, rfl, fun _ => rfl, fun _ => rfl, fun _ => rfl, booked_new.queued,
    booked_new.queues⟩

theorem Recorded.booked (h : b.Recorded wh) : b.Booked := ⟨h.replayable.live, h.queued, h.queues⟩

theorem Recorded.same (h : b.Recorded wh) (hrep : b'.Replayable wh) (hlog : b'.log = b.log)
    (hsh : b'.shardCount = b.shardCount) (hcore : b'.names.core = b.names.core)
    (hlim : ∀ i, (b'.engines i).limits = (b.engines i).limits) (hbooked : b'.Booked) : b'.Recorded wh := by
  obtain ⟨hnames, heng⟩ := restart_congr hlog hsh
  refine ⟨hrep, ?_, fun wire => ?_, fun c => ?_, fun i => ?_, hbooked.queued, hbooked.queues⟩
  · rw [hnames, h.core, hcore]
  · rw [hnames, h.unnamed]
  · rw [hnames, h.unfiltered]
  · rw [heng, h.limits, hlim]

/-- One record was logged, and its replay makes the same change. -/
theorem Recorded.snoc (hrep : b'.Replayable wh) {rec : AdminRecord} (hlog : b'.log = b.log ++ [rec])
    (hsh : b'.shardCount = b.shardCount) (hredo : redo wh (b.restart wh) rec = x)
    (hcore : x.names.core = b'.names.core) (hnames : ∀ wire, x.names.streams.streamsNameByWire.lookup wire = none)
    (hfilters : ∀ c, x.names.consumerFilters c = []) (hlim : ∀ i, (x.engines i).limits = (b'.engines i).limits)
    (hbooked : b'.Booked) : b'.Recorded wh := by
  obtain ⟨hn, he⟩ := restart_snoc wh rec hlog hsh
  rw [hredo] at hn he
  refine ⟨hrep, ?_, fun wire => ?_, fun c => ?_, fun i => ?_, hbooked.queued, hbooked.queues⟩
  · rw [hn, hcore]
  · rw [hn, hnames]
  · rw [hn, hfilters]
  · rw [he, hlim]

theorem limits_update (h : ∀ i, (x.engines i).limits = (b.engines i).limits) {i : ℕ} {e e' : Engine}
    (he : e'.limits = e.limits) {j : ℕ} : (update x.engines i e' j).limits = (update b.engines i e j).limits := by
  rw [update_apply, update_apply]
  split
  · exact he
  · exact h j

/-! ## Streams -/

theorem Recorded.createStream (h : b.Recorded wh) {req : CreateStreamReq} (hfilter : req.filter ≠ [])
    (hok : (b.createStream wh req quota).2 = .repOk n) : (b.createStream wh req quota).1.Recorded wh := by
  have hrep := h.replayable.createStream req quota
  have hbooked := (h.booked.createStream wh req quota).1
  rcases createStream_cases wh h.replayable.live req quota with ⟨code, heq⟩ | ⟨id, created, names, -, hc, -, heq⟩
  · rw [heq] at hok
    cases hok
  obtain ⟨x', hget, hcore, hnames, hfilters⟩ := core_replay_checked h.core hfilter hc
  have hcomm : ∀ r : NameRegistry,
      (((r.setStreamIdempotency id req.idempotencyWindowMs).setStreamReplicas id req.replicas).setStreamQuota id
          req.quota).core =
        ((r.core.setStreamIdempotency id req.idempotencyWindowMs).setStreamReplicas id req.replicas).setStreamQuota id
          req.quota := fun _ => rfl
  have hshard : (b.restart wh).shardFor = b.shardFor := rfl
  rw [heq] at hrep hbooked ⊢
  refine Recorded.snoc (b := b) hrep rfl rfl (redo_single (apply_createStream hget)) ?_ (fun wire => ?_) (fun c => ?_)
    (fun i => ?_) hbooked
  · show (((((x'.setStreamFilter id req.filter).setStreamIdempotency id _).setStreamReplicas id _).setStreamQuota id
      _)).core = (((names.setStreamIdempotency id _).setStreamReplicas id _).setStreamQuota id _).core
    rw [hcomm, hcomm, hcore]
  · exact (congrArg (·.lookup wire) hnames).trans (h.unnamed wire)
  · exact (congrFun hfilters c).trans (h.unfiltered c)
  · refine limits_update h.limits ?_
    rw [hshard, limits_createStream]
    exact (limits_createStream _ _).trans (h.limits _)

theorem Recorded.deleteStream (h : b.Recorded wh) (reqSeq : ℕ) (name : Bytes) :
    (b.deleteStream wh reqSeq name).1.Recorded wh := by
  have hrep := h.replayable.deleteStream reqSeq name
  have hbooked := (h.booked.deleteStream wh reqSeq name).1
  unfold AdminBroker.deleteStream at hrep hbooked ⊢
  cases hid : b.names.streamSeq (wh name) with
  | none => exact h
  | some id =>
    rw [hid] at hrep hbooked
    simp only at hrep hbooked ⊢
    have hagrees := h.replayable.agrees
    have hid' : (b.restart wh).names.streamSeq (wh name) = some id := (hagrees.streamSeq _).trans hid
    have hredo := redo_single (apply_deleteStream hid')
    have hd := removeConsumers_drops (b.names.consumersForStream id) h.replayable.recovered.names
    rw [hagrees.consumersForStream] at hredo
    refine Recorded.snoc (b := b) hrep rfl rfl hredo ?_ (fun wire => ?_) (fun c => ?_) (fun i => ?_) hbooked
    · exact core_removeStream (core_removeConsumers _ h.core) (wh name)
    · refine removeStream_unnamed (fun w => ?_)
      rw [hd.streams]
      exact h.unnamed w
    · rw [removeStream_eq (by rw [streamSeq, hd.streams]; exact hid')]
      rw [hd.consumerFilters, h.unfiltered]
    · have hstr : ((b.restart wh).engines (b.shardFor id)).entities.streams id =
          (b.engineOf id).entities.streams id := by
        rw [h.replayable.live.exists_stream ⟨_, hid⟩]
        exact h.replayable.recovered.exists_stream ⟨_, hid'⟩
      refine limits_update h.limits ?_
      show ((b.restart wh).engines (b.shardFor id)).deleteStream id |>.1.limits = _
      rw [limits_deleteStream, limits_deleteStream, h.limits, hstr]

/-! ## Consumers -/

theorem Recorded.deleteConsumer (h : b.Recorded wh) (reqSeq : ℕ) (id : ConsumerId) :
    (b.deleteConsumer reqSeq id).1.Recorded wh := by
  have hrep := h.replayable.deleteConsumer reqSeq id
  have hd := removeConsumerById_drops h.replayable.recovered.names id
  have hkeep : ∀ (x : AdminBroker) (i j : ℕ),
      (update x.engines i ((x.engines i).deleteConsumer id).1 j).limits = (x.engines j).limits := by
    intro x i j
    rw [update_apply]
    split
    case isTrue hj => rw [limits_deleteConsumer, hj]
    case isFalse => rfl
  have hbooked := (h.booked.deleteConsumer reqSeq id).1
  rw [deleteConsumer_eq] at hrep hbooked ⊢
  refine Recorded.snoc (b := b) hrep rfl rfl (redo_single (apply_deleteConsumer id))
    (core_removeConsumerById h.core id) (fun wire => ?_) (fun c => ?_) (fun i => ?_) hbooked
  · rw [hd.streams, h.unnamed]
  · rw [hd.consumerFilters, h.unfiltered]
  · exact (hkeep _ _ i).trans ((h.limits i).trans (hkeep b _ i).symm)

/-- A `CreateConsumer` that is not refused by the rules. -/
theorem Allocates.admits {stream : StreamId} (hal : b.Allocates req quota stream) (hrule : b.ruling req stream = .ok filter)
    (journalTail : ℕ) : b.Admits (.request (.createConsumer req quota journalTail)) := by
  intro s hs _
  obtain rfl : stream = s := some.inj (hal.stream.symm.trans hs.stream)
  exact ⟨filter, hrule⟩

/-- A consumer that joins again with the configuration it has changes nothing of what is logged. -/
theorem Recorded.rejoin (h : b.Recorded wh) {stream : StreamId} {c : ConsumerId}
    {info : ConsumerInfo} (hc : (b.idFor stream req.name) = c)
    (hname : (b.names.getOrCreateConsumer stream req.name).2.consumersByName.lookup (stream, req.name) = some c)
    (hinfo : (b.engineOf stream).entities.consumers c = some info)
    (hsame : info.sameConfig ((b.filterWritten req stream filter).askedConfig req stream c filter) = true) {startSeq : ℕ}
    (hrep : Replayable wh { b with names := (b.filterWritten req stream filter).agreedNames req stream c startSeq })
    (hbooked : Booked { b with names := (b.filterWritten req stream filter).agreedNames req stream c startSeq }) :
    Recorded wh { b with names := (b.filterWritten req stream filter).agreedNames req stream c startSeq } := by
  obtain ⟨hatt, -⟩ := h.replayable.live.attached hinfo
  have hold := h.replayable.live.allocated_eq (.inr (by rw [hc, hatt]; rfl))
  rw [hold] at hname
  have hstream : b.names.consumerStream c = some stream := by
    rw [hatt, h.replayable.live.names.attached_eq hname hatt]
  obtain ⟨hnext, hqueued⟩ := queued_filterWritten h.queued
  -- a queue made for the request would be no consumer's yet
  have hqueue : (req.queue (b.filterWritten req stream filter).names stream).2 = (b.filterWritten req stream filter).names := by
    refine (hqueued.queue req.toConsumerRecord stream).2.2.2.2 ?_
    have hid : info.queueId = (req.queue (b.filterWritten req stream filter).names stream).1 := by
      unfold ConsumerInfo.sameConfig at hsame
      simp only [Bool.and_eq_true, beq_iff_eq] at hsame
      exact hsame.1.2
    rw [← hid, hnext]
    exact h.queues _ c info hinfo
  refine h.same hrep rfl rfl ?_ (fun _ => rfl) hbooked
  show ((b.filterWritten req stream filter).agreedNames req stream c startSeq).core = b.names.core
  unfold agreedNames
  rw [hqueue]
  unfold AdminBroker.filterWritten
  rw [hold]
  show { b.names.core with consumerStream := update b.names.consumerStream c (some stream) } = b.names.core
  rw [← hstream, update_eq_self]
  rfl

theorem recreated_view (hx : x.names.OK) {req : ConsumerRecord} {stream : StreamId} :
    (x.recreated req stream).streams = x.names.streams ∧ (x.recreated req stream).consumerFilters = x.names.consumerFilters := by
  obtain ⟨-, hstr, -, -, hfilters, -⟩ := hx.getOrCreateConsumer stream req.name
  obtain ⟨_, _, _, _, hq⟩ := req.attach_eq (x.names.getOrCreateConsumer stream req.name).2 stream
    (x.idFor stream req.name) req.deliverPolicy req.startSeq
  rw [show x.recreated req stream = _ from hq]
  exact ⟨hstr, hfilters⟩

theorem Recorded.join (h : b.Recorded wh) {stream : StreamId}
    {startSeq : ℕ} {e : Engine} (hal : b.Allocates req quota stream)
    (hlimits : req.policy = .none → req.subjectLimits = []) (hfull : (b.idFor stream req.name) ≠ consumerSlotFull)
    (hnone : (b.engineOf stream).entities.consumers (b.idFor stream req.name) = none)
    (he : e = ((b.engineOf stream).createConsumer ((b.filterWritten req stream filter).askedConfig req stream
      (b.idFor stream req.name) filter)).1.setLimits wh stream req.limits)
    (heq : b' = { b.setEngine (b.shardFor stream) e with
      names := (b.filterWritten req stream filter).agreedNames req stream (b.idFor stream req.name) startSeq
      log := b.log ++ [.createConsumer (logged req startSeq)] }) (hrep : b'.Replayable wh) (hbooked : b'.Booked) :
    b'.Recorded wh := by
  subst heq
  have hagrees := h.replayable.agrees
  have hseq : (b.restart wh).names.streamSeq req.streamId = some stream := (hagrees.streamSeq _).trans hal.stream
  obtain ⟨config, hid, hstream, happly⟩ := apply_createConsumer (logged req startSeq) hal.grouped hseq
  obtain ⟨hstr, hfilters⟩ := recreated_view h.replayable.recovered.names
  have hredo := redo_single happly
  have hcmd : Replayed.stream (.createConsumer config (logged req startSeq).subjectLimits) = stream := hstream
  rw [hcmd] at hredo
  -- ids, queues and attachment are in the core, so both sides take the same
  obtain ⟨(hc : (b.restart wh).idFor stream req.name = b.idFor stream req.name), hcore⟩ :=
    core_getOrCreateConsumer h.core stream req.name
  have hw : ((b.restart wh).names.getOrCreateConsumer stream req.name).2.core = (b.filterWritten req stream filter).names.core :=
    hcore
  obtain ⟨-, hqcore⟩ := core_queue hw stream
  have hlive : b.names.streams.Live stream := ⟨_, hal.stream⟩
  have hb := h.replayable.live.exists_stream hlive
  have hx : ((b.restart wh).engines (b.shardFor stream)).entities.streams stream = true :=
    h.replayable.recovered.exists_stream ⟨_, hseq⟩
  refine Recorded.snoc (b := b) hrep rfl rfl hredo ?_ (fun wire => ?_) (fun c => ?_) (fun i => ?_) hbooked
  · show ((b.restart wh).recreated (logged req startSeq) stream).core =
      ((b.filterWritten req stream filter).agreedNames req stream _ startSeq).core
    rw [← hc]
    exact core_attach hqcore _ _ _ stream req.deliverPolicy startSeq
  · rw [hstr, h.unnamed]
  · rw [hfilters, h.unfiltered]
  · have hfree : ((b.restart wh).engines (b.shardFor stream)).entities.consumers config.id = none := by
      refine h.replayable.recovered.detached ?_ _
      rw [hid, hagrees.attached]
      show b.names.consumerStream ((b.restart wh).idFor stream req.name) = none
      rw [hc]
      exact h.replayable.live.unattached hfull hnone
    refine limits_update h.limits ?_
    show (Replayed.apply wh ((b.restart wh).engines (b.shardFor stream)) _).limits = _
    have hlim := limits_newConsumer _ wh ((b.filterWritten req stream filter).askedConfig req stream
      (b.idFor stream req.name) filter) req.limits hb
    rw [replayed_new (hstream ▸ hx) hfree, limits_newConsumer _ wh config _ (hstream ▸ hx), he, hstream]
    refine Eq.trans ?_ hlim.symm
    have heq : req.limits = req.subjectLimits := by
      unfold CreateConsumerReq.limits
      cases hp : req.policy with
      | none => simp [hlimits hp]
      | explicit => rfl
    rw [heq, h.limits]
    rfl

theorem Recorded.creates (h : b.Recorded wh) (hlimits : req.policy = .none → req.subjectLimits = [])
    {out : AdminBroker × AdminReply} (hc : Creates wh b req quota out) (hok : out.2 = .repOk n) : out.1.Recorded wh := by
  have hbooked := (h.booked.creates hc).1
  cases hc with
  | refused | barred | full => cases hok
  | asked hal hrule hslot hlive hname hout =>
  have hrep := h.replayable.creates (hal.admits hrule 0) (.asked hal hrule hslot hlive hname hout)
  cases hout with
  | differs => cases hok
  | again startSeq hinfo hsame => exact h.rejoin rfl hname hinfo hsame hrep hbooked
  | new startSeq hnone he => exact h.join hal hlimits hslot hnone he rfl hrep hbooked

/-! ## Subscriptions -/

theorem Recorded.subscribe (h : b.Recorded wh) {conn : ConnectionId} {req : SubscribeReq}
    (hok : (b.subscribe wh conn req).2 = .repOk n) : (b.subscribe wh conn req).1.Recorded wh := by
  have hrep := h.replayable.subscribe conn req
  have hbooked := (h.booked.subscribe wh conn req).1
  by_cases hvalid : (req.filters.any fun f => !f.isEmpty && !validateSubject f) = true
  · unfold AdminBroker.subscribe at hok
    rw [if_pos hvalid] at hok
    cases hok
  cases hstream : b.names.consumerStream req.consumerId with
  | none =>
    unfold AdminBroker.subscribe at hok
    rw [if_neg hvalid, hstream] at hok
    cases hok
  | some stream =>
    obtain ⟨q, hserved⟩ := servedBy_attached h.queued hstream
    rw [subscribe_eq wh conn req hvalid hstream, hserved] at hok hrep hbooked ⊢
    cases hrule : SubscriptionRules.onCreate req.subscriptionId (req.filters.filter fun f => !f.isEmpty)
        (b.names.consumerFilters req.consumerId) with
    | error v =>
      simp only [hrule] at hok
      cases hok
    | ok filters =>
      simp only [hrule] at hrep hbooked ⊢
      refine h.same hrep rfl rfl (core_resolveSubscription _ _) (fun i => ?_) hbooked
      show (update b.engines (b.shardFor stream) _ i).limits = _
      rw [update_apply]
      split
      case isTrue hi => rw [limits_handleSubscribe, hi]
      case isFalse => rfl

/-! ## Histories -/

/-- The request was answered with `RepOk`. -/
def Accepted (wh : WireHash) (b : AdminBroker) (req : AdminRequest) : Prop := ∃ n, (b.handle wh req).2 = .repOk n

/-- The request names the filter of its stream, and limits only with acks. -/
def Explicit : AdminRequest → Prop
  | .createStream req _ => req.filter ≠ []
  | .createConsumer req _ _ => req.policy = .none → req.subjectLimits = []
  | _ => True

theorem Recorded.handle (h : b.Recorded wh) {req : AdminRequest} (hok : b.Accepted wh req) (hex : Explicit req) :
    (b.handle wh req).1.Recorded wh := by
  obtain ⟨n, hn⟩ := hok
  cases req with
  | createStream req quota => exact h.createStream hex hn
  | deleteStream reqSeq name => exact h.deleteStream reqSeq name
  | createConsumer req quota journalTail => exact h.creates hex (h.replayable.live.creates wh req quota journalTail) hn
  | deleteConsumer reqSeq id => exact h.deleteConsumer reqSeq id
  | subscribe conn req => exact h.subscribe hn

/-- A consumer that joins again, and is let in, has the filter that it asks for. -/
theorem keepsFilter_of_accepted (h : b.Sound) {req : AdminRequest} (hok : b.Accepted wh req) : b.KeepsFilter req := by
  obtain ⟨n, hn⟩ := hok
  cases req with
  | createConsumer req quota journalTail =>
    intro stream c info filter hal hl hinfo hrule
    have hget : b.names.getOrCreateConsumer stream req.name = (c, b.names) := by
      unfold getOrCreateConsumer
      rw [hl]
    have hc := h.creates wh req quota journalTail
    change (b.createConsumer wh req quota journalTail).2 = .repOk n at hn
    generalize b.createConsumer wh req quota journalTail = out at hc hn
    cases hc with
    | refused | barred | full => cases hn
    | @asked stream' filter' _ hal' hrule' hslot hlive hname hout =>
    obtain rfl : stream = stream' := some.inj (hal.stream.symm.trans hal'.stream)
    obtain rfl : filter = filter' := Except.ok.inj (hrule.symm.trans hrule')
    cases hout with
    | differs => cases hn
    | @again info' startSeq hinfo' hsame =>
      rw [idFor, hget] at hinfo'
      obtain rfl : info = info' := some.inj (hinfo.symm.trans hinfo')
      unfold ConsumerInfo.sameConfig at hsame
      simp only [Bool.and_eq_true, beq_iff_eq] at hsame
      exact hsame.2.symm
    | new startSeq hnone =>
      rw [idFor, hget] at hnone
      cases hinfo.symm.trans hnone
  | createStream | deleteStream | deleteConsumer | subscribe => exact trivial

/-- What is in force of streams and consumers. -/
structure SameSettings (b x : AdminBroker) : Prop where
  streamFilters : x.names.streamFilters = b.names.streamFilters
  quotas : x.names.streamQuotas = b.names.streamQuotas
  consumerFilters : ∀ c s, b.names.consumerStream c = some s → x.names.consumerFilters c = b.names.consumerFilters c
  deliver : ∀ c s, b.names.consumerStream c = some s → x.names.consumerDeliver.lookup c = b.names.consumerDeliver.lookup c
  consumers : ∀ i c, (x.engines i).catalog.consumer c = (b.engines i).catalog.consumer c
  limits : ∀ i s h subject, ((x.engines i).catalog.tableOf s).resolveSubjectLimitReadonly h subject =
    ((b.engines i).catalog.tableOf s).resolveSubjectLimitReadonly h subject

theorem Alike.settings (h : b.Alike x) : b.SameSettings x where
  streamFilters := h.names.streamFilters
  quotas := h.names.streamQuotas
  consumerFilters := fun c s hc => (h.names.attached c s hc).1
  deliver := fun c s hc => (h.names.attached c s hc).2.2
  consumers := fun i c => congrFun (h.consumers i) c
  limits := fun i s hash subject => by
    have hlim : ((x.engines i).catalog.tableOf s).limitPart = ((b.engines i).catalog.tableOf s).limitPart :=
      congrFun (h.limits i) s
    exact congrArg (·.resolveSubjectLimitReadonly hash subject) hlim

/-- Without consumers the log has all that later answers depend on. -/
theorem Recorded.alike (h : b.Recorded wh) (hnone : ∀ c, b.names.consumerStream c = none) : b.Alike (b.restart wh) := by
  refine ⟨rfl, h.replayable.live, h.replayable.recovered, ⟨h.core, fun wire name hw => ?_, fun c s hc => ?_⟩, fun i => ?_,
    h.limits⟩
  · rw [h.unnamed] at hw
    cases hw
  · rw [hnone] at hc
    cases hc
  · funext c
    rw [h.replayable.live.detached (hnone c)]
    refine h.replayable.recovered.detached ?_ i
    rw [h.replayable.agrees.attached, hnone]

namespace Forgotten

/-- A stream for `a.>`, and a consumer of it for `a.b`. -/
def stream : AdminRequest := .createStream ⟨[97], [97, 46, 62], 0, 0, 1, 0, 0⟩ true

def consumer : AdminRequest :=
  .createConsumer ⟨⟨sampleHash [97], [98], [103], [97, 46, 98], 1, 1, 0, 0, 0, 0, []⟩, none⟩ true 0

/-- A subscription to the consumer, for `a.c`. -/
def outside : AdminRequest := .subscribe 9 ⟨1, 5, [[97, 46, 99]]⟩

end Forgotten

end AdminBroker

end Arbitro
