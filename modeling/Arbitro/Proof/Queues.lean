import Arbitro.Proof.Admin

/-!
# Queue ids

Queue ids are counted up from one and never given back. The tasks of a shard index their counters by
them, and by the ids of streams and consumers, whose pools end at the slot count.

* `AdminBroker.Booked`: the queues of consumers were handed out. Every request keeps it, and only a
  `CreateConsumer` hands out another.
* `AdminBroker.slots_fit`: every id has its slot, in runs whose `CreateConsumer` requests find a queue
  id left.
* `AdminBroker.Worn.queue_past_slots`: without one, a consumer whose queue has no slot.
-/

namespace Arbitro

open Function NameRegistry List Nat

namespace NameRegistry

variable {r : NameRegistry}

/-- Queue ids are handed out in order, and every attached consumer has its own on file. -/
structure Queued (r : NameRegistry) : Prop where
  pos : 0 < r.nextQueue
  lt : ∀ k q, r.queuesByKey.lookup k = some q → q < r.nextQueue
  attached : ∀ c s, r.consumerStream c = some s → (r.consumerQueue.lookup c).isSome

theorem Queued.removeConsumerById (h : r.Queued) (hr : r.OK) (c : ConsumerId) :
    (r.removeConsumerById c).Queued ∧ (r.removeConsumerById c).nextQueue = r.nextQueue := by
  have hd := removeConsumerById_drops hr c
  unfold NameRegistry.removeConsumerById at hd ⊢
  split
  · exact ⟨h, rfl⟩
  case h_2 e he =>
  rw [he] at hd
  refine ⟨⟨h.pos, h.lt, fun c' s hc' => ?_⟩, rfl⟩
  have hne : c' ≠ c := by
    intro heq
    rw [(hd.attached c').1 heq] at hc'
    cases hc'
  rw [(hd.attached c').2 hne] at hc'
  rw [Map.lookup_erase_eq, if_neg hne]
  exact h.attached c' s hc'

theorem Queued.removeConsumers (cs : List ConsumerId) (h : r.Queued) (hr : r.OK) :
    (cs.foldl NameRegistry.removeConsumerById r).Queued ∧
      (cs.foldl NameRegistry.removeConsumerById r).nextQueue = r.nextQueue := by
  refine (foldlRecOn cs _ (motive := fun x : NameRegistry => x.OK ∧ x.Queued ∧ x.nextQueue = r.nextQueue) ⟨hr, h, rfl⟩
    fun x ⟨hr, h, hnext⟩ c _ => ?_).2
  exact ⟨(removeConsumerById_drops hr c).ok, (h.removeConsumerById hr c).imp_right (·.trans hnext)⟩

theorem Queued.attach (h : r.Queued) (c : ConsumerId) (q : QueueId) (s : StreamId) (policy startSeq : ℕ) :
    (((r.setConsumerQueue c q).setConsumerStream c s).setConsumerDeliverPolicy c policy startSeq).Queued := by
  refine ⟨h.pos, h.lt, fun c' t hc' => ?_⟩
  change update r.consumerStream c (some s) c' = some t at hc'
  show ((r.consumerQueue.insert c q).lookup c').isSome
  rw [Map.lookup_insert_eq]
  split
  · rfl
  case isFalse hne =>
    rw [update_of_ne hne] at hc'
    exact h.attached c' t hc'

theorem Queued.queue (h : r.Queued) (req : ConsumerRecord) (stream : StreamId) :
    (req.queue r stream).2.Queued ∧ r.nextQueue ≤ (req.queue r stream).2.nextQueue ∧
      (req.queue r stream).2.nextQueue ≤ r.nextQueue + 1 ∧ (req.queue r stream).1 < (req.queue r stream).2.nextQueue ∧
      ((req.queue r stream).1 < r.nextQueue → (req.queue r stream).2 = r) := by
  unfold ConsumerRecord.queue
  split
  · exact ⟨h, le_rfl, le_succ _, h.pos, fun _ => rfl⟩
  unfold getOrCreateQueue
  split
  case h_1 id hid => exact ⟨h, le_rfl, le_succ _, h.lt _ _ hid, fun _ => rfl⟩
  refine ⟨⟨succ_pos _, ?_, h.attached⟩, le_succ _, le_rfl, lt_succ_self _, fun hlt => ?_⟩
  · exact Map.forall_insert (lt_succ_self _) fun k q hk => (h.lt k q hk).trans (lt_succ_self _)
  · exact absurd hlt (lt_irrefl _)

theorem Queued.getOrCreateConsumer (h : r.Queued) (stream : StreamId) (name : Bytes) :
    (r.getOrCreateConsumer stream name).2.nextQueue = r.nextQueue ∧ (r.getOrCreateConsumer stream name).2.Queued := by
  unfold NameRegistry.getOrCreateConsumer
  split
  · exact ⟨rfl, h⟩
  split
  · exact ⟨rfl, h⟩
  · exact ⟨rfl, h.pos, h.lt, h.attached⟩

end NameRegistry

namespace AdminBroker

variable {b b' : AdminBroker} (wh : WireHash) {stream : StreamId} {c : ConsumerId} {n : ℕ} {info : ConsumerInfo}

theorem queued_filterWritten (h : b.names.Queued) {req : CreateConsumerReq} {filter : Bytes} :
    (b.filterWritten req stream filter).names.nextQueue = b.names.nextQueue ∧
      (b.filterWritten req stream filter).names.Queued := by
  obtain ⟨hnext, hq⟩ := h.getOrCreateConsumer stream req.name
  exact ⟨hnext, hq.pos, hq.lt, hq.attached⟩

theorem servedBy_attached (h : b.names.Queued) (hc : b.names.consumerStream c = some stream) :
    ∃ q, b.servedBy stream c = (q, b.names) := by
  obtain ⟨q, hq⟩ := Option.isSome_iff_exists.1 (h.attached c stream hc)
  exact ⟨q, by rw [servedBy, hq]⟩

/-- **The queues of consumers were handed out.** -/
structure Booked (b : AdminBroker) : Prop where
  sound : b.Sound
  queued : b.names.Queued
  queues : ∀ i c info, (b.engines i).entities.consumers c = some info → info.queueId < b.names.nextQueue

theorem booked_new {shardCount : ℕ} : Booked { shardCount := shardCount } :=
  ⟨sound_new shardCount, ⟨one_pos, nofun, nofun⟩, nofun⟩

/-- One engine changed, and its consumers have queues that were made. -/
theorem queues_update {n i : ℕ} {e : Engine}
    (h : ∀ j, (b.engines j).entities.consumers c = some info → info.queueId < n)
    (he : e.entities.consumers c = some info → info.queueId < n) {j : ℕ}
    (hj : (update b.engines i e j).entities.consumers c = some info) : info.queueId < n := by
  rw [update_apply] at hj
  split at hj
  · exact he hj
  · exact h j hj

theorem consumers_dropped {ent : Entities} {p : ConsumerId → Bool}
    (h : (ent.dropConsumers p).consumers c = some info) : ent.consumers c = some info := by
  change (if p c then none else ent.consumers c) = some info at h
  split at h
  · cases h
  · exact h

theorem Booked.createStream (h : b.Booked) (req : CreateStreamReq) (quota : Bool) :
    (b.createStream wh req quota).1.Booked ∧ (b.createStream wh req quota).1.names.nextQueue = b.names.nextQueue := by
  have hs := h.sound.createStream wh req quota
  rcases createStream_cases wh h.sound req quota with ⟨code, heq⟩ | ⟨id, created, names, -, hc, hent, heq⟩
  · rw [heq]
    exact ⟨h, rfl⟩
  obtain ⟨hq, hnext⟩ : names.Queued ∧ names.nextQueue = b.names.nextQueue := by
    rcases getOrCreateStreamChecked_cases hc with ⟨-, rfl, -⟩ | ⟨-, -, -, streams, -, rfl⟩
    · exact ⟨h.queued, rfl⟩
    · exact ⟨⟨h.queued.pos, h.queued.lt, h.queued.attached⟩, rfl⟩
  rw [heq] at hs ⊢
  refine ⟨⟨hs, ⟨hq.pos, hq.lt, hq.attached⟩, fun i c info hi => ?_⟩, hnext⟩
  show _ < names.nextQueue
  rw [hnext]
  exact queues_update (h.queues · c info) (fun hc => h.queues _ c info (hent ▸ hc)) hi

theorem Booked.deleteStream (h : b.Booked) (reqSeq : ℕ) (name : Bytes) : (b.deleteStream wh reqSeq name).1.Booked ∧
      (b.deleteStream wh reqSeq name).1.names.nextQueue = b.names.nextQueue := by
  have hs := h.sound.deleteStream wh reqSeq name
  unfold AdminBroker.deleteStream at hs ⊢
  cases hid : b.names.streamSeq (wh name) with
  | none => exact ⟨h, rfl⟩
  | some id =>
    have hd := removeConsumers_drops (b.names.consumersForStream id) h.sound.names
    obtain ⟨hq, hnext⟩ := h.queued.removeConsumers (b.names.consumersForStream id) h.sound.names
    simp only [hid] at hs
    simp only [removeStream_eq (show streamSeq _ (wh name) = some id by rw [streamSeq, hd.streams]; exact hid)] at hs ⊢
    refine ⟨⟨hs, ⟨hq.pos, hq.lt, hq.attached⟩, fun i c info hi => hnext ▸ ?_⟩, hnext⟩
    refine queues_update (h.queues · c info) (fun hc => ?_) hi
    rw [Engine.entities_deleteStream] at hc
    exact h.queues _ c info (consumers_dropped hc)

theorem Booked.deleteConsumer (h : b.Booked) (reqSeq : ℕ) (id : ConsumerId) :
    (b.deleteConsumer reqSeq id).1.Booked ∧ (b.deleteConsumer reqSeq id).1.names.nextQueue = b.names.nextQueue := by
  obtain ⟨hq, hnext⟩ := h.queued.removeConsumerById h.sound.names id
  refine ⟨⟨h.sound.deleteConsumer reqSeq id, hq, fun i c info hi => ?_⟩, hnext⟩
  show info.queueId < nextQueue _
  rw [deleteConsumer_eq, hnext]
  refine queues_update (h.queues · c info) (fun hc => ?_) hi
  rw [Engine.entities_deleteConsumer] at hc
  exact h.queues _ c info (consumers_dropped hc)

variable {wh} in
theorem Booked.creates (h : b.Booked) {req : CreateConsumerReq} {quota : Bool} {out : AdminBroker × AdminReply}
    (hc : Creates wh b req quota out) : out.1.Booked ∧ out.1.names.nextQueue ≤ b.names.nextQueue + 1 := by
  have hs := hc.sound h.sound
  cases hc with
  | refused => exact ⟨h, le_succ _⟩
  | @barred stream v hal =>
    obtain ⟨hnext, hq⟩ := h.queued.getOrCreateConsumer stream req.name
    exact ⟨⟨hs, hq, fun i c info hi => hnext ▸ h.queues i c info hi⟩, hnext ▸ le_succ _⟩
  | @full stream filter =>
    obtain ⟨hnext, hq⟩ := queued_filterWritten h.queued
    exact ⟨⟨hs, hq, fun i c info hi => hnext ▸ h.queues i c info hi⟩, hnext ▸ le_succ _⟩
  | @asked stream filter _ hal hrule hslot hlive hname hout =>
  obtain ⟨hnext, hq⟩ := queued_filterWritten h.queued
  obtain ⟨hq', hle, hle', hlt, -⟩ := hq.queue req.toConsumerRecord stream
  rw [hnext] at hle hle'
  have hold : ∀ i c info, (b.engines i).entities.consumers c = some info →
      info.queueId < (req.queue (b.filterWritten req stream filter).names stream).2.nextQueue :=
    fun i c info hi => (h.queues i c info hi).trans_le hle
  cases hout with
  | differs => exact ⟨⟨hs, hq', hold⟩, hle'⟩
  | again => exact ⟨⟨hs, hq'.attach _ _ stream _ _, hold⟩, hle'⟩
  | new startSeq hnone he hent =>
  refine ⟨⟨hs, hq'.attach _ _ stream _ _, fun i c info hi => ?_⟩, hle'⟩
  refine queues_update (hold · c info) (fun hc => ?_) hi
  rw [hent] at hc
  change update (b.engineOf stream).entities.consumers _ _ c = some info at hc
  rw [update_apply] at hc
  split at hc
  · obtain rfl := Option.some.inj hc
    exact hlt
  · exact hold _ c info hc

theorem subscribe_names (h : b.names.Queued) {conn : ConnectionId} {req : SubscribeReq} :
    ∃ subs next, (b.subscribe wh conn req).1.names =
      { b.names with subscriptionsByConn := subs, nextSubscription := next } := by
  by_cases hvalid : (req.filters.any fun f => !f.isEmpty && !validateSubject f) = true
  · rw [AdminBroker.subscribe, if_pos hvalid]
    exact ⟨_, _, rfl⟩
  cases hstream : b.names.consumerStream req.consumerId with
  | none =>
    rw [AdminBroker.subscribe, if_neg hvalid, hstream]
    exact ⟨_, _, rfl⟩
  | some stream =>
    obtain ⟨q, hq⟩ := servedBy_attached h hstream
    rw [subscribe_eq wh conn req hvalid hstream, hq]
    split
    · exact ⟨_, _, rfl⟩
    · exact b.names.resolveSubscription_eq conn req.subscriptionId

theorem Booked.subscribe (h : b.Booked) (conn : ConnectionId) (req : SubscribeReq) :
    (b.subscribe wh conn req).1.Booked ∧ (b.subscribe wh conn req).1.names.nextQueue = b.names.nextQueue := by
  obtain ⟨_, _, hnames⟩ := subscribe_names wh h.queued
  have hnext : (b.subscribe wh conn req).1.names.nextQueue = b.names.nextQueue := by rw [hnames]
  refine ⟨⟨h.sound.subscribe wh conn req, ?_, fun i c info hi => hnext ▸ h.queues i c info ?_⟩, hnext⟩
  · rw [hnames]
    exact ⟨h.queued.pos, h.queued.lt, h.queued.attached⟩
  rcases subscribe_cases wh h.sound conn req with ⟨names, code, -, heq⟩ |
    ⟨stream, filters, sid, names, e, -, -, -, -, hent, heq⟩
  · rwa [heq] at hi
  rw [heq] at hi
  refine (congrFun (entities_update (f := Entities.consumers) ?_ i) c).symm.trans hi
  rw [hent]
  split <;> rfl

/-! ## Slots -/

def slotCount : ℕ := 4096

/-- **The ids that counters are indexed by are slots**: the streams that are published to, and the consumers
that an engine knows with their streams and queues. -/
def SlotsFit (b : AdminBroker) : Prop :=
  (∀ w s, b.names.streamSeq w = some s → s < slotCount) ∧
    ∀ i c info, (b.engines i).catalog.consumer c = some info →
      c < slotCount ∧ info.streamId < slotCount ∧ info.queueId < slotCount

theorem Booked.slotsFit (h : b.Booked) (hnext : b.names.nextQueue ≤ slotCount) : b.SlotsFit := by
  have hmax : maxSlotCount = slotCount := rfl
  refine ⟨fun w s hs => h.sound.names.streams.lt ⟨w, hs⟩, fun i c info hc => ?_⟩
  obtain ⟨hatt, -⟩ := h.sound.attached hc
  exact ⟨h.sound.names.lt (h.sound.names.named hatt), h.sound.names.streams.lt (h.sound.names.attached c _ hatt).2,
    (h.queues i c info hc).trans_le hnext⟩

/-- A `CreateConsumer` finds a queue id for its group. -/
def QueueIdLeft (b : AdminBroker) : AdminRequest → Prop
  | .createConsumer _ _ _ => b.names.nextQueue < slotCount
  | _ => True

/-- **Every id has its slot** in runs whose `CreateConsumer` requests find a queue id left. -/
theorem slots_fit (wh : WireHash) (shardCount : ℕ) (reqs : List AdminRequest)
    (hleft : Run.Guarded (fun b req => (handle wh b req).1) QueueIdLeft { shardCount := shardCount } reqs) :
    (run wh { shardCount := shardCount } reqs).SlotsFit := by
  have hstep (b : AdminBroker) (req : AdminRequest) (h : b.Booked ∧ b.names.nextQueue ≤ slotCount) (hq : b.QueueIdLeft req) :
      (b.handle wh req).1.Booked ∧ (b.handle wh req).1.names.nextQueue ≤ slotCount := by
    cases req with
    | createStream req quota => exact (h.1.createStream wh req quota).imp_right fun heq => heq.trans_le h.2
    | deleteStream reqSeq name => exact (h.1.deleteStream wh reqSeq name).imp_right fun heq => heq.trans_le h.2
    | createConsumer req quota tail => exact (h.1.creates (h.1.sound.creates wh req quota tail)).imp_right fun hle => hle.trans hq
    | deleteConsumer reqSeq id => exact (h.1.deleteConsumer reqSeq id).imp_right fun heq => heq.trans_le h.2
    | subscribe conn req => exact (h.1.subscribe wh conn req).imp_right fun heq => heq.trans_le h.2
  obtain ⟨hb, hnext⟩ := Run.invariant hstep reqs _ ⟨booked_new, (by decide : 1 ≤ slotCount)⟩ hleft
  exact hb.slotsFit hnext

namespace Worn

/-- The names of queue groups. -/
def group (n : ℕ) : Bytes := List.replicate (n / 64) 97 ++ List.replicate (n % 64) 98

/-- A consumer of stream `a` in a queue group. -/
def ask (name : Bytes) (n : ℕ) : CreateConsumerReq := ⟨⟨sampleHash [97], name, group n, [], 1, 1, 0, 1, 0, 0, []⟩, none⟩

/-- Stream `a` and a consumer of it in the first group. -/
def opening : List AdminRequest :=
  [.createStream ⟨[97], [97, 46, 62], 0, 0, 1, 0, 0⟩ true, .createConsumer (ask [99] 1) true 0]

theorem slots_fit_opening : (run sampleHash { shardCount := 1 } opening).SlotsFit :=
  slots_fit sampleHash 1 opening ⟨trivial, (by decide : 1 < slotCount), trivial⟩

def before : AdminBroker := run sampleHash { shardCount := 1 } opening

/-- The broker when queue ids were handed out. -/
def worn (m : Map (StreamId × Bytes) QueueId) (n : ℕ) : AdminBroker :=
  { before with names := { before.names with queuesByKey := m, nextQueue := n } }

theorem group_inj {m n : ℕ} (h : group m = group n) : m = n := by
  have hdiv := congrArg (count 97) h
  have hmod := congrArg (count 98) h
  simp [group, count_replicate] at hdiv hmod
  omega

theorem validateName_group (h0 : 0 < n) (hn : n ≤ 4096) : validateName (group n) = true := by
  unfold validateName group maxNameLen
  simp [isNameByte]
  omega

theorem queue_ask (r : NameRegistry) (name : Bytes) (hnew : r.queuesByKey.lookup (0, group n) = none) :
    (ask name n).queue r 0 =
      (r.nextQueue, { r with nextQueue := r.nextQueue + 1, queuesByKey := r.queuesByKey.insert (0, group n) r.nextQueue }) := by
  change r.getOrCreateQueue 0 (group n) = _
  unfold getOrCreateQueue
  rw [hnew]

variable {m : Map (StreamId × Bytes) QueueId}

/-- The consumer asks for another group. The engine refuses, and a queue id is spent. -/
theorem refused (h1 : 1 < n) (hn : n ≤ 4096) (hnew : m.lookup (0, group n) = none) :
    ((worn m n).handle sampleHash (.createConsumer (ask [99] n) true 0)).1 = worn (m.insert (0, group n) n) (n + 1) := by
  have hgroup := validateName_group (by omega : 0 < n) hn
  have hs : (worn m n).screened (ask [99] n) true = .ok 0 := by
    have hempty : (group n).isEmpty = false := by
      cases hg : group n <;> simp_all [validateName]
    simp [screened, ask, hgroup, hempty, show (worn m n).names.streamSeq (sampleHash [97]) = some 0 from rfl,
      show validateName [99] = true from rfl]
  have hr : (worn m n).ruling (ask [99] n) 0 = .ok [97, 46, 62] := rfl
  have hw : (worn m n).filterWritten (ask [99] n) 0 [97, 46, 62] = worn m n :=
    congrArg (fun f => { worn m n with names := { (worn m n).names with consumerFilters := f } })
      (update_eq_self 1 (worn m n).names.consumerFilters)
  have hq := queue_ask (worn m n).names [99] hnew
  obtain ⟨info, hinfo, hqueue⟩ : ∃ info, ((worn m n).engineOf 0).entities.consumers 1 = some info ∧ info.queueId = 1 :=
    ⟨_, rfl, rfl⟩
  have hother : info.sameConfig ((worn m n).askedConfig (ask [99] n) 0 1 [97, 46, 62]) = false := by
    have : info.queueId ≠ ((worn m n).askedConfig (ask [99] n) 0 1 [97, 46, 62]).queueId := by
      rw [askedConfig, hq, hqueue]
      exact h1.ne
    simp [ConsumerInfo.sameConfig, this]
  simp only [handle, createConsumer_eq, hs, hr, hw, show (worn m n).idFor 0 (ask [99] n).name = 1 from rfl]
  rw [if_neg (by decide), engineCreate_eq _ _ _ _ _ _ _ rfl]
  simp only [hinfo, hother, hq]
  rfl

/-- The requests that wear the queue ids down. -/
def asks (n k : ℕ) : List AdminRequest := (List.range' n k).map fun n => .createConsumer (ask [99] n) true 0

theorem lookup_insert_group {n j : ℕ} (h : n < j) :
    (m.insert (0, group n) n).lookup (0, group j) = m.lookup (0, group j) := by
  rw [Map.lookup_insert_eq, if_neg fun heq => h.ne (group_inj (Prod.mk.inj heq).2.symm)]

theorem worn_down (k : ℕ) : ∀ {m : Map (StreamId × Bytes) QueueId} {n : ℕ}, 1 < n → n + k ≤ 4096 →
    (∀ j, n ≤ j → m.lookup (0, group j) = none) →
    ∃ m', run sampleHash (worn m n) (asks n k) = worn m' (n + k) ∧ m'.lookup (0, group (n + k)) = none := by
  induction k with
  | zero => exact fun _ _ hnew => ⟨_, rfl, hnew _ le_rfl⟩
  | succ k ih =>
    intro m n h1 hn hnew
    have hrun := ih (n := n + 1) (by omega) (by omega) fun j hj => (lookup_insert_group hj).trans (hnew j (by omega))
    rw [← refused h1 (by omega) (hnew n le_rfl), succ_add_eq_add_succ] at hrun
    exact hrun

theorem not_slotsFit (hn : n = 4096) (hnew : m.lookup (0, group n) = none) :
    ¬ ((worn m n).handle sampleHash (.createConsumer (ask [100] n) true 0)).1.SlotsFit := by
  have hq := queue_ask ((worn m n).filterWritten (ask [100] n) 0 [97, 46, 62]).names [100] hnew
  have hlast : ((worn m n).handle sampleHash (.createConsumer (ask [100] n) true 0)).1 =
      (engineCreate sampleHash ((worn m n).filterWritten (ask [100] n) 0 [97, 46, 62]) (ask [100] n) 0 2 [97, 46, 62] 0).1 := by
    subst hn
    rfl
  rw [hlast, engineCreate, hq]
  intro h
  have hlt : n < slotCount := (h.2 0 2 _ rfl).2.2
  exact absurd hlt hn.not_lt

theorem run_opening {reqs : List AdminRequest} {req : AdminRequest} :
    run sampleHash { shardCount := 1 } (opening ++ reqs ++ [req]) =
      ((run sampleHash (worn before.names.queuesByKey 2) reqs).handle sampleHash req).1 := by
  rw [run, foldl_append, foldl_append]
  rfl

/-- **A consumer without a slot** for its queue. -/
theorem queue_past_slots :
    ¬ (run sampleHash { shardCount := 1 } (opening ++ asks 2 4094 ++ [.createConsumer (ask [100] 4096) true 0])).SlotsFit := by
  obtain ⟨m, hrun, hnew⟩ := worn_down 4094 (m := before.names.queuesByKey) one_lt_two le_rfl fun j hj =>
    (lookup_insert_group (m := ∅) hj).trans rfl
  rw [run_opening, hrun]
  exact not_slotsFit rfl hnew

end Worn

end AdminBroker

end Arbitro
