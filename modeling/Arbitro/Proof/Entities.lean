import Arbitro.Proof.Mirror
import Arbitro.Server.Admin

/-!
# The entities of the engine

Which streams, consumers and subscriptions an engine knows, as functions from ids, and what
each operation does to them. Bindings and match tables do not show.

* `entities_createStream`, `createConsumer_cases`, `createSubscription_cases`: what is added.
* `entities_deleteConsumer`, `entities_deleteStream`: consumers go with their subscriptions, and
  a stream with its consumers.
-/

namespace Arbitro

open Function Catalog List

@[ext] structure Entities where
  streams : StreamId → Bool
  consumers : ConsumerId → Option ConsumerInfo
  subscriptions : SubscriptionId → Option SubscriptionInfo

namespace Entities

variable (x : Entities) (id : StreamId) (c : ConsumerId) {gone : ConsumerId → Bool}

def addStream (id : StreamId) : Entities := { x with streams := update x.streams id true }

def addConsumer (config : ConsumerConfig) : Entities :=
  { x with consumers := update x.consumers config.id (some config.newInfo) }

def addSubscription (config : SubscriptionConfig) : Entities :=
  { x with
    subscriptions := update x.subscriptions config.id
      (some ⟨config.streamId, config.consumerId, config.externalId, config.filters⟩) }

/-- Consumers go, and their subscriptions with them. -/
def dropConsumers (gone : ConsumerId → Bool) : Entities :=
  { x with
    consumers := fun c => if gone c then none else x.consumers c
    subscriptions := fun sid => (x.subscriptions sid).filter fun sub => !gone sub.consumerId }

/-- The stream a consumer is on. -/
def home (c : ConsumerId) : Option StreamId := (x.consumers c).map ConsumerInfo.streamId

/-- Is this a consumer of the stream? -/
def reads (id : StreamId) (c : ConsumerId) : Bool := (x.consumers c).any (·.streamId == id)

/-- A stream goes with its consumers. -/
def dropStream (id : StreamId) : Entities :=
  { x.dropConsumers (x.reads id) with streams := update x.streams id false }

theorem dropConsumers_dropConsumers {gone gone' : ConsumerId → Bool} :
    (x.dropConsumers gone).dropConsumers gone' = x.dropConsumers fun c => gone c || gone' c := by
  ext : 1
  · rfl
  · funext c
    simp only [dropConsumers, Bool.or_eq_true]
    by_cases hg : gone c = true <;> by_cases hg' : gone' c = true <;> simp [hg, hg']
  · funext sid
    simp only [dropConsumers, Option.filter_filter, Bool.not_or]

theorem dropConsumers_of_none (hg : ∀ c, gone c = false) : x.dropConsumers gone = x := by
  ext : 1
  · rfl
  · funext c
    simp [dropConsumers, hg]
  · funext sid
    cases h : x.subscriptions sid with
    | none => simp [dropConsumers, h]
    | some sub => simp [dropConsumers, h, hg]

@[simp] theorem home_addStream : (x.addStream id).home = x.home := rfl

theorem home_addConsumer {config : ConsumerConfig} :
    (x.addConsumer config).home = update x.home config.id (some config.streamId) := by
  funext c
  unfold home addConsumer
  simp only [update_apply]
  split <;> rfl

theorem home_dropConsumers (c : ConsumerId) :
    (x.dropConsumers gone).home c = if gone c then none else x.home c := by
  unfold home dropConsumers
  simp only
  split <;> rfl

theorem reads_eq : x.reads id c = (x.home c == some id) := by
  unfold reads home
  cases x.consumers c <;> rfl

theorem home_dropStream : (x.dropStream id).home c = if x.home c = some id then none else x.home c := by
  have hsame : (x.dropStream id).home c = (x.dropConsumers (x.reads id)).home c := rfl
  rw [hsame, home_dropConsumers, reads_eq]
  simp only [beq_iff_eq]

end Entities

namespace Catalog

variable {cat cat' : Catalog} {id : StreamId}

/-- What a catalog knows. -/
def entities (cat : Catalog) : Entities := ⟨cat.streamExists, cat.consumer, cat.subscriptions.lookup⟩

theorem entities_of_fields (hs : cat'.streams = cat.streams) (hc : cat'.consumers = cat.consumers)
    (hsub : cat'.subscriptions = cat.subscriptions) : cat'.entities = cat.entities := by
  unfold entities streamExists stream consumer
  rw [hs, hc, hsub]

theorem entities_retireBinding (id : BindingId) (ev : DeltaEvents) :
    (cat.retireBinding id ev).1.entities = cat.entities := by
  unfold retireBinding
  cases cat.binding id with
  | none => rfl
  | some b =>
    simp only [decDemand_eq]
    exact entities_of_fields rfl rfl rfl

theorem entities_subscribe (conn : ConnectionId) (sid : SubscriptionId) (ev : DeltaEvents) :
    (cat.subscribe conn sid ev).2.1.entities = cat.entities := by
  refine subscribe_of (P := (·.entities = cat.entities)) rfl (entities_retireBinding · ev) fun _ _ _ _ hold _ => ?_
  rw [← hold]
  exact entities_of_fields rfl rfl rfl

theorem entities_ensureStream {config : StreamConfig} (h : cat.ensureStream config = .ok cat') :
    cat'.entities = cat.entities.addStream config.id := by
  unfold ensureStream at h
  split at h
  · cases h
  split at h
  case isTrue hex =>
    obtain rfl := Except.ok.inj h
    ext : 1
    · exact eq_update_self_iff.2 hex
    · rfl
    · rfl
  case isFalse =>
    obtain rfl := Except.ok.inj h
    ext : 1
    · funext st
      show (Dense.get none (Dense.update none 4 cat.streams _ _) st).isSome = update cat.streamExists _ true st
      rw [Dense.get_update none (by omega), update_apply]
      split <;> rfl
    · rfl
    · rfl

theorem entities_keepOr_removeStreamEntity : (cat.keepOr (cat.removeStreamEntity id)).entities =
      { cat.entities with streams := update cat.streamExists id false } := by
  unfold removeStreamEntity
  split
  case isTrue =>
    ext : 1
    · funext st
      show (Dense.get none (cat.streams.set id none) st).isSome = update cat.streamExists id false st
      rw [Dense.get_set_default, update_apply]
      split <;> rfl
    · rfl
    · rfl
  case isFalse hno =>
  ext : 1
  · exact eq_update_self_iff.2 (Bool.not_eq_true _ ▸ hno)
  · rfl
  · rfl

theorem entities_keepOr_removeSubscriptionEntity {sid : SubscriptionId} :
    (cat.keepOr (cat.removeSubscriptionEntity sid)).entities =
      { cat.entities with subscriptions := update cat.subscriptions.lookup sid none } := by
  unfold removeSubscriptionEntity
  cases h : cat.subscriptions.lookup sid with
  | none =>
    ext : 1
    · rfl
    · rfl
    · exact eq_update_self_iff.2 h
  | some info =>
    ext : 1
    · rfl
    · rfl
    · funext k
      show (cat.subscriptions.erase sid).lookup k = update cat.subscriptions.lookup sid none k
      rw [Map.lookup_erase_eq, update_apply]

theorem entities_keepOr_removeConsumerEntity (id : ConsumerId) :
    (cat.keepOr (cat.removeConsumerEntity id)).entities =
      { cat.entities with consumers := update cat.consumer id none } := by
  unfold removeConsumerEntity
  split
  case isTrue =>
    ext : 1
    · rfl
    · funext c
      show Dense.get none (cat.consumers.set id none) c = update cat.consumer id none c
      rw [Dense.get_set_default, update_apply]
      rfl
    · rfl
  case isFalse hno =>
  ext : 1
  · rfl
  · exact eq_update_self_iff.2 (Option.not_isSome_iff_eq_none.1 hno)
  · rfl

theorem mem_subscriptionsForConsumer {id : ConsumerId} {sid : SubscriptionId} :
    sid ∈ cat.subscriptionsForConsumer id ↔ ∃ sub, cat.subscriptions.lookup sid = some sub ∧ sub.consumerId = id := by
  unfold subscriptionsForConsumer
  simp only [mem_map, mem_filter, beq_iff_eq]
  constructor
  · rintro ⟨⟨k, sub⟩, ⟨hmem, hid⟩, rfl⟩
    exact ⟨sub, AList.mem_lookup_iff.2 hmem, hid⟩
  · rintro ⟨sub, hl, hid⟩
    exact ⟨⟨sid, sub⟩, ⟨AList.mem_lookup_iff.1 hl, hid⟩, rfl⟩

theorem mem_consumersForStream {c : ConsumerId} : c ∈ cat.consumersForStream id ↔ cat.entities.reads id c = true := by
  have hreads : cat.entities.reads id c = (cat.consumer c).any (·.streamId == id) := rfl
  rw [hreads]
  unfold consumersForStream
  rw [mem_filter, mem_range]
  cases hc : cat.consumer c with
  | none => simp
  | some info =>
    refine ⟨fun h => h.2, fun h => ⟨?_, h⟩⟩
    by_contra hlen
    unfold consumer Dense.get at hc
    rw [getD_eq_getElem?_getD, getElem?_eq_none (Nat.not_lt.1 hlen)] at hc
    cases hc

end Catalog

namespace Engine

variable (e : Engine) (id : ConsumerId) (wh : WireHash)

/-- What an engine knows. -/
def entities (e : Engine) : Entities := e.catalog.entities

theorem entities_withCatalog {r : EngineResult Catalog} : (e.withCatalog r).entities = (e.catalog.keepOr r).entities := by
  unfold entities
  rw [withCatalog_catalog]

/-! ## What is added -/

theorem createStream_cases (config : StreamConfig) :
    (config.id ≤ maxEntityId ∧ (e.createStream config).2 = .ok () ∧
      (e.createStream config).1.entities = e.entities.addStream config.id) ∨
    (maxEntityId < config.id ∧ (e.createStream config).2 = .error .entityIdTooLarge ∧
      (e.createStream config).1.entities = e.entities) := by
  unfold Engine.createStream
  by_cases hid : maxEntityId < config.id
  · have herr : e.catalog.ensureStream config = .error .entityIdTooLarge := by
      unfold ensureStream
      rw [if_pos hid]
    exact .inr ⟨hid, by simp only [herr]; rfl, by simp only [herr]; rfl⟩
  obtain ⟨cat, hok⟩ : ∃ cat, e.catalog.ensureStream config = .ok cat := by
    unfold ensureStream
    rw [if_neg hid]
    split
    · exact ⟨_, rfl⟩
    · exact ⟨_, rfl⟩
  refine .inl ⟨Nat.not_lt.1 hid, by simp only [hok]; rfl, ?_⟩
  simp only [hok]
  exact entities_ensureStream hok

variable {e} in
theorem createConsumer_known (config : ConsumerConfig) {info : ConsumerInfo}
    (hs : e.entities.streams config.streamId = true) (hinfo : e.entities.consumers config.id = some info) :
    e.createConsumer config = (e, if info.sameConfig config then .ok false else .error .consumerConfigMismatch) := by
  unfold Engine.createConsumer ensureConsumer
  simp only [show e.catalog.streamExists config.streamId = true from hs,
    show e.catalog.consumer config.id = some info from hinfo, if_true]
  split <;> rfl

/-- **What `create_consumer` can do.** -/
theorem createConsumer_cases (config : ConsumerConfig) :
    (e.entities.streams config.streamId = false ∧ (e.createConsumer config).2 = .error .streamNotFound ∧
      (e.createConsumer config).1.entities = e.entities) ∨
    (e.entities.streams config.streamId = true ∧ e.entities.consumers config.id = none ∧
      (e.createConsumer config).2 = .ok true ∧
      (e.createConsumer config).1.entities = e.entities.addConsumer config) ∨
    (e.entities.streams config.streamId = true ∧ ∃ info, e.entities.consumers config.id = some info ∧
      e.createConsumer config = (e, if info.sameConfig config then .ok false else .error .consumerConfigMismatch)) := by
  cases hs : e.entities.streams config.streamId with
  | false =>
    have herr : e.catalog.ensureConsumer config = .error .streamNotFound := by
      unfold ensureConsumer
      rw [if_neg (by rw [show e.catalog.streamExists config.streamId = false from hs]; exact Bool.false_ne_true)]
    unfold Engine.createConsumer
    exact .inl ⟨rfl, by simp only [herr]; rfl, by simp only [herr]; rfl⟩
  | true =>
    right
    cases hc : e.entities.consumers config.id with
    | none =>
      unfold Engine.createConsumer ensureConsumer
      simp only [show e.catalog.streamExists config.streamId = true from hs,
        show e.catalog.consumer config.id = none from hc, if_true]
      refine .inl ⟨trivial, trivial, rfl, ?_⟩
      ext : 1
      · rfl
      · funext c
        show Dense.get none (Dense.update none 4 e.catalog.consumers config.id _) c = _
        rw [Dense.get_update none (by omega)]
        exact (update_apply _ _ _ _).symm
      · rfl
    | some info => exact .inr ⟨rfl, info, rfl, createConsumer_known config hs hc⟩

/-- **What `create_subscription` can do.** -/
theorem createSubscription_cases (config : SubscriptionConfig) :
    ((∃ err, (e.createSubscription wh config).2 = .error err) ∧ (e.createSubscription wh config).1.entities = e.entities ∧
      (e.entities.streams config.streamId = false ∨ e.entities.consumers config.consumerId = none)) ∨
    (e.entities.streams config.streamId = true ∧ (e.entities.consumers config.consumerId).isSome ∧
      (e.createSubscription wh config).2 = .ok () ∧
      (e.createSubscription wh config).1.entities =
        if (e.entities.subscriptions config.id).isSome then e.entities else e.entities.addSubscription config) := by
  unfold Engine.createSubscription
  cases hs : e.entities.streams config.streamId with
  | false =>
    have herr : e.catalog.ensureSubscription wh config = .error .streamNotFound := by
      unfold ensureSubscription
      rw [if_neg (by rw [show e.catalog.streamExists config.streamId = false from hs]; exact Bool.false_ne_true)]
    exact .inl ⟨⟨_, by simp only [herr]; rfl⟩, by simp only [herr]; rfl, .inl rfl⟩
  | true =>
    have hs' : e.catalog.streamExists config.streamId = true := hs
    cases hc : e.entities.consumers config.consumerId with
    | none =>
      have herr : e.catalog.ensureSubscription wh config = .error .consumerNotFound := by
        simp only [ensureSubscription, hs', if_true, show e.catalog.consumer config.consumerId = none from hc]
      exact .inl ⟨⟨_, by simp only [herr]; rfl⟩, by simp only [herr]; rfl, .inr rfl⟩
    | some info =>
      have hc' : e.catalog.consumer config.consumerId = some info := hc
      have hsub : e.entities.subscriptions config.id = e.catalog.subscriptions.lookup config.id := rfl
      right
      rw [hsub]
      simp only [ensureSubscription, hs', if_true, hc']
      split
      · exact ⟨trivial, rfl, rfl, rfl⟩
      refine ⟨trivial, rfl, rfl, ?_⟩
      ext : 1
      · rfl
      · rfl
      · funext k
        refine (Map.lookup_insert_eq _ _ _ _).trans ?_
        exact (update_apply e.entities.subscriptions config.id _ k).symm

theorem entities_setLimits (stream : StreamId) (limits : List (Bytes × ℕ)) (e : Engine) :
    (e.setLimits wh stream limits).entities = e.entities := by
  unfold setLimits
  induction limits generalizing e with
  | nil => rfl
  | cons l limits ih =>
    rw [foldl_cons, ih]
    unfold setMaxSubjectInflight
    unfold Catalog.setMaxSubjectInflight
    split
    · exact entities_of_fields rfl rfl rfl
    · rfl

theorem entities_subscribe (conn : ConnectionId) (sid : SubscriptionId) :
    (e.subscribe conn sid).2.1.entities = e.entities := Catalog.entities_subscribe conn sid {}

/-! ## What is removed -/

theorem entities_retireBindings (ids : List BindingId) (e : Engine) (ev : DeltaEvents) :
    (e.retireBindings ids ev).1.entities = e.entities := by
  induction ids generalizing e ev with
  | nil => rfl
  | cons id ids ih =>
    have hone : (e.retireBinding id ev).1.entities = e.entities := by
      unfold entities
      rw [catalog_retireBinding]
      exact entities_retireBinding id ev
    exact (ih _ _).trans hone

theorem entities_removeSubscriptions (sids : List SubscriptionId) (e : Engine) :
    (sids.foldl (fun c sid => c.withCatalog (c.catalog.removeSubscriptionEntity sid)) e).entities =
      ⟨e.entities.streams, e.entities.consumers, fun k => if k ∈ sids then none else e.entities.subscriptions k⟩ := by
  induction sids generalizing e with
  | nil => simp
  | cons sid sids ih =>
    rw [foldl_cons, ih, entities_withCatalog, entities_keepOr_removeSubscriptionEntity]
    ext : 1
    · rfl
    · rfl
    funext k
    show (if k ∈ sids then none else update e.catalog.subscriptions.lookup sid none k) = _
    rw [update_apply]
    by_cases hk : k = sid
    · simp [hk]
    · by_cases hmem : k ∈ sids
      · simp [hmem]
      · simp only [hmem, hk, if_false, mem_cons, or_self]
        rfl

theorem entities_removeConsumerEntities :
    (e.removeConsumerEntities id).entities = e.entities.dropConsumers (· == id) := by
  unfold removeConsumerEntities
  have hsubs := entities_removeSubscriptions (e.catalog.subscriptionsForConsumer id) e
  generalize (e.catalog.subscriptionsForConsumer id).foldl _ e = e₁ at hsubs ⊢
  rw [entities_withCatalog, entities_keepOr_removeConsumerEntity]
  have hcons : e₁.catalog.consumer = e.entities.consumers := congrArg Entities.consumers hsubs
  have hstr : e₁.entities.streams = e.entities.streams := by rw [hsubs]
  have hsub : ∀ sid, e₁.entities.subscriptions sid =
      if sid ∈ e.catalog.subscriptionsForConsumer id then none else e.entities.subscriptions sid := by
    rw [hsubs]
    exact fun _ => rfl
  ext : 1
  · exact hstr
  · funext c
    show update e₁.catalog.consumer id none c = if (c == id) = true then none else e.entities.consumers c
    rw [update_apply, hcons]
    simp only [beq_iff_eq]
  funext sid
  show e₁.entities.subscriptions sid = (e.entities.subscriptions sid).filter fun sub => !(sub.consumerId == id)
  rw [hsub]
  have hmem : sid ∈ e.catalog.subscriptionsForConsumer id ↔
      ∃ sub, e.entities.subscriptions sid = some sub ∧ sub.consumerId = id := mem_subscriptionsForConsumer
  cases hl : e.entities.subscriptions sid with
  | none => exact ite_self none
  | some sub =>
    rw [hl] at hmem
    by_cases hid : sub.consumerId = id
    · rw [if_pos (hmem.2 ⟨sub, rfl, hid⟩), Option.filter_some, if_neg (by simpa using hid)]
    · have hnot : sid ∉ e.catalog.subscriptionsForConsumer id := fun h => by
        obtain ⟨sub', heq, hid'⟩ := hmem.1 h
        exact hid (Option.some.inj heq ▸ hid')
      rw [if_neg hnot, Option.filter_some, if_pos (by simpa using hid)]

theorem entities_deleteConsumer : (e.deleteConsumer id).1.entities = e.entities.dropConsumers (· == id) := by
  unfold deleteConsumer
  rw [entities_removeConsumerEntities]
  unfold retireBindingsForConsumer
  rw [entities_retireBindings]

theorem entities_cascade {ids : List ConsumerId} {s : Engine × DeltaEvents} :
    (ids.foldl cascadeConsumer s).1.entities = s.1.entities.dropConsumers (decide <| · ∈ ids) := by
  induction ids generalizing s with
  | nil => exact (Entities.dropConsumers_of_none _ (by simp)).symm
  | cons id ids ih =>
    have hone : (cascadeConsumer s id).1.entities = s.1.entities.dropConsumers (· == id) := by
      unfold cascadeConsumer
      rw [entities_removeConsumerEntities]
      unfold retireBindingsForConsumer
      rw [entities_retireBindings]
    rw [foldl_cons, ih, hone, Entities.dropConsumers_dropConsumers]
    congr 1
    funext c
    simp only [mem_cons, Bool.decide_or]
    rfl

/-- The engine before `delete_stream` takes out the stream itself. -/
theorem deleteStream_eq (id : StreamId) : ∃ e₂ : Engine, (∃ ids ev, e₂ =
      (((e.catalog.consumersForStream id).foldl cascadeConsumer (e, {})).1.retireBindings ids ev).1) ∧
    (e.deleteStream id).1 = e₂.withCatalog (e₂.catalog.removeStreamEntity id) :=
  ⟨_, ⟨_, _, rfl⟩, rfl⟩

/-- **A stream goes with its consumers.** -/
theorem entities_deleteStream (id : StreamId) : (e.deleteStream id).1.entities = e.entities.dropStream id := by
  have hgone : (fun c => decide (c ∈ e.catalog.consumersForStream id)) = e.entities.reads id := by
    funext c
    rw [Bool.eq_iff_iff, decide_eq_true_eq]
    exact mem_consumersForStream
  obtain ⟨e₂, ⟨ids, ev, he₂⟩, hdel⟩ := e.deleteStream_eq id
  have hret : e₂.entities = e.entities.dropConsumers (e.entities.reads id) := by
    rw [he₂, entities_retireBindings, entities_cascade, hgone]
  rw [hdel, entities_withCatalog, entities_keepOr_removeStreamEntity]
  show { e₂.entities with streams := update e₂.entities.streams id false } = _
  rw [hret]
  rfl

end Engine

end Arbitro
