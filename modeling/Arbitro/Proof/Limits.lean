import Arbitro.Proof.Entities
import Arbitro.Proof.Recipients

/-!
# Subject limits

The limits of a stream sit in its match table, beside the subscriptions. Only
`set_max_subject_inflight` adds to them, and only the removal of the stream clears them.

* `Engine.limits`: the limits an engine keeps, by stream.
* `Engine.limits_setLimits`: what a list of limits adds depends on the limits that were there,
  on nothing else of the engine.
-/

namespace Arbitro

open Function Catalog List

namespace MatchTable

variable (mt : MatchTable) (wh : WireHash)

/-- The limits of a table. -/
def limitPart : MatchTable :=
  { MatchTable.new with
    limitPatterns := mt.limitPatterns
    limitTrie := mt.limitTrie
    limitValues := mt.limitValues
    maxSubjectInflights := mt.maxSubjectInflights }

theorem limitPart_foldl_addFilter (e : MatchEntry) (filters : List Bytes) (mt : MatchTable) :
    (filters.foldl (addFilter wh e) mt).limitPart = mt.limitPart := by
  refine foldlRecOn filters (addFilter wh e) (motive := (·.limitPart = mt.limitPart)) rfl fun mt' h f _ => ?_
  rw [← h]
  unfold addFilter
  split <;> rfl

end MatchTable

namespace Catalog

variable {cat cat' : Catalog} {f : MatchTable → MatchTable} (id : StreamId) (wh : WireHash)

/-- The limits of each stream. -/
def limits (cat : Catalog) (st : StreamId) : MatchTable := (cat.tableOf st).limitPart

theorem limits_of_tables (h : cat'.matchTables = cat.matchTables) : cat'.limits = cat.limits := by
  unfold limits tableOf matchTable
  rw [h]

theorem limits_modify (hf : ∀ mt, (f mt).limitPart = mt.limitPart) :
    (cat.modifyMatchTable id f).limits = cat.limits := by
  funext st
  unfold limits tableOf
  rw [matchTable_modify]
  split
  case isTrue heq =>
    rw [heq]
    cases cat.matchTable id with
    | none => rfl
    | some mt => exact hf mt
  case isFalse => rfl

theorem limits_upsert (hf : ∀ mt, (f mt).limitPart = mt.limitPart) :
    (cat.upsertMatchTable id f).limits = cat.limits := by
  funext st
  unfold limits
  rw [tableOf_upsert]
  split
  case isTrue heq => rw [heq, hf]
  case isFalse => rfl

theorem limits_retireBinding (id : BindingId) (ev : DeltaEvents) : (cat.retireBinding id ev).1.limits = cat.limits := by
  unfold retireBinding
  cases cat.binding id with
  | none => rfl
  | some b =>
    have hmod : ((cat.unindexBinding id b).modifyMatchTable b.streamId fun mt =>
        mt.unbindSubscription b.subscriptionId).limits = (cat.unindexBinding id b).limits :=
      limits_modify b.streamId fun mt => rfl
    simp only [decDemand_eq]
    exact (limits_of_tables rfl).trans (hmod.trans (limits_of_tables rfl))

theorem limits_subscribe (conn : ConnectionId) (sid : SubscriptionId) (ev : DeltaEvents) :
    (cat.subscribe conn sid ev).2.1.limits = cat.limits := by
  refine subscribe_of (P := (·.limits = cat.limits)) rfl (limits_retireBinding · ev) fun _ sub _ _ hold _ => ?_
  refine (limits_of_tables rfl).trans ((limits_modify sub.streamId ?_).trans ((limits_of_tables rfl).trans hold))
  intro mt
  rfl

theorem limits_removeStreamEntity : (cat.keepOr (cat.removeStreamEntity id)).limits =
      if cat.streamExists id then update cat.limits id .new else cat.limits := by
  unfold removeStreamEntity
  split
  case isFalse => rfl
  funext st
  show ((Dense.get none (cat.matchTables.set id none) st).getD .new).limitPart = _
  rw [Dense.get_set_default, update_apply]
  split
  · rfl
  · rfl

theorem limits_setMaxSubjectInflight (id : StreamId) (pattern : Bytes) (max : ℕ) :
    (cat.keepOr (cat.setMaxSubjectInflight wh id pattern max)).limits =
      if cat.streamExists id then
        update cat.limits id ((cat.limits id).addMaxSubjectInflight wh pattern max).limitPart else cat.limits := by
  unfold setMaxSubjectInflight
  split
  case isFalse => rfl
  funext st
  simp only [keepOr, limits]
  rw [tableOf_upsert, update_apply]
  split
  · unfold MatchTable.addMaxSubjectInflight
    split <;> rfl
  · rfl

end Catalog

namespace Engine

open Catalog

variable (e : Engine) (wh : WireHash) (config : ConsumerConfig) (id : ConsumerId)

/-- The limits an engine keeps, by stream. -/
def limits (e : Engine) : StreamId → MatchTable := e.catalog.limits

theorem limits_withCatalog (r : EngineResult Catalog) : (e.withCatalog r).limits = (e.catalog.keepOr r).limits := by
  unfold limits
  rw [withCatalog_catalog]

theorem limits_createStream (config : StreamConfig) : (e.createStream config).1.limits = e.limits := by
  unfold createStream ensureStream
  rw [limits_withCatalog]
  split
  · rfl
  split
  · rfl
  · exact (limits_upsert config.id fun _ => rfl).trans (limits_of_tables rfl)

theorem limits_createConsumer : (e.createConsumer config).1.limits = e.limits := by
  unfold createConsumer ensureConsumer
  rw [limits_withCatalog]
  split
  · split
    · split
      · rfl
      · rfl
    · exact limits_of_tables rfl
  · rfl

theorem limits_createSubscription (config : SubscriptionConfig) :
    (e.createSubscription wh config).1.limits = e.limits := by
  unfold createSubscription ensureSubscription
  rw [limits_withCatalog]
  split
  · split
    · rfl
    split
    · rfl
    simp only [keepOr]
    refine (limits_upsert config.streamId fun mt => ?_).trans (limits_of_tables rfl)
    split
    · rfl
    · exact MatchTable.limitPart_foldl_addFilter wh _ config.filters mt
  · rfl

theorem limits_subscribe (conn : ConnectionId) (sid : SubscriptionId) : (e.subscribe conn sid).2.1.limits = e.limits :=
  Catalog.limits_subscribe conn sid {}

/-- What a list of limits adds. -/
def addLimits (wh : WireHash) (ls : List (Bytes × ℕ)) (mt : MatchTable) : MatchTable :=
  ls.foldl (fun mt l => (mt.addMaxSubjectInflight wh l.1 l.2).limitPart) mt

theorem limits_setLimits (stream : StreamId) (ls : List (Bytes × ℕ)) (e : Engine)
    (hs : e.entities.streams stream = true) :
    (e.setLimits wh stream ls).limits = update e.limits stream (addLimits wh ls (e.limits stream)) := by
  unfold setLimits addLimits
  induction ls generalizing e with
  | nil =>
    exact (update_eq_self _ _).symm
  | cons l ls ih =>
    have hone : (e.setMaxSubjectInflight wh stream l.1 l.2).limits =
        update e.limits stream ((e.limits stream).addMaxSubjectInflight wh l.1 l.2).limitPart := by
      unfold setMaxSubjectInflight
      rw [limits_withCatalog, limits_setMaxSubjectInflight]
      exact if_pos hs
    have hs' : (e.setMaxSubjectInflight wh stream l.1 l.2).entities.streams stream = true := by
      have hent := entities_setLimits wh stream [l] e
      unfold setLimits at hent
      rw [foldl_cons, foldl_nil] at hent
      rw [hent]
      exact hs
    rw [foldl_cons, ih _ hs', hone, update_self, update_idem]
    rfl

theorem limits_newConsumer (ls : List (Bytes × ℕ)) (hs : e.entities.streams config.streamId = true) :
    ((e.createConsumer config).1.setLimits wh config.streamId ls).limits =
      update e.limits config.streamId (addLimits wh ls (e.limits config.streamId)) := by
  have hstr : (e.createConsumer config).1.entities.streams config.streamId = true := by
    rcases e.createConsumer_cases config with ⟨-, -, hent⟩ | ⟨-, -, -, hent⟩ | ⟨-, info, -, heq⟩
    · rw [hent, hs]
    · rw [hent]
      exact hs
    · rw [heq, hs]
  rw [limits_setLimits wh config.streamId ls _ hstr, limits_createConsumer]

/-- Limits outlast the consumers that came with them. -/
theorem limits_outlast {l : StreamId → MatchTable} : Outlasts (·.limits = l) where
  retire id ev h := (limits_retireBinding id ev).trans h
  subscription sid h := by
    unfold removeSubscriptionEntity
    split
    · exact h
    · refine ((limits_modify _ fun mt => ?_).trans (limits_of_tables rfl)).trans h
      unfold MatchTable.removeSubscription
      split <;> rfl
  consumer id h := by
    unfold removeConsumerEntity
    split
    · exact (limits_of_tables rfl).trans h
    · exact h

theorem limits_deleteConsumer : (e.deleteConsumer id).1.limits = e.limits :=
  kept_removeConsumerEntities limits_outlast (kept_retireBindings limits_outlast _ rfl _) id

theorem limits_deleteStream (id : StreamId) :
    (e.deleteStream id).1.limits = if e.entities.streams id then update e.limits id .new else e.limits := by
  obtain ⟨e₂, ⟨ids, ev, he₂⟩, hdel⟩ := e.deleteStream_eq id
  have hlim : e₂.limits = e.limits := by
    rw [he₂]
    exact kept_retireBindings limits_outlast ids (kept_cascade limits_outlast _ rfl) ev
  have hstr : e₂.entities.streams = e.entities.streams := by
    rw [he₂, entities_retireBindings, entities_cascade]
    rfl
  rw [hdel, limits_withCatalog, limits_removeStreamEntity, ← hstr, ← hlim]
  rfl

end Engine

end Arbitro
