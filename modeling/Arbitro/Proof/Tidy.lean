import Arbitro.Proof.Recipients

/-!
# The catalog's match tables

What the tables of a catalog keep under every operation, whatever the subjects hash to:
the sets mirror the vectors, their entries carry no binding index, a subscription has one
entry however often it is filed, and a lookup returns it once.

* `Catalog.Filed`: the tables list the subscriptions, and every operation keeps it (`filed_kept`).
* `Tidy`, `Catalog.Tidy`: what a reader of such tables can rely on.
* `CycleEnv.matching_once`: with tables that come from a tidy catalog the recipients of
  an entry are of different subscriptions.
-/

namespace Arbitro

open Catalog List MatchTable Function

/-! ## Tables -/

namespace MatchTable

variable {wh : WireHash} {mt : MatchTable} {owned owned' : SubscriptionId → Prop} {f : MatchEntry → MatchEntry}

/-- The entries of a table are of subscriptions the catalog knows, one for each, and a
lookup finds each once. -/
structure Tidy (owned : SubscriptionId → Prop) (mt : MatchTable) : Prop where
  mirrored : mt.Mirrored
  unstamped : mt.Unstamped
  owned : ∀ e, mt.Has e → owned e.subscriptionId
  single : ∀ e e', mt.Has e → mt.Has e' → e.subscriptionId = e'.subscriptionId → e = e'
  once : ∀ h, ((mt.exact h ++ mt.catchAll).map (·.subscriptionId)).Nodup
  entries : mt.patternEntries = mt.patterns.map Prod.snd

/-- Rewriting the entries, subscription by subscription, leaves each with one. -/
theorem Tidy.rewritten (h : mt.Tidy owned) (hsid : ∀ e, (f e).subscriptionId = e.subscriptionId) :
    (∀ e e', (mt.mapEntries f).Has e → (mt.mapEntries f).Has e' → e.subscriptionId = e'.subscriptionId → e = e') ∧
      ∀ x, (((mt.mapEntries f).exact x ++ (mt.mapEntries f).catchAll).map (·.subscriptionId)).Nodup := by
  constructor
  · intro e e' he he' hsub
    obtain ⟨e₀, he₀, rfl⟩ := has_mapEntries.1 he
    obtain ⟨e₁, he₁, rfl⟩ := has_mapEntries.1 he'
    rw [hsid, hsid] at hsub
    rw [h.single e₀ e₁ he₀ he₁ hsub]
  intro x
  show (((mt.exact x).map f ++ mt.catchAll.map f).map (·.subscriptionId)).Nodup
  rw [← map_append, map_map]
  have hcomp : (fun e : MatchEntry => e.subscriptionId) ∘ f = fun e => e.subscriptionId := funext hsid
  rw [hcomp]
  exact h.once x

/-- The table lists registrations of subscriptions the catalog knows, without a stamp. -/
def Filed (wh : WireHash) (owned : SubscriptionId → Prop) (mt : MatchTable) : Prop :=
  ∃ regs, mt.Lists wh regs ∧ ∀ r ∈ regs, r.entry.bindingIdx = none ∧ owned r.sid

theorem filed_new : Filed wh owned .new := ⟨[], lists_new, nofun⟩

section Filed

variable (h : mt.Filed wh owned)

include h

theorem Filed.tidy : mt.Tidy owned := by
  obtain ⟨regs, hl, hregs⟩ := h
  refine ⟨hl.mirrored, fun e he => ?_, fun e he => ?_, fun _ _ => hl.single, fun x => (hl.drawn x).once, hl.entries⟩
  all_goals obtain ⟨r, hr, rfl⟩ := hl.of_has he
  · exact (hregs r hr).1
  · exact (hregs r hr).2

theorem Filed.mono (hsub : ∀ sid, owned sid → owned' sid) : mt.Filed wh owned' := by
  obtain ⟨regs, hl, hregs⟩ := h
  exact ⟨regs, hl, fun r hr => ⟨(hregs r hr).1, hsub _ (hregs r hr).2⟩⟩

theorem Filed.limit (pattern : Bytes) (max : ℕ) : (mt.addMaxSubjectInflight wh pattern max).Filed wh owned := by
  obtain ⟨regs, hl, hregs⟩ := h
  exact ⟨regs, hl.limit wh pattern max, hregs⟩

theorem Filed.bindSubscription (sid : SubscriptionId) (conn : ConnectionId) :
    (mt.bindSubscription sid conn).Filed wh owned := by
  obtain ⟨regs, hl, hregs⟩ := h
  refine ⟨_, hl.bind sid conn, fun r hr => ?_⟩
  obtain ⟨r₀, hr₀, rfl⟩ := mem_map.1 hr
  have hidx : (bindEntry sid conn r₀.entry).bindingIdx = r₀.entry.bindingIdx := by unfold bindEntry; split <;> rfl
  have hsid : (r₀.mapEntry (bindEntry sid conn)).sid = r₀.sid := bindEntry_sid sid conn r₀.entry
  exact ⟨hidx.trans (hregs r₀ hr₀).1, hsid ▸ (hregs r₀ hr₀).2⟩

theorem Filed.register {r : Registration} (hnew : ¬ owned r.sid) (hidx : r.entry.bindingIdx = none) :
    (mt.register wh r).Filed wh fun sid => owned sid ∨ sid = r.sid := by
  obtain ⟨regs, hl, hregs⟩ := h
  refine ⟨regs ++ [r], hl.register fun x hx hsid => hnew (hsid ▸ (hregs x hx).2), forall_mem_append.2 ⟨?_, ?_⟩⟩
  · exact fun x hx => ⟨(hregs x hx).1, .inl (hregs x hx).2⟩
  · exact forall_mem_singleton.2 ⟨hidx, .inr rfl⟩

theorem Filed.removeSubscription (sid : SubscriptionId) :
    (mt.removeSubscription sid).Filed wh fun s => owned s ∧ s ≠ sid := by
  obtain ⟨regs, hl, hregs⟩ := h
  refine ⟨_, hl.remove sid, fun r hr => ?_⟩
  obtain ⟨hr, hne⟩ := mem_filter.1 hr
  exact ⟨(hregs r hr).1, (hregs r hr).2, bne_iff_ne.1 hne⟩

end Filed

end MatchTable

/-- **The recipients of an entry are of different subscriptions.** -/
theorem CycleEnv.matching_once (env : CycleEnv) {mt : MatchTable} {owned : SubscriptionId → Prop} (h : mt.Tidy owned)
    {f : MatchEntry → MatchEntry} (hsid : ∀ e, (f e).subscriptionId = e.subscriptionId) (e : StoreEntry) :
    ((env.matching (mt.mapEntries f) e).map (·.subscriptionId)).Nodup := by
  obtain ⟨hsingle, honce⟩ := h.rewritten hsid
  have hbase : (((mt.mapEntries f).lookupVerified (env.wireHash32 e.subject) e.subject).map
      (·.subscriptionId)).Nodup := by
    refine ((Sublist.append ?_ (Sublist.refl _)).map _).nodup (honce (env.wireHash32 e.subject))
    split
    · exact Sublist.refl _
    · exact nil_sublist _
  unfold matching
  split
  · exact hbase
  · exact (foldl_pushDedup_once hsingle _ (fun _ => has_of_lookup) (fun _ => has_of_resolve) hbase).1

/-! ## Catalogs -/

namespace Catalog

variable {wh : WireHash} {cat cat' : Catalog} {f : MatchTable → MatchTable}

/-- Subscription `sid` is stored, for stream `st`. -/
def Files (cat : Catalog) (st : StreamId) (sid : SubscriptionId) : Prop :=
  ∃ info, cat.subscriptions.lookup sid = some info ∧ info.streamId = st

/-- The match table of every stream is tidy, for the subscriptions of the stream. -/
def Tidy (cat : Catalog) : Prop :=
  ∀ st mt, cat.matchTable st = some mt → mt.Tidy (cat.Files st)

/-- The match table of every stream lists subscriptions of the stream. -/
def Filed (wh : WireHash) (cat : Catalog) : Prop :=
  ∀ st mt, cat.matchTable st = some mt → mt.Filed wh (cat.Files st)

theorem filed_init : Filed wh {} := by
  intro st mt hmt
  cases hmt

section Filed

variable (h : cat.Filed wh) (id : StreamId)

include h

theorem Filed.tidy : cat.Tidy := fun st mt hmt => (h st mt hmt).tidy

theorem Filed.tableOf (st : StreamId) : (cat.tableOf st).Filed wh (cat.Files st) := by
  unfold Catalog.tableOf
  cases hmt : cat.matchTable st with
  | none => exact filed_new
  | some mt => exact h st mt hmt

theorem Filed.same (htables : cat'.matchTables = cat.matchTables)
    (hsubs : cat'.subscriptions = cat.subscriptions) : cat'.Filed wh := by
  intro st mt hmt
  unfold matchTable at hmt
  rw [htables] at hmt
  refine (h st mt hmt).mono fun _ ho => ?_
  unfold Files at ho ⊢
  rw [hsubs]
  exact ho

theorem Filed.modify
    (hf : ∀ mt, mt.Filed wh (cat.Files id) → (f mt).Filed wh (cat.Files id)) : (cat.modifyMatchTable id f).Filed wh := by
  intro st mt hmt
  rw [matchTable_modify] at hmt
  split at hmt
  · next hst =>
    subst hst
    obtain ⟨mt₀, hmt₀, rfl⟩ := Option.map_eq_some_iff.1 hmt
    exact hf mt₀ (h st mt₀ hmt₀)
  · exact h st mt hmt

theorem Filed.upsert
    (hf : ∀ mt, mt.Filed wh (cat.Files id) → (f mt).Filed wh (cat.Files id)) : (cat.upsertMatchTable id f).Filed wh := by
  intro st mt hmt
  rw [matchTable_upsert] at hmt
  split at hmt
  · next hst =>
    subst hst
    cases hmt
    exact hf _ (h.tableOf st)
  · exact h st mt hmt

theorem Filed.retireBinding (id : BindingId) (ev : DeltaEvents) : (cat.retireBinding id ev).1.Filed wh := by
  unfold Catalog.retireBinding
  cases cat.binding id with
  | none => exact h
  | some b =>
    simp only [decDemand_eq]
    have hun : (cat.unindexBinding id b).Filed wh := h.same rfl rfl
    exact Filed.same (hun.modify b.streamId fun mt hmt => hmt.bindSubscription _ _) rfl rfl

theorem Filed.subscribe (conn : ConnectionId) (sid : SubscriptionId) (ev : DeltaEvents) :
    (cat.subscribe conn sid ev).2.1.Filed wh := by
  refine subscribe_of h (h.retireBinding · ev) fun cat₁ sub consumer _ hold _ => ?_
  have hidx : ∀ b n, ({ cat₁ with nextBindingId := n }.indexBinding b).Filed wh := fun b n => hold.same rfl rfl
  exact Filed.same ((hidx _ _).modify sub.streamId fun mt hmt => hmt.bindSubscription sid conn) rfl rfl

theorem Filed.file {sid : SubscriptionId} (hnew : ∀ st, ¬ cat.Files st sid) (info : SubscriptionInfo)
    (hf : (f (cat.tableOf info.streamId)).Filed wh fun s => cat.Files info.streamId s ∨ s = sid) :
    (upsertMatchTable { cat with subscriptions := cat.subscriptions.insert sid info } info.streamId f).Filed wh := by
  have hlookup : ∀ s, (cat.subscriptions.insert sid info).lookup s =
      if s = sid then some info else cat.subscriptions.lookup s := fun s => Map.lookup_insert_eq _ _ _ _
  have hfiles : ∀ st s, cat.Files st s →
      Files { cat with subscriptions := cat.subscriptions.insert sid info } st s := by
    rintro st s ⟨info', hinfo', hst⟩
    refine ⟨info', ?_, hst⟩
    have hne : s ≠ sid := by
      rintro rfl
      exact hnew st ⟨info', hinfo', hst⟩
    exact (hlookup s).trans ((if_neg hne).trans hinfo')
  intro st mt hmt
  rw [matchTable_upsert] at hmt
  split at hmt
  · next hst =>
    subst hst
    cases hmt
    refine hf.mono fun s ho => ?_
    rcases ho with ho | ho
    · exact hfiles _ _ ho
    · rw [ho]
      exact ⟨info, (hlookup sid).trans (if_pos rfl), rfl⟩
  · exact (h st mt hmt).mono fun _ ho => hfiles _ _ ho

theorem Filed.ensureSubscription {config : SubscriptionConfig}
    (heq : cat.ensureSubscription wh config = .ok cat') : cat'.Filed wh := by
  unfold Catalog.ensureSubscription at heq
  split at heq
  · split at heq
    · cases heq
    next consumer _ =>
    split at heq
    · cases heq
      exact h
    next hnew =>
    cases heq
    have hfresh : ∀ st, ¬ cat.Files st config.id := by
      rintro st ⟨info, hinfo, -⟩
      exact hnew (by rw [hinfo]; rfl)
    have hold : (cat.tableOf config.streamId).Filed wh (cat.Files config.streamId) := h.tableOf _
    exact h.file hfresh ⟨config.streamId, config.consumerId, config.externalId, config.filters⟩
      (hold.register (r := ⟨⟨config.consumerId, consumer.queueId, config.id, 0, none⟩, config.filters⟩) (hfresh _) rfl)
  · cases heq

theorem Filed.removeSubscriptionEntity {id : SubscriptionId}
    (heq : cat.removeSubscriptionEntity id = .ok cat') : cat'.Filed wh := by
  unfold Catalog.removeSubscriptionEntity at heq
  split at heq
  · cases heq
  next info hinfo =>
  cases heq
  have hkeep : ∀ st sid, cat.Files st sid → sid ≠ id →
      Files { cat with subscriptions := cat.subscriptions.erase id } st sid := by
    rintro st sid ⟨info', hinfo', hst⟩ hne
    refine ⟨info', ?_, hst⟩
    rw [Map.lookup_erase_eq, if_neg hne]
    exact hinfo'
  intro st mt hmt
  rw [matchTable_modify] at hmt
  split at hmt
  · next hst =>
    subst hst
    obtain ⟨mt₀, hmt₀, rfl⟩ := Option.map_eq_some_iff.1 hmt
    exact ((h _ mt₀ hmt₀).removeSubscription id).mono fun _ ho => hkeep _ _ ho.1 ho.2
  next hst =>
  refine (h st mt hmt).mono fun _ ho => hkeep _ _ ho ?_
  -- the removed subscription was one of another stream
  rintro rfl
  obtain ⟨info', hinfo', hst'⟩ := ho
  rw [hinfo] at hinfo'
  cases hinfo'
  exact hst hst'.symm

end Filed

/-- **Every catalog operation keeps the tables' lists.** -/
theorem filed_kept : Kept wh (Filed wh) := by
  intro cat op hop h
  cases op with
  | ensureStream config =>
    refine keepOr_of h fun cat' heq => ?_
    unfold ensureStream at heq
    split at heq
    · cases heq
    split at heq
    · cases heq
      exact h
    · cases heq
      exact Filed.upsert (Filed.same h rfl rfl) config.id fun mt hmt => hmt
  | removeStreamEntity id =>
    refine keepOr_of h fun cat' heq => ?_
    unfold removeStreamEntity at heq
    split at heq
    · cases heq
      intro st mt hmt
      have hget : Dense.get none (cat.matchTables.set id none) st = some mt := hmt
      rw [Dense.get_set_default] at hget
      split at hget
      · cases hget
      · exact h st mt hget
    · cases heq
  | ensureConsumer config =>
    refine keepOr_of h fun cat' heq => ?_
    obtain ⟨_, rfl⟩ := ensureConsumer_ok heq
    exact h.same rfl rfl
  | removeConsumerEntity id =>
    refine keepOr_of h fun cat' heq => ?_
    unfold removeConsumerEntity at heq
    split at heq
    · cases heq
      exact h.same rfl rfl
    · cases heq
  | ensureSubscription config => exact keepOr_of h fun _ heq => h.ensureSubscription heq
  | removeSubscriptionEntity id => exact keepOr_of h fun _ heq => h.removeSubscriptionEntity heq
  | subscribe conn sid => exact hop.elim
  | retireBinding id => exact h.retireBinding id {}
  | setMaxSubjectInflight id pattern max =>
    refine keepOr_of h fun cat' heq => ?_
    unfold setMaxSubjectInflight at heq
    split at heq
    · cases heq
      exact h.upsert id fun mt hmt => hmt.limit pattern max
    · cases heq
  | settle id pending =>
    simp only [step]
    split
    · exact h.same rfl rfl
    · exact h
  | _ => exact h.same rfl rfl

end Catalog

/-- **Every operation of the engine keeps the tables' lists.** -/
theorem Engine.filed_step {wh : WireHash} {ctx : Engine} (h : ctx.catalog.Filed wh) (op : Engine.Op) :
    (ctx.step wh op).catalog.Filed wh :=
  Engine.kept_step filed_kept h fun conn sid _ => h.subscribe conn sid {}

end Arbitro
