import Arbitro.Lib.Index
import Arbitro.Lib.Run
import Arbitro.Proof.Held

/-!
# The indices of the catalog

The binding table is kept beside five indices and two counts, updated by hand.

* `Catalog.Mirrors`: each of them agrees with the table.
* `Mirrors.retireBinding`, `Mirrors.subscribe`: the two operations that move bindings
  keep it; every other operation leaves table and indices alone (`tables`).
* `indices_mirror`: the indices mirror the table after every run of catalog
  operations, and after every run of the engine's.
-/

namespace Arbitro

open Catalog Index Binding List Option

namespace Catalog

variable {cat cat' : Catalog} {m : Map BindingId Binding} {k : BindingId} {b : Binding} {wh : WireHash}
  {P : Catalog → Prop} {K : Type} {I : Type} {ev : DeltaEvents} {sid : SubscriptionId} {key : Binding → I}
  {id : BindingId}

/-- The table of bindings and its indices agree. -/
structure Mirrors (cat : Catalog) : Prop where
  idOK : ∀ k b, cat.binding k = some b → b.bindingId = k
  byStream : Lists Binding.streamId cat.byStream cat.bindings
  byConsumer : Lists Binding.consumerId cat.byConsumer cat.bindings
  byConnection : Lists Binding.connectionId cat.byConnection cat.bindings
  bySubscription : Names Binding.subscriptionId cat.bySubscription cat.bindings
  byConnSubscription :
    Names (fun b => (b.connectionId, b.externalSubId)) cat.byConnSubscription cat.bindings
  byConnConsumer : Counts (fun b => (b.connectionId, b.consumerId)) cat.byConnConsumer cat.bindings
  demand : Counts Binding.streamId cat.demand cat.bindings

/-- The part of the catalog the mirror looks at. -/
def tables (cat : Catalog) : Catalog where
  bindings := cat.bindings
  byStream := cat.byStream
  byConsumer := cat.byConsumer
  byConnection := cat.byConnection
  bySubscription := cat.bySubscription
  byConnSubscription := cat.byConnSubscription
  byConnConsumer := cat.byConnConsumer
  demand := cat.demand

theorem Mirrors.same (h : cat.Mirrors) (ht : cat'.tables = cat.tables) : cat'.Mirrors := by
  have hcopy : cat'.tables.Mirrors := by
    rw [ht]
    exact ⟨h.idOK, h.byStream, h.byConsumer, h.byConnection, h.bySubscription, h.byConnSubscription,
      h.byConnConsumer, h.demand⟩
  exact ⟨hcopy.idOK, hcopy.byStream, hcopy.byConsumer, hcopy.byConnection, hcopy.bySubscription,
    hcopy.byConnSubscription, hcopy.byConnConsumer, hcopy.demand⟩

theorem mirrors_empty : ({} : Catalog).Mirrors := by
  refine ⟨nofun, ?_, ?_, ?_, ?_, ?_, ?_, ?_⟩
  all_goals first
    | exact fun i => ⟨nodup_nil, fun k => ⟨nofun, nofun⟩⟩
    | exact fun i k => ⟨nofun, nofun⟩
    | exact fun i => rfl

/-! ## Retiring -/

theorem lookup_retainIndex [DecidableEq K] (m : Map K (List BindingId)) (k i : K) (b : BindingId) :
    ((retainIndex m k b).lookup i).getD [] =
      if i = k then ((m.lookup i).getD []).filter (· ≠ b) else (m.lookup i).getD [] := by
  unfold retainIndex
  cases hm : m.lookup k with
  | none =>
    by_cases hi : i = k
    · subst hi; simp [hm]
    · simp [hi]
  | some v =>
    have hfilter : v.filter (· != b) = v.filter (· ≠ b) := filter_congr fun x _ => by
      simp only [bne, ne_eq, decide_not]; rfl
    simp only [Map.lookup_insert_eq]
    by_cases hi : i = k
    · rw [if_pos hi, if_pos hi, hi, hm, getD_some, hfilter, getD_some]
    · rw [if_neg hi, if_neg hi]

/-- A count goes down by one, and its entry at zero. -/
theorem lookup_decrement [DecidableEq K] (m : Map K ℕ) (k i : K) (hk : m.lookup k ≠ none) :
    (match m.lookup k with
      | none => m
      | some n => if n - 1 = 0 then m.erase k else m.insert k (n - 1)).lookup i =
      if i = k then (if (m.lookup i).getD 0 - 1 = 0 then none else some ((m.lookup i).getD 0 - 1)) else m.lookup i := by
  cases hm : m.lookup k with
  | none => exact absurd hm hk
  | some n =>
    by_cases hi : i = k
    · subst hi
      by_cases hz : n - 1 = 0
      · simp [hm, hz]
      · simp [hm, hz]
    · by_cases hz : n - 1 = 0
      · simp [hz, hi]
      · simp [hz, hi]

theorem decDemand_eq (id : StreamId) : (cat.decDemand id ev).1 = { cat with
      demand := match cat.demand.lookup id with
        | none => cat.demand
        | some n => if n - 1 = 0 then cat.demand.erase id else cat.demand.insert id (n - 1) } := by
  unfold decDemand
  cases hd : cat.demand.lookup id with
  | none => rfl
  | some n =>
    by_cases hz : n - 1 = 0
    · simp only [hz, if_pos]
    · simp only [hz, if_false]

theorem counts_ne_none [DecidableEq I] {idx : Map I ℕ} (h : Counts key idx m) (hb : m.lookup k = some b) :
    idx.lookup (key b) ≠ none := by
  have ht : tally key (m.erase k) (key b) + (if key b = key b then 1 else 0) = tally key m (key b) :=
    tally_erase hb (key b)
  rw [if_pos rfl] at ht
  rw [h (key b), if_neg (by omega)]
  exact nofun

theorem names_eraseIf [DecidableEq I] {idx : Map I BindingId} (h : Names key idx m)
    (hb : m.lookup k = some b) : Names key (eraseIfPointsAt idx (key b) k) (m.erase k) := by
  have hown : idx.lookup (key b) = some k := (h (key b) k).2 ⟨b, hb, rfl⟩
  unfold eraseIfPointsAt
  rw [if_pos hown]
  exact h.erase hb

/-- **Retiring a binding keeps the indices.** -/
theorem Mirrors.retireBinding (h : cat.Mirrors) (id : BindingId) (ev : DeltaEvents) :
    (cat.retireBinding id ev).1.Mirrors := by
  unfold Catalog.retireBinding
  cases hb : cat.binding id with
  | none => exact h
  | some b =>
    simp only [decDemand_eq]
    refine ⟨?_, ?_, ?_, ?_, ?_, ?_, ?_, ?_⟩
    · exact fun k x hx => h.idOK k x (Map.of_lookup_erase hx).2
    · exact h.byStream.erase hb fun i => lookup_retainIndex _ _ _ _
    · exact h.byConsumer.erase hb fun i => lookup_retainIndex _ _ _ _
    · exact h.byConnection.erase hb fun i => lookup_retainIndex _ _ _ _
    · exact names_eraseIf h.bySubscription hb
    · exact names_eraseIf h.byConnSubscription hb
    · exact h.byConnConsumer.erase hb fun i => lookup_decrement _ _ _ (counts_ne_none h.byConnConsumer hb)
    · exact h.demand.erase hb fun i => lookup_decrement _ _ _ (counts_ne_none h.demand hb)

/-! ## Subscribing -/

theorem retirePrevious_of (h : P cat) (hr : ∀ id, P (cat.retireBinding id ev).1)
    : P (cat.retirePrevious sid ev).1 := by
  unfold Catalog.retirePrevious
  split
  · exact h
  · exact hr _

theorem binding_retireBinding :
    (cat.retireBinding id ev).1.binding k = if k = id then none else cat.binding k := by
  unfold retireBinding
  cases hb : cat.binding id with
  | none =>
    by_cases hk : k = id
    · rw [if_pos hk, hk]; exact hb
    · rw [if_neg hk]
  | some b =>
    simp only [decDemand_eq]
    exact Map.lookup_erase_eq id k

theorem of_binding_retireBinding (hb : (cat.retireBinding id ev).1.binding k = some b) :
    k ≠ id ∧ cat.binding k = some b := by
  rw [binding_retireBinding] at hb
  split at hb
  · cases hb
  · next hne => exact ⟨hne, hb⟩

theorem nextBindingId_retirePrevious :
    (cat.retirePrevious sid ev).1.nextBindingId = cat.nextBindingId := by
  refine retirePrevious_of (P := (·.nextBindingId = cat.nextBindingId)) rfl (fun id => ?_)
  unfold retireBinding
  cases cat.binding id with
  | none => rfl
  | some b => simp only [decDemand_eq]; rfl

theorem free_retirePrevious (hfree : cat.binding cat.nextBindingId = none) (sid : SubscriptionId) (ev : DeltaEvents) :
    (cat.retirePrevious sid ev).1.binding (cat.retirePrevious sid ev).1.nextBindingId = none := by
  rw [nextBindingId_retirePrevious]
  refine retirePrevious_of (P := fun c => c.binding cat.nextBindingId = none) hfree (fun id => ?_)
  rw [binding_retireBinding, hfree, ite_self]

/-- **A subscribe is refused, or a takeover and a new binding.** -/
theorem subscribe_of {conn : ConnectionId} (h : P cat) (hr : ∀ id, P (cat.retireBinding id ev).1)
    (hnew : ∀ cat₁ sub consumer, (cat.retirePrevious sid ev).1 = cat₁ → P cat₁ →
      cat.subscriptions.lookup sid = some sub →
      P ((({ cat₁ with nextBindingId := (cat₁.nextBindingId + 1) % 2 ^ 32 }.indexBinding
        (freshBinding cat₁.nextBindingId conn sid sub consumer)).modifyMatchTable sub.streamId
        (·.bindSubscription sid conn)).incDemand sub.streamId (cat.retirePrevious sid ev).2).1) :
    P (cat.subscribe conn sid ev).2.1 := by
  unfold Catalog.subscribe
  split
  · exact h
  next sub hsub =>
  split
  · exact h
  · exact hnew _ sub _ rfl (retirePrevious_of h hr) hsub

theorem binding_retirePrevious (h : Names subscriptionId cat.bySubscription cat.bindings)
    (hb : (cat.retirePrevious sid ev).1.binding k = some b) : cat.binding k = some b ∧ b.subscriptionId ≠ sid := by
  unfold retirePrevious at hb
  cases hold : cat.bySubscription.lookup sid with
  | none =>
    rw [hold] at hb
    refine ⟨hb, fun hsid => ?_⟩
    have hnamed := (h sid k).2 ⟨b, hb, hsid⟩
    rw [hold] at hnamed; cases hnamed
  | some old =>
    rw [hold] at hb
    obtain ⟨hne, hb⟩ := of_binding_retireBinding hb
    refine ⟨hb, fun hsid => hne ?_⟩
    have hnamed := (h sid k).2 ⟨b, hb, hsid⟩
    rw [hold] at hnamed
    exact (some.inj hnamed).symm

/-- **A new binding keeps the indices** if its id is free and no other binding has its
subscription or its name on the connection. -/
theorem Mirrors.indexBinding (h : cat.Mirrors) (hfree : cat.binding b.bindingId = none)
    (hsub : ∀ k x, cat.binding k = some x → x.subscriptionId ≠ b.subscriptionId)
    (hname : ∀ k x, cat.binding k = some x →
      (x.connectionId, x.externalSubId) ≠ (b.connectionId, b.externalSubId)) (ev : DeltaEvents) :
    ((cat.indexBinding b).incDemand b.streamId ev).1.Mirrors where
  idOK := Map.forall_insert rfl h.idOK
  byStream := h.byStream.insert hfree
  byConsumer := h.byConsumer.insert hfree
  byConnection := h.byConnection.insert hfree
  bySubscription := h.bySubscription.insert hfree hsub
  byConnSubscription := h.byConnSubscription.insert hfree hname
  byConnConsumer := h.byConnConsumer.insert hfree
  demand := h.demand.insert hfree

/-- A subscribe that draws a free id, and whose client-chosen name no other subscription
uses on the connection. -/
def OwnName (cat : Catalog) (conn : ConnectionId) (sid : SubscriptionId) : Prop :=
  cat.binding cat.nextBindingId = none ∧
    ∀ sub, cat.subscriptions.lookup sid = some sub → ∀ k b, cat.binding k = some b →
      b.connectionId = conn → b.externalSubId = sub.externalId → b.subscriptionId = sid

theorem Mirrors.subscribe (h : cat.Mirrors) (conn : ConnectionId) (sid : SubscriptionId) (ev : DeltaEvents)
    (hown : cat.OwnName conn sid) : (cat.subscribe conn sid ev).2.1.Mirrors := by
  refine subscribe_of h (h.retireBinding · ev) ?_
  rintro cat₁ sub consumer rfl hold hsub
  have hprev : ∀ {k b}, (cat.retirePrevious sid ev).1.binding k = some b →
      cat.binding k = some b ∧ b.subscriptionId ≠ sid := fun hb => binding_retirePrevious h.bySubscription hb
  have hfree := free_retirePrevious hown.1 sid ev
  generalize (cat.retirePrevious sid ev).1 = cat₁ at hold hprev hfree ⊢
  have hmirror := hold.indexBinding (b := freshBinding cat₁.nextBindingId conn sid sub consumer) hfree
    (fun k x hx => (hprev hx).2)
    (fun k x hx hkey => (hprev hx).2 (hown.2 sub hsub k x (hprev hx).1
      (congrArg Prod.fst hkey) (congrArg Prod.snd hkey))) (cat.retirePrevious sid ev).2
  exact hmirror.same rfl

/-! ## Every operation -/

theorem keepOr_of {r : EngineResult Catalog} (h : P cat) (hr : ∀ cat', r = .ok cat' → P cat') : P (cat.keepOr r) := by
  cases r with
  | error e => exact h
  | ok cat' => exact hr cat' rfl

theorem EntitiesOnly.tables (h : cat.EntitiesOnly cat') : cat'.tables = cat.tables := by
  obtain ⟨_, _, _, _, rfl⟩ := h
  rfl

theorem tables_step (op : Op) : (cat.step wh op).tables = cat.tables ∨ (∃ conn sid, op = .subscribe conn sid) ∨
    (∃ id, op = .retireBinding id) ∨ ∃ id pending, op = .settle id pending := by
  have hkeep : ∀ {r : EngineResult Catalog}, (∀ cat', r = .ok cat' → cat.EntitiesOnly cat') →
      (cat.keepOr r).tables = cat.tables :=
    fun hr => keepOr_of (P := fun x => x.tables = cat.tables) rfl fun cat' h => (hr cat' h).tables
  cases op with
  | ensureStream => exact .inl (hkeep fun _ => ensureStream_entities)
  | removeStreamEntity => exact .inl (hkeep fun _ => removeStreamEntity_entities)
  | ensureConsumer => exact .inl (hkeep fun _ => ensureConsumer_entities)
  | removeConsumerEntity => exact .inl (hkeep fun _ => removeConsumerEntity_entities)
  | ensureSubscription => exact .inl (hkeep fun _ => ensureSubscription_entities)
  | removeSubscriptionEntity => exact .inl (hkeep fun _ => removeSubscriptionEntity_entities)
  | setMaxSubjectInflight => exact .inl (hkeep fun _ => setMaxSubjectInflight_entities)
  | subscribe conn sid => exact .inr (.inl ⟨conn, sid, rfl⟩)
  | retireBinding id => exact .inr (.inr (.inl ⟨id, rfl⟩))
  | settle id pending => exact .inr (.inr (.inr ⟨id, pending, rfl⟩))
  | _ => exact .inl rfl

theorem Mirrors.setBinding (h : cat.Mirrors) (hb : cat.binding id = some b)
    (pending : Map ℕ Pending) : (cat.setBinding id { b with pending := pending }).Mirrors where
  idOK := Map.forall_insert (h.idOK id b hb) h.idOK
  byStream := h.byStream.rewrite hb rfl
  byConsumer := h.byConsumer.rewrite hb rfl
  byConnection := h.byConnection.rewrite hb rfl
  bySubscription := h.bySubscription.rewrite hb rfl
  byConnSubscription := h.byConnSubscription.rewrite hb rfl
  byConnConsumer := h.byConnConsumer.rewrite hb rfl
  demand := h.demand.rewrite hb rfl

/-- A property of the binding table and its indices that survives retirements and changes
of the pendings. -/
structure Stable (P : Catalog → Prop) : Prop where
  same : ∀ {cat cat' : Catalog}, P cat → cat'.tables = cat.tables → P cat'
  retire : ∀ {cat : Catalog}, P cat → ∀ id ev, P (cat.retireBinding id ev).1
  rewrite : ∀ {cat : Catalog} {id : BindingId} {b : Binding}, P cat → cat.binding id = some b →
    ∀ pending, P (cat.setBinding id { b with pending := pending })

theorem mirrors_stable : Stable Mirrors where
  same h ht := h.same ht
  retire h id ev := h.retireBinding id ev
  rewrite h hb pending := h.setBinding hb pending

/-- No new binding. -/
def Op.Quiet : Op → Prop
  | .subscribe _ _ => False
  | _ => True

/-- A property that every catalog operation but a subscribe keeps. -/
def Kept (wh : WireHash) (P : Catalog → Prop) : Prop :=
  ∀ (cat : Catalog) (op : Op), op.Quiet → P cat → P (cat.step wh op)

theorem Stable.kept (hP : Stable P) : Kept wh P := by
  intro cat op hop h
  rcases tables_step op with ht | ⟨conn, sid, rfl⟩ | ⟨id, rfl⟩ | ⟨id, pending, rfl⟩
  · exact hP.same h ht
  · exact hop.elim
  · exact hP.retire h id {}
  · simp only [step]
    split
    · next b hb => exact hP.rewrite h hb pending
    · exact h

/-- What an operation asks of the state it meets. -/
def Op.Sound (cat : Catalog) : Op → Prop
  | .subscribe conn sid => cat.OwnName conn sid
  | _ => True

/-- **Every catalog operation keeps the indices.** -/
theorem Mirrors.step (h : cat.Mirrors) {op : Op} (hop : op.Sound cat) : (cat.step wh op).Mirrors := by
  cases op with
  | subscribe conn sid => exact h.subscribe conn sid {} hop
  | _ => exact mirrors_stable.kept cat _ trivial h

end Catalog

/-! ## The engine's operations -/

namespace Engine

open Catalog (Stable Kept)

variable {wh : WireHash} {ctx : Engine} {P : Catalog → Prop} {op : Op} {s : Engine × DeltaEvents}

theorem withCatalog_catalog {r : EngineResult Catalog} : (ctx.withCatalog r).catalog = ctx.catalog.keepOr r := by
  cases r <;> rfl

theorem catalog_retireBinding {id : BindingId} {ev : DeltaEvents} :
    (ctx.retireBinding id ev).1.catalog = (ctx.catalog.retireBinding id ev).1 := by
  unfold Engine.retireBinding
  split
  · next h => rw [h]
  · next h => rw [h]

/-- What the removal of bindings, subscriptions and consumers keeps. -/
structure Outlasts (P : Catalog → Prop) : Prop where
  retire : ∀ {cat : Catalog} id ev, P cat → P (cat.retireBinding id ev).1
  subscription : ∀ {cat : Catalog} sid, P cat → P (cat.keepOr (cat.removeSubscriptionEntity sid))
  consumer : ∀ {cat : Catalog} id, P cat → P (cat.keepOr (cat.removeConsumerEntity id))

theorem Outlasts.of_kept (hP : Kept wh P) : Outlasts P where
  retire {cat} id ev h := by
    have hev : (cat.retireBinding id ev).1 = (cat.retireBinding id {}).1 := by
      unfold Catalog.retireBinding
      cases cat.binding id with
      | none => rfl
      | some b => simp only [decDemand_eq]
    rw [hev]
    exact hP cat (.retireBinding id) trivial h
  subscription {cat} sid h := hP cat (.removeSubscriptionEntity sid) trivial h
  consumer {cat} id h := hP cat (.removeConsumerEntity id) trivial h

theorem kept_retireBindings (hP : Outlasts P) (ids : List BindingId) {ctx : Engine} (h : P ctx.catalog) : ∀ ev,
    P (ctx.retireBindings ids ev).1.catalog := by
  induction ids generalizing ctx with
  | nil => intro ev; exact h
  | cons id ids ih =>
    intro ev
    have hone := hP.retire id ev h
    rw [← catalog_retireBinding] at hone
    exact ih hone (ctx.retireBinding id ev).2

theorem kept_removeConsumerEntities (hP : Outlasts P) (h : P ctx.catalog) (id : ConsumerId) :
    P (ctx.removeConsumerEntities id).catalog := by
  have hsubs (sids : List SubscriptionId) {ctx : Engine} (h : P ctx.catalog) :
      P (sids.foldl (fun c sid => c.withCatalog (c.catalog.removeSubscriptionEntity sid)) ctx).catalog := by
    refine foldlRecOn sids _ (motive := fun c : Engine => P c.catalog) h fun c h sid _ => ?_
    rw [withCatalog_catalog]
    exact hP.subscription sid h
  unfold removeConsumerEntities
  rw [withCatalog_catalog]
  exact hP.consumer id (hsubs _ h)

theorem kept_cascade (hP : Outlasts P) (ids : List ConsumerId) (h : P s.1.catalog) :
    P (ids.foldl cascadeConsumer s).1.catalog :=
  foldlRecOn ids _ (motive := fun s : Engine × DeltaEvents => P s.1.catalog) h fun s h id _ =>
    kept_removeConsumerEntities hP (kept_retireBindings hP _ h s.2) id

theorem kept_setBinding (hP : Kept wh P) {id : BindingId} {b : Binding} (h : P ctx.catalog)
    (hb : ctx.catalog.binding id = some b) {pending : Map ℕ Pending} :
    P (ctx.catalog.setBinding id { b with pending := pending }) := by
  have hset := hP ctx.catalog (.settle id pending) trivial h
  simp only [Catalog.step, hb] at hset
  exact hset

theorem kept_settle (hP : Kept wh P) {conn : ConnectionId} {c : ConsumerId} {ids : List BindingId}
    {es : List AckEntry} (h : P s.1.catalog) : P (es.foldl (settleEntry conn c ids) s).1.catalog := by
  induction es generalizing s with
  | nil => exact h
  | cons a es ih =>
    apply ih
    rcases settleEntry_cases conn c ids s a with ⟨heq, -⟩ | ⟨id, -, heq⟩
    · rw [heq]; exact h
    · obtain ⟨b, p, hb, -, -, hcat, -⟩ := takePending_some heq
      rw [hcat]
      exact kept_setBinding hP h hb

/-- **What every catalog operation keeps, every operation of the engine keeps**, but
perhaps a subscribe. -/
theorem kept_step (hP : Kept wh P) (h : P ctx.catalog)
    (hsub : ∀ conn sid, op = .subscribe conn sid → P (ctx.catalog.subscribe conn sid {}).2.1) :
    P (ctx.step wh op).catalog := by
  have hout := Outlasts.of_kept hP
  have hwith : ∀ {ctx : Engine} {r : EngineResult Catalog}, P (ctx.catalog.keepOr r) → P (ctx.withCatalog r).catalog := by
    intro ctx r hr
    rw [withCatalog_catalog]
    exact hr
  cases op with
  | createStream config => exact hwith (hP ctx.catalog (.ensureStream config) trivial h)
  | deleteStream id =>
    have hcasc : P ((ctx.catalog.consumersForStream id).foldl cascadeConsumer (ctx, {})).1.catalog :=
      kept_cascade hout _ h
    exact hwith (hP _ (.removeStreamEntity id) trivial (kept_retireBindings hout _ hcasc _))
  | createConsumer config => exact hwith (hP ctx.catalog (.ensureConsumer config) trivial h)
  | deleteConsumer id => exact kept_removeConsumerEntities hout (kept_retireBindings hout _ h _) id
  | createSubscription config => exact hwith (hP ctx.catalog (.ensureSubscription config) trivial h)
  | subscribe conn sid => exact hsub conn sid rfl
  | unsubscribe id => exact kept_retireBindings hout [id] h {}
  | openConnection conn node => exact hP ctx.catalog (.openConnection conn node) trivial h
  | markConnectionDead conn =>
    exact hP _ (.removeConnectionEntity conn) trivial (kept_retireBindings hout _ h {})
  | pauseConsumer id => exact hP ctx.catalog (.setPaused id true) trivial h
  | resumeConsumer id => exact hP ctx.catalog (.setPaused id false) trivial h
  | setMaxSubjectInflight id pattern max =>
    exact hwith (hP ctx.catalog (.setMaxSubjectInflight id pattern max) trivial h)
  | execute cmd =>
    cases cmd with
    | delivered id es =>
      show P (ctx.applyDelivered id es).catalog
      unfold applyDelivered
      split
      · exact h
      · next b hb =>
        split
        · exact h
        · exact kept_setBinding hP h hb
    | ack conn c es | nack conn c es => exact kept_settle hP (s := (ctx, {})) h

/-- **A stable property survives every operation of the engine** but perhaps a subscribe. -/
theorem stable_step (hP : Stable P) (h : P ctx.catalog)
    (hsub : ∀ conn sid, op = .subscribe conn sid → P (ctx.catalog.subscribe conn sid {}).2.1) :
    P (ctx.step wh op).catalog :=
  kept_step hP.kept h hsub

/-- The indices of an engine's catalog. -/
abbrev Mirrors (ctx : Engine) : Prop := ctx.catalog.Mirrors

/-- What an operation of the engine asks of the state it meets. -/
def Op.OwnNames (ctx : Engine) : Op → Prop
  | .subscribe conn sid => ctx.catalog.OwnName conn sid
  | _ => True

/-- **Every operation of the engine keeps the indices.** -/
theorem Mirrors.step (h : ctx.Mirrors) (hop : op.OwnNames ctx) : (ctx.step wh op).Mirrors := by
  apply stable_step mirrors_stable h
  rintro conn sid rfl
  exact Mirrors.subscribe h conn sid {} hop

end Engine

/-- No subscription has two live bindings. -/
def Catalog.OneEach (cat : Catalog) : Prop :=
  ∀ k k' b b', cat.binding k = some b → cat.binding k' = some b' → b.subscriptionId = b'.subscriptionId → k = k'

theorem Catalog.Mirrors.oneEach {cat : Catalog} (h : cat.Mirrors) : cat.OneEach := by
  intro k k' b b' hb hb' hsub
  have hk := (h.bySubscription b.subscriptionId k).2 ⟨b, hb, rfl⟩
  have hk' := (h.bySubscription b.subscriptionId k').2 ⟨b', hb', hsub.symm⟩
  rw [hk] at hk'
  exact some.inj hk'

/-- **The indices mirror the table of bindings** after every run of catalog operations, and
of the engine's, in which a subscribe finds its binding id free and its name on the
connection used by no other subscription. -/
theorem indices_mirror (wh : WireHash) :
    (∀ ops, Run.Guarded (step wh) (fun cat op => op.Sound cat) {} ops →
      (ops.foldl (step wh) {}).Mirrors ∧ (ops.foldl (step wh) {}).OneEach) ∧
    (∀ ops, Run.Guarded (Engine.step wh) (fun ctx op => op.OwnNames ctx) .new ops →
      (ops.foldl (Engine.step wh) .new).catalog.Mirrors ∧ (ops.foldl (Engine.step wh) .new).catalog.OneEach) := by
  refine ⟨fun ops hrun => ?_, fun ops hrun => ?_⟩
  · have h : (ops.foldl (step wh) {}).Mirrors :=
      Run.invariant (fun _ _ h hop => h.step hop) ops _ mirrors_empty hrun
    exact ⟨h, h.oneEach⟩
  have hstep : ∀ (ctx : Engine) (op : Engine.Op), ctx.Mirrors → op.OwnNames ctx → (ctx.step wh op).Mirrors :=
    fun _ _ h hop => h.step hop
  have h : (ops.foldl (Engine.step wh) .new).Mirrors :=
    Run.invariant hstep ops .new mirrors_empty hrun
  exact ⟨h, Mirrors.oneEach h⟩

namespace SharedName

/-- A stream, a consumer, and two subscriptions the client calls `names`. -/
def subscribed (names : ℕ × ℕ) : List Op :=
  [.ensureStream ⟨1, []⟩, .ensureConsumer ⟨1, 5, 1, true, .explicit, 10, 0, 0, []⟩,
    .ensureSubscription ⟨1, names.1, 1, 1, []⟩, .ensureSubscription ⟨2, names.2, 1, 1, []⟩,
    .subscribe 7 1, .subscribe 7 2]

theorem own_names_mirror :
    ((subscribed (1, 2)).foldl (step fun _ => 0) {}).Mirrors ∧
      ((subscribed (1, 2)).foldl (step fun _ => 0) {}).byConnSubscription.lookup (7, 1) = some 1 := by
  refine ⟨((indices_mirror fun _ => 0).1 (subscribed (1, 2)) ?_).1, rfl⟩
  refine ⟨trivial, trivial, trivial, trivial, ⟨rfl, fun _ _ _ _ hb => by cases hb⟩, ⟨rfl, ?_⟩, trivial⟩
  -- the binding that is there is called 1, the new one 2
  intro sub hsub k b hb _ hname
  cases hsub
  have hk : k = 1 := by
    by_contra hk
    have hnone := Map.lookup_insert_eq (∅ : Map BindingId Binding) 1 k
      (freshBinding 1 7 1 ⟨1, 1, 1, []⟩ ⟨1, 5, 10, false, .explicit, true, 0, 0, []⟩)
    rw [if_neg hk] at hnone
    have hcontra := hnone.symm.trans hb
    cases hcontra
  subst hk
  cases hb
  cases hname

/-- **Two subscriptions of one connection under one name**: the index forgets the first
binding while it is live, and has no entry at all once the second is retired. -/
theorem shared_name_not_mirrored :
    (¬ ((subscribed (1, 1)).foldl (step fun _ => 0) {}).Mirrors) ∧
      ¬ ((subscribed (1, 1) ++ [Op.retireBinding 2]).foldl (step fun _ => 0) {}).Mirrors := by
  constructor
  · intro h
    have hnamed := (h.byConnSubscription (7, 1) 1).2 ⟨_, rfl, rfl⟩
    cases hnamed
  intro h
  have hnamed := (h.byConnSubscription (7, 1) 1).2 ⟨_, rfl, rfl⟩
  cases hnamed

end SharedName

end Arbitro
