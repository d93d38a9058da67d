import Arbitro.Engine.Runtime
import Mathlib.Data.Multiset.Filter
import Mathlib.Algebra.GroupWithZero.Nat
import Mathlib.Algebra.Order.Group.Multiset

/-!
# What the engine holds

The abstract view of the engine's bookkeeping is one multiset: the deliveries
its live bindings have not settled. This file says what every engine operation
does to it.

* `Catalog.held`, `Held`: the view.
* `Catalog.WF`: binding ids are keys, the consumer index lists live bindings of
  that consumer, pendings are keyed by their seq.
* `retireBinding_released`, `takePending_settled`, `applyDelivered_recorded`: the
  three primitives every operation is made of.
-/

namespace Arbitro

open Catalog Binding Map List

variable (b : Binding)

/-- One unsettled delivery, with the binding that holds it. -/
structure Held where
  bindingId : BindingId
  consumerId : ConsumerId
  queueId : QueueId
  pending : Pending
  deriving DecidableEq, Repr

def Binding.hold (p : Pending) : Held := ⟨b.bindingId, b.consumerId, b.queueId, p⟩

/-- A binding with its pendings set aside. -/
def Binding.frame : Binding := { b with pending := ∅ }

/-- The unsettled deliveries of a binding. -/
def Binding.held : Multiset Held := b.pending.total fun p => {b.hold p}

/-- The unsettled deliveries of all live bindings. -/
def Catalog.held (cat : Catalog) : Multiset Held := cat.bindings.total Binding.held

theorem Binding.held_eq : b.held = (b.pending.values.map b.hold : Multiset Held) := by
  unfold held total
  induction b.pending.values with
  | nil => rfl
  | cons p ps ih => simp [ih]

theorem Binding.held_of_empty {b : Binding} (h : b.pending.values = []) : b.held = 0 := by
  rw [b.held_eq, h]; rfl

theorem Catalog.mem_held {cat : Catalog} {h : Held} :
    h ∈ cat.held ↔ ∃ k b s p, cat.binding k = some b ∧ b.pending.lookup s = some p ∧ h = b.hold p := by
  unfold held
  rw [mem_total]
  constructor
  · rintro ⟨k, b, hb, hh⟩
    obtain ⟨s, p, hp, hx⟩ := mem_total.1 hh
    exact ⟨k, b, s, p, hb, hp, Multiset.mem_singleton.1 hx⟩
  · rintro ⟨k, b, s, p, hb, hp, rfl⟩
    exact ⟨k, b, hb, mem_total.2 ⟨s, p, hp, Multiset.mem_singleton_self _⟩⟩

/-- What the catalog promises about its bindings. -/
structure Catalog.WF (cat : Catalog) : Prop where
  idOK : ∀ k b, cat.binding k = some b → b.bindingId = k
  byConsumerOK : ∀ c k, k ∈ cat.bindingsForConsumer c → ∃ b, cat.binding k = some b ∧ b.consumerId = c
  byConsumerAll : ∀ k b, cat.binding k = some b → k ∈ cat.bindingsForConsumer b.consumerId
  pendingOK : ∀ k b s p, cat.binding k = some b → b.pending.lookup s = some p → p.seq = s

/-- Two catalogs with the same bindings, as far as acks look for them. -/
structure Catalog.SameBindings (cat cat' : Catalog) : Prop where
  bindings : cat'.bindings = cat.bindings
  byConsumer : cat'.byConsumer = cat.byConsumer
  bySubscription : cat'.bySubscription = cat.bySubscription
  byConnSubscription : cat'.byConnSubscription = cat.byConnSubscription
  nextBindingId : cat'.nextBindingId = cat.nextBindingId

/-- **Bindings only went away.** -/
structure Catalog.Shrinks (cat cat' : Catalog) : Prop where
  binding : ∀ k b, cat'.binding k = some b → cat.binding k = some b
  named : ∀ conn sub id, cat'.bindingIdForSubscription conn sub = some id →
    cat.bindingIdForSubscription conn sub = some id
  nextBindingId : cat'.nextBindingId = cat.nextBindingId

namespace Catalog

variable {cat cat' : Catalog} {m : Map ConsumerId (List BindingId)} {b} {k c : ConsumerId} {wh : WireHash}
  {config : ConsumerConfig} {id : StreamId}

theorem SameBindings.refl (cat : Catalog) : SameBindings cat cat := ⟨rfl, rfl, rfl, rfl, rfl⟩

theorem SameBindings.trans {a b c : Catalog} (h : SameBindings a b) (h' : SameBindings b c) : SameBindings a c :=
  ⟨h'.bindings.trans h.bindings, h'.byConsumer.trans h.byConsumer, h'.bySubscription.trans h.bySubscription,
    h'.byConnSubscription.trans h.byConnSubscription, h'.nextBindingId.trans h.nextBindingId⟩

theorem WF.owner (hw : cat.WF) (hid : id ∈ cat.bindingsForConsumer c) :
    ∀ b, cat.binding id = some b → b.consumerId = c := by
  intro b hb
  obtain ⟨b', hb', hc⟩ := hw.byConsumerOK c id hid
  rw [hb'] at hb; cases hb
  exact hc

theorem SameBindings.binding (h : SameBindings cat cat') (k : BindingId) : cat'.binding k = cat.binding k := by
  unfold Catalog.binding; rw [h.bindings]

theorem SameBindings.held (h : SameBindings cat cat') : cat'.held = cat.held := by
  unfold Catalog.held; rw [h.bindings]

theorem SameBindings.wf (h : SameBindings cat cat') (hw : cat.WF) : cat'.WF where
  idOK k b hb := hw.idOK k b (by rw [← h.binding]; exact hb)
  byConsumerOK c k hk := by
    have hk' : k ∈ cat.bindingsForConsumer c := by
      unfold bindingsForConsumer at hk ⊢; rw [← h.byConsumer]; exact hk
    obtain ⟨b, hb, hc⟩ := hw.byConsumerOK c k hk'
    exact ⟨b, by rw [h.binding]; exact hb, hc⟩
  byConsumerAll k b hb := by
    have hk := hw.byConsumerAll k b (by rw [← h.binding]; exact hb)
    unfold bindingsForConsumer at hk ⊢
    rw [h.byConsumer]; exact hk
  pendingOK k b s p hb hp := hw.pendingOK k b s p (by rw [← h.binding]; exact hb) hp

theorem SameBindings.shrinks (h : SameBindings cat cat') : Shrinks cat cat' where
  binding k b hb := by rw [← h.binding]; exact hb
  named conn sub id hid := by
    unfold bindingIdForSubscription at hid ⊢
    rw [← h.byConnSubscription]; exact hid
  nextBindingId := h.nextBindingId

theorem Shrinks.trans {a b c : Catalog} (h : Shrinks a b) (h' : Shrinks b c) : Shrinks a c where
  binding k x hx := h.binding k x (h'.binding k x hx)
  named conn sub id hid := h.named conn sub id (h'.named conn sub id hid)
  nextBindingId := h'.nextBindingId.trans h.nextBindingId

/-! ## Operations that leave the bindings alone -/

theorem same_modifyMatchTable (id : StreamId) (f : MatchTable → MatchTable) :
    SameBindings cat (cat.modifyMatchTable id f) := ⟨rfl, rfl, rfl, rfl, rfl⟩

theorem same_incDemand (id : StreamId) (ev : DeltaEvents) : SameBindings cat (cat.incDemand id ev).1 :=
  ⟨rfl, rfl, rfl, rfl, rfl⟩

theorem same_decDemand (ev : DeltaEvents) : SameBindings cat (cat.decDemand id ev).1 := by
  unfold decDemand
  split
  · exact .refl cat
  · split <;> exact ⟨rfl, rfl, rfl, rfl, rfl⟩

/-- Streams, consumers, subscriptions and match tables may differ, nothing else. -/
def EntitiesOnly (cat cat' : Catalog) : Prop :=
  ∃ streams consumers subscriptions matchTables, cat' = { cat with
    streams := streams, consumers := consumers, subscriptions := subscriptions, matchTables := matchTables }

theorem EntitiesOnly.same (h : cat.EntitiesOnly cat') : SameBindings cat cat' := by
  obtain ⟨_, _, _, _, rfl⟩ := h
  exact ⟨rfl, rfl, rfl, rfl, rfl⟩

theorem ensureStream_entities {config : StreamConfig} (h : cat.ensureStream config = .ok cat') :
    cat.EntitiesOnly cat' := by
  unfold ensureStream at h
  split at h
  · cases h
  · split at h <;> cases h <;> exact ⟨_, _, _, _, rfl⟩

theorem removeStreamEntity_entities (h : cat.removeStreamEntity id = .ok cat') : cat.EntitiesOnly cat' := by
  unfold removeStreamEntity at h
  split at h <;> cases h
  exact ⟨_, _, _, _, rfl⟩

theorem ensureConsumer_ok (h : (cat.ensureConsumer config).map Prod.fst = .ok cat') :
    ∃ consumers, cat' = { cat with consumers := consumers } := by
  unfold ensureConsumer at h
  split at h
  · split at h
    · split at h <;> cases h
      exact ⟨_, rfl⟩
    · cases h; exact ⟨_, rfl⟩
  · cases h

theorem ensureConsumer_entities (h : (cat.ensureConsumer config).map Prod.fst = .ok cat') : cat.EntitiesOnly cat' := by
  obtain ⟨consumers, rfl⟩ := ensureConsumer_ok h
  exact ⟨_, _, _, _, rfl⟩

theorem removeConsumerEntity_entities {id : ConsumerId} (h : cat.removeConsumerEntity id = .ok cat') :
    cat.EntitiesOnly cat' := by
  unfold removeConsumerEntity at h
  split at h <;> cases h
  exact ⟨_, _, _, _, rfl⟩

theorem ensureSubscription_entities {config : SubscriptionConfig}
    (h : cat.ensureSubscription wh config = .ok cat') : cat.EntitiesOnly cat' := by
  unfold ensureSubscription at h
  split at h
  · split at h
    · cases h
    · split at h <;> cases h <;> exact ⟨_, _, _, _, rfl⟩
  · cases h

theorem removeSubscriptionEntity_entities {id : SubscriptionId} (h : cat.removeSubscriptionEntity id = .ok cat') :
    cat.EntitiesOnly cat' := by
  unfold removeSubscriptionEntity at h
  split at h <;> cases h
  exact ⟨_, _, _, _, rfl⟩

theorem setMaxSubjectInflight_entities {pattern : Bytes} {max : ℕ}
    (h : cat.setMaxSubjectInflight wh id pattern max = .ok cat') : cat.EntitiesOnly cat' := by
  unfold setMaxSubjectInflight at h
  split at h <;> cases h
  exact ⟨_, _, _, _, rfl⟩

/-! ## Index updates -/

theorem mem_retainIndex {b x : BindingId} :
    x ∈ ((retainIndex m k b).lookup c).getD [] ↔ x ∈ (m.lookup c).getD [] ∧ (c = k → x ≠ b) := by
  unfold retainIndex
  cases hm : m.lookup k with
  | none =>
    refine ⟨fun h => ⟨h, ?_⟩, fun h => h.1⟩
    rintro rfl
    simp [hm] at h
  | some v =>
    by_cases hc : c = k
    · subst hc; simp [hm]
    · simp [hc]

theorem mem_pushIndex {b x : BindingId} :
    x ∈ ((pushIndex m k b).lookup c).getD [] ↔ x ∈ (m.lookup c).getD [] ∨ (c = k ∧ x = b) := by
  unfold pushIndex
  by_cases hc : c = k
  · subst hc; simp
  · simp [hc]

/-! ## Writing, adding and removing a binding -/

theorem held_setBinding (hb : cat.binding id = some b) (b' : Binding) :
    (cat.setBinding id b').held + b.held = b'.held + cat.held := by
  have h := total_insert Binding.held cat.bindings id b'
  rwa [share_of_lookup hb] at h

theorem binding_setBinding (id k : BindingId) (b' : Binding) :
    (cat.setBinding id b').binding k = if k = id then some b' else cat.binding k :=
  lookup_insert_eq cat.bindings id k b'

/-- A binding may be rewritten as long as it stays the binding it was. -/
theorem wf_setBinding (hw : cat.WF) {b' : Binding} (hb : cat.binding id = some b)
    (hid : b'.bindingId = b.bindingId) (hc : b'.consumerId = b.consumerId)
    (hp : ∀ s p, b'.pending.lookup s = some p → p.seq = s) : (cat.setBinding id b').WF where
  idOK := forall_insert (hid.trans (hw.idOK id b hb)) hw.idOK
  byConsumerOK c k hk := by
    obtain ⟨x, hx, hxc⟩ := hw.byConsumerOK c k hk
    rw [binding_setBinding]
    by_cases h : k = id
    · subst h
      rw [hb] at hx; cases hx
      exact ⟨b', by simp, by rw [hc]; exact hxc⟩
    · exact ⟨x, by simp [h, hx], hxc⟩
  byConsumerAll := forall_insert (by rw [hc]; exact hw.byConsumerAll id b hb) hw.byConsumerAll
  pendingOK k x s p hx hs := by
    rcases of_lookup_insert hx with ⟨-, rfl⟩ | ⟨-, hx⟩
    · exact hp s p hs
    · exact hw.pendingOK k x s p hx hs

theorem held_unindexBinding (hb : cat.binding id = some b) : (cat.unindexBinding id b).held + b.held = cat.held := by
  have h := total_erase Binding.held cat.bindings id
  rwa [share_of_lookup hb] at h

theorem binding_unindexBinding (id k : BindingId) :
    (cat.unindexBinding id b).binding k = if k = id then none else cat.binding k :=
  lookup_erase_eq id k

theorem wf_unindexBinding (hw : cat.WF) (hb : cat.binding id = some b) : (cat.unindexBinding id b).WF where
  idOK k x hx := hw.idOK k x (of_lookup_erase hx).2
  byConsumerOK c k hk := by
    obtain ⟨hk, hne⟩ := mem_retainIndex.1 hk
    obtain ⟨x, hx, hxc⟩ := hw.byConsumerOK c k hk
    have hkid : k ≠ id := by
      rintro rfl
      rw [hb] at hx; cases hx
      exact hne hxc.symm rfl
    exact ⟨x, by rw [binding_unindexBinding, if_neg hkid]; exact hx, hxc⟩
  byConsumerAll k x hx := by
    obtain ⟨hne, hx⟩ := of_lookup_erase hx
    exact mem_retainIndex.2 ⟨hw.byConsumerAll k x hx, fun _ => hne⟩
  pendingOK k x s p hx hs := hw.pendingOK k x s p (of_lookup_erase hx).2 hs

theorem shrinks_unindexBinding (id : BindingId) : cat.Shrinks (cat.unindexBinding id b) where
  binding k x hx := (of_lookup_erase hx).2
  named conn sub k hk := by
    change (eraseIfPointsAt cat.byConnSubscription (b.connectionId, b.externalSubId) id).lookup (conn, sub) =
      some k at hk
    unfold eraseIfPointsAt at hk
    split at hk
    · exact (of_lookup_erase hk).2
    · exact hk
  nextBindingId := rfl

theorem held_indexBinding (hfree : cat.binding b.bindingId = none) : (cat.indexBinding b).held = b.held + cat.held := by
  have h := total_insert Binding.held cat.bindings b.bindingId b
  rwa [share_of_none hfree, add_zero] at h

theorem binding_indexBinding (k : BindingId) :
    (cat.indexBinding b).binding k = if k = b.bindingId then some b else cat.binding k :=
  lookup_insert_eq cat.bindings b.bindingId k b

theorem wf_indexBinding (hw : cat.WF) (hfree : cat.binding b.bindingId = none)
    (hp : ∀ s p, b.pending.lookup s = some p → p.seq = s) : (cat.indexBinding b).WF where
  idOK := forall_insert rfl hw.idOK
  byConsumerOK c k hk := by
    rw [binding_indexBinding]
    rcases mem_pushIndex.1 hk with hk | ⟨rfl, rfl, rfl, rfl, rfl⟩
    · obtain ⟨x, hx, hxc⟩ := hw.byConsumerOK c k hk
      -- a listed binding is live, so it is not the one being added
      have hne : k ≠ b.bindingId := by
        rintro rfl
        rw [hfree] at hx; cases hx
      exact ⟨x, by rw [if_neg hne]; exact hx, hxc⟩
    · exact ⟨b, by simp, rfl⟩
  byConsumerAll k x hx := by
    rcases of_lookup_insert hx with ⟨h, rfl⟩ | ⟨-, hx⟩
    · exact mem_pushIndex.2 (.inr ⟨rfl, h⟩)
    · exact mem_pushIndex.2 (.inl (hw.byConsumerAll k x hx))
  pendingOK k x s p hx hs := by
    rcases of_lookup_insert hx with ⟨-, rfl⟩ | ⟨-, hx⟩
    · exact hp s p hs
    · exact hw.pendingOK k x s p hx hs

end Catalog

/-! ## Inflight counters -/

/-- The counter a held delivery is charged to in each scope. -/
def Held.key (h : Held) : InFlightScope → ℕ
  | .consumer => h.consumerId
  | .queue => h.queueId

/-- The row an unsettled delivery leaves in `subject_hashes_acked` when its
binding is retired. -/
def Held.row (h : Held) : ConsumerId × SubjectHash × ℕ :=
  (h.consumerId, h.pending.subjectHash, h.pending.seq)

/-- The credit `inflight_released` reports for a consumer. -/
def DeltaEvents.credit (ev : DeltaEvents) (c : ConsumerId) : ℕ :=
  ((ev.inflightReleased.filter (·.1 == c)).map (·.2.2)).sum

namespace InFlightCounters

variable (inf : InFlightCounters) (scope : InFlightScope) (k : ℕ)

theorem get_incPending (h : Held) : (inf.incPending h.consumerId h.queueId).get scope k =
      inf.get scope k + if h.key scope = k then 1 else 0 := by
  cases scope <;> simp only [get, incPending, Held.key] <;>
    rw [Dense.get_update 0 (by decide)] <;> split <;> simp_all [eq_comm]

theorem get_decPending (h : Held) : (inf.decPending h.consumerId h.queueId).get scope k =
      inf.get scope k - if h.key scope = k then 1 else 0 := by
  cases scope <;> simp only [get, decPending, Held.key] <;>
    rw [Dense.get_modify 0 _ _ (.inl rfl)] <;> split <;> simp_all [eq_comm]

theorem get_release {b : Binding} {scope : InFlightScope} {k : ℕ} (ps : List Pending) (inf : InFlightCounters) :
      (ps.foldl (fun inf _ => inf.decPending b.consumerId b.queueId) inf).get scope k =
        inf.get scope k - (ps.map b.hold).countP (·.key scope = k) := by
  induction ps generalizing inf with
  | nil => simp
  | cons p ps ih =>
    have h : (inf.decPending b.consumerId b.queueId).get scope k =
        inf.get scope k - if (b.hold p).key scope = k then 1 else 0 :=
      inf.get_decPending scope k (b.hold p)
    rw [foldl_cons, ih, h, map_cons, countP_cons]
    by_cases hk : (b.hold p).key scope = k
    · simp [hk]; omega
    · simp [hk]

end InFlightCounters

/-! ## Retirement -/

/-- **The deliveries `gone` left the engine and were reported as released**: they
are what the held multiset lost, their credit is off the counters, and the
events gained one row, one seq and one unit of credit for each. -/
structure Released (ctx : Engine) (ev : DeltaEvents) (ctx' : Engine) (ev' : DeltaEvents)
    (gone : List Held) : Prop where
  held : ctx'.catalog.held + (gone : Multiset Held) = ctx.catalog.held
  wf : ctx'.catalog.WF
  shrinks : ctx.catalog.Shrinks ctx'.catalog
  inflight : ∀ scope k,
    ctx'.inflight.get scope k = ctx.inflight.get scope k - gone.countP (·.key scope = k)
  rows : ev'.subjectHashesAcked = ev.subjectHashesAcked ++ gone.map Held.row
  seqs : ev'.pendingSeqsReleased = ev.pendingSeqsReleased ++ gone.map (·.pending.seq)
  credit : ∀ c, ev'.credit c = ev.credit c + gone.countP (·.consumerId = c)

theorem Released.refl {ctx : Engine} (hw : ctx.catalog.WF) (ev : DeltaEvents) : Released ctx ev ctx ev [] :=
  ⟨by simp, hw, (SameBindings.refl _).shrinks, by simp, by simp, by simp, by simp⟩

section Released

variable {g : List Held} {a b c : Engine} {ea eb : DeltaEvents}

theorem Released.trans {ec : DeltaEvents} {g' : List Held}
    (h : Released a ea b eb g) (h' : Released b eb c ec g') : Released a ea c ec (g ++ g') where
  held := by
    rw [← h.held, ← h'.held, ← Multiset.coe_add, add_assoc, add_comm (g : Multiset Held)]
  wf := h'.wf
  shrinks := h.shrinks.trans h'.shrinks
  inflight scope k := by
    rw [h'.inflight, h.inflight, countP_append]; omega
  rows := by rw [h'.rows, h.rows]; simp
  seqs := by rw [h'.seqs, h.seqs]; simp
  credit k := by rw [h'.credit, h.credit, countP_append]; omega

theorem Released.same
    (h : Released a ea b eb g) (hs : b.catalog.SameBindings c.catalog) (hi : c.inflight = b.inflight) :
    Released a ea c eb g :=
  ⟨by rw [hs.held]; exact h.held, hs.wf h.wf, h.shrinks.trans hs.shrinks, by rw [hi]; exact h.inflight,
    h.rows, h.seqs, h.credit⟩

theorem Released.withRemoved (h : Released a ea b eb g) (ids : List ConsumerId) :
    Released a ea b { eb with consumersRemoved := ids } g :=
  ⟨h.held, h.wf, h.shrinks, h.inflight, h.rows, h.seqs, h.credit⟩

end Released

namespace Catalog

variable {cat : Catalog} {id : BindingId}

theorem decDemand_events {id : StreamId} {ev : DeltaEvents} :
    (cat.decDemand id ev).2.subjectHashesAcked = ev.subjectHashesAcked ∧
      (cat.decDemand id ev).2.pendingSeqsReleased = ev.pendingSeqsReleased ∧
      (cat.decDemand id ev).2.inflightReleased = ev.inflightReleased ∧
      (cat.decDemand id ev).2.consumersRemoved = ev.consumersRemoved ∧
      (cat.decDemand id ev).2.bindingsRetired = ev.bindingsRetired := by
  unfold decDemand
  split
  · simp
  · split <;> simp

/-- **Catalog retirement removes the binding and reports only its id.** The
pendings go to the caller. -/
theorem retireBinding_some {b : Binding} (hb : cat.binding id = some b)
    (ev : DeltaEvents) : ∃ cat' ev', cat.retireBinding id ev = (cat', ev', some b) ∧
      SameBindings (cat.unindexBinding id b) cat' ∧ ev'.subjectHashesAcked = ev.subjectHashesAcked ∧
      ev'.pendingSeqsReleased = ev.pendingSeqsReleased ∧ ev'.inflightReleased = ev.inflightReleased ∧
      ev'.consumersRemoved = ev.consumersRemoved ∧ ev'.bindingsRetired = ev.bindingsRetired ++ [id] := by
  let cat₁ := (cat.unindexBinding id b).modifyMatchTable b.streamId fun mt =>
    mt.unbindSubscription b.subscriptionId
  have hs : SameBindings (cat.unindexBinding id b) (cat₁.decDemand b.streamId ev).1 :=
    (same_modifyMatchTable _ _).trans (same_decDemand _)
  obtain ⟨h1, h2, h3, h4, h5⟩ := cat₁.decDemand_events
  let ev₁ := (cat₁.decDemand b.streamId ev).2
  refine ⟨_, { ev₁ with bindingsRetired := ev₁.bindingsRetired ++ [id] }, ?_, hs, h1, h2, h3, h4,
    congrArg (· ++ [id]) h5⟩
  simp only [retireBinding, hb, cat₁, ev₁]

theorem retireBinding_none (hb : cat.binding id = none) (ev : DeltaEvents) :
    cat.retireBinding id ev = (cat, ev, none) := by
  simp [retireBinding, hb]

end Catalog

namespace Engine

variable {ctx : Engine} {c : ConsumerId} {a : AckEntry} {id : BindingId} {r : Engine × DeltaEvents} {x y : Engine}
  {conn : ConnectionId} {ids : List BindingId} {ev : DeltaEvents} {s : Engine × DeltaEvents}

theorem credit_append (ev : DeltaEvents) (b : Binding) (ps : List Pending) (c : ConsumerId)
    (rows : List (ConsumerId × QueueId × ℕ)) (hrows : rows = if 0 < ps.length
      then ev.inflightReleased ++ [(b.consumerId, b.queueId, ps.length)] else ev.inflightReleased) :
    ((rows.filter (·.1 == c)).map (·.2.2)).sum = ev.credit c + (ps.map b.hold).countP (·.consumerId = c) := by
  have hcount : (ps.map b.hold).countP (·.consumerId = c) = if b.consumerId = c then ps.length else 0 := by
    rw [countP_map]
    split
    · next h => rw [countP_eq_length]; intro p _; simp [hold, h]
    · next h => rw [countP_eq_zero]; intro p _; simp [hold, h]
  rw [hcount, hrows]
  unfold DeltaEvents.credit
  by_cases hp : 0 < ps.length
  · by_cases hc : b.consumerId = c <;> simp [hp, hc]
  · have : ps.length = 0 := by omega
    simp [this]

/-- **Retiring a binding releases exactly what it held.** -/
theorem retireBinding_released (hw : ctx.catalog.WF) :
    ∃ gone, Released ctx ev (ctx.retireBinding id ev).1 (ctx.retireBinding id ev).2 gone := by
  cases hb : ctx.catalog.binding id with
  | none =>
    refine ⟨[], ?_⟩
    simp only [retireBinding, retireBinding_none hb]
    exact .refl hw ev
  | some b =>
    obtain ⟨cat', ev', heq, hs, h1, h2, h3, -⟩ := retireBinding_some hb ev
    refine ⟨b.pending.values.map b.hold, ?_⟩
    simp only [retireBinding, heq]
    refine ⟨?_, ?_, ?_, ?_, ?_, ?_, ?_⟩
    · show cat'.held + _ = _
      rw [hs.held, ← b.held_eq]
      exact held_unindexBinding hb
    · exact hs.wf (wf_unindexBinding hw hb)
    · exact (shrinks_unindexBinding id).trans hs.shrinks
    · intro scope k
      exact InFlightCounters.get_release _ _
    · simp only [h1, map_map]; rfl
    · simp only [h2, map_map]; rfl
    · intro c
      have h := credit_append ev b b.pending.values c _ rfl
      rw [← h]
      simp only [DeltaEvents.credit, h3]

theorem retireBindings_released {ctx : Engine} (hw : ctx.catalog.WF) :
    ∀ ev, ∃ gone, Released ctx ev (ctx.retireBindings ids ev).1 (ctx.retireBindings ids ev).2 gone := by
  induction ids generalizing ctx with
  | nil => intro ev; exact ⟨[], .refl hw ev⟩
  | cons id ids ih =>
    intro ev
    obtain ⟨g, hg⟩ := retireBinding_released hw
    obtain ⟨g', hg'⟩ := ih hg.wf (ctx.retireBinding id ev).2
    exact ⟨g ++ g', hg.trans hg'⟩

theorem same_withCatalog (ctx : Engine) {r : EngineResult Catalog}
    (h : ∀ cat', r = .ok cat' → ctx.catalog.EntitiesOnly cat') :
    ctx.catalog.SameBindings (ctx.withCatalog r).catalog ∧ (ctx.withCatalog r).inflight = ctx.inflight := by
  unfold withCatalog
  split
  · exact ⟨(h _ rfl).same, rfl⟩
  · exact ⟨.refl _, rfl⟩

theorem same_removeConsumerEntities (ctx : Engine) (id : ConsumerId) :
    ctx.catalog.SameBindings (ctx.removeConsumerEntities id).catalog ∧
      (ctx.removeConsumerEntities id).inflight = ctx.inflight := by
  obtain ⟨h1, h2⟩ := foldlRecOn (motive := fun c : Engine =>
      ctx.catalog.SameBindings c.catalog ∧ c.inflight = ctx.inflight) (ctx.catalog.subscriptionsForConsumer id)
    (fun c sid => c.withCatalog (c.catalog.removeSubscriptionEntity sid)) ⟨.refl _, rfl⟩ fun c ⟨h1, h2⟩ sid _ => by
      obtain ⟨h3, h4⟩ := same_withCatalog c (r := removeSubscriptionEntity _ sid) fun _ => removeSubscriptionEntity_entities
      exact ⟨h1.trans h3, h4.trans h2⟩
  obtain ⟨h3, h4⟩ := same_withCatalog _ (r := removeConsumerEntity _ id) fun _ => removeConsumerEntity_entities
  exact ⟨h1.trans h3, h4.trans h2⟩

theorem unsubscribe_released (hw : ctx.catalog.WF) :
    ∃ gone, Released ctx {} (ctx.unsubscribe id).1 (ctx.unsubscribe id).2 gone :=
  retireBinding_released hw

theorem markConnectionDead_released (hw : ctx.catalog.WF) (conn : ConnectionId) :
    ∃ gone, Released ctx {} (ctx.markConnectionDead conn).1 (ctx.markConnectionDead conn).2 gone := by
  obtain ⟨g, hg⟩ := retireBindings_released hw {}
  exact ⟨g, hg.same ⟨rfl, rfl, rfl, rfl, rfl⟩ rfl⟩

theorem deleteConsumer_released (hw : ctx.catalog.WF) (id : ConsumerId) :
    ∃ gone, Released ctx {} (ctx.deleteConsumer id).1 (ctx.deleteConsumer id).2 gone := by
  obtain ⟨g, hg⟩ := retireBindings_released hw {}
  obtain ⟨hs, hi⟩ := same_removeConsumerEntities (ctx.retireBindingsForConsumer id {}).1 id
  have h := hg.same hs hi
  refine ⟨g, ?_⟩
  unfold deleteConsumer
  simp only
  split
  · exact h.withRemoved _
  · exact h

theorem cascadeConsumers_released {ids : List ConsumerId} (hw : s.1.catalog.WF) :
    ∃ gone, Released s.1 s.2 (ids.foldl cascadeConsumer s).1 (ids.foldl cascadeConsumer s).2 gone := by
  refine foldlRecOn (motive := fun r : Engine × DeltaEvents => ∃ gone, Released s.1 s.2 r.1 r.2 gone) ids
    cascadeConsumer ⟨[], .refl hw s.2⟩ fun r ⟨g, hg⟩ id _ => ?_
  obtain ⟨g', hg'⟩ := retireBindings_released hg.wf r.2
  obtain ⟨hs, hi⟩ := same_removeConsumerEntities (r.1.retireBindingsForConsumer id r.2).1 id
  exact ⟨g ++ g', hg.trans (hg'.same hs hi)⟩

theorem deleteStream_released (hw : ctx.catalog.WF) (id : StreamId) :
    ∃ gone, Released ctx {} (ctx.deleteStream id).1 (ctx.deleteStream id).2 gone := by
  obtain ⟨g, hg⟩ := cascadeConsumers_released (s := (ctx, {})) hw
  have hg := hg.withRemoved
    (((ctx.catalog.consumersForStream id).foldl cascadeConsumer (ctx, {})).2.consumersRemoved ++
      ctx.catalog.consumersForStream id)
  obtain ⟨g', hg'⟩ := retireBindings_released hg.wf _
  obtain ⟨hs, hi⟩ := same_withCatalog _ (r := removeStreamEntity _ id) fun _ => removeStreamEntity_entities
  exact ⟨g ++ g', (hg.trans hg').same hs hi⟩

/-! ## Acks and nacks -/

theorem takePending_some (h : ctx.takePending c ev a id = some r) :
    ∃ b p, ctx.catalog.binding id = some b ∧ b.streamId = a.streamId ∧ b.pending.lookup a.seq = some p ∧
      r.1.catalog = ctx.catalog.setBinding id { b with pending := b.pending.erase a.seq } ∧
      r.1.inflight = ctx.inflight.decPending c b.queueId ∧
      r.2 = { ev with subjectHashesAcked := ev.subjectHashesAcked ++ [(c, p.subjectHash, p.seq)] } := by
  unfold takePending at h
  split at h
  · cases h
  next b hb =>
  split at h
  · next hs =>
    split at h
    · cases h
    · next p hp => cases h; exact ⟨b, p, hb, hs, hp, rfl, rfl, rfl⟩
  · cases h

theorem settleEntry_cases (conn : ConnectionId) (c : ConsumerId) (ids : List BindingId)
    (s : Engine × DeltaEvents) (a : AckEntry) :
    (settleEntry conn c ids s a = s ∧ ∀ id ∈ s.1.candidates conn ids a, s.1.takePending c s.2 a id = none) ∨
      ∃ id ∈ s.1.candidates conn ids a, s.1.takePending c s.2 a id = some (settleEntry conn c ids s a) := by
  unfold settleEntry
  cases h : (s.1.candidates conn ids a).findSome? (s.1.takePending c s.2 a) with
  | none => exact .inl ⟨rfl, findSome?_eq_none_iff.1 h⟩
  | some r =>
    obtain ⟨id, hid, hr⟩ := exists_of_findSome?_eq_some h
    exact .inr ⟨id, hid, by simpa using hr⟩

/-- **The deliveries `gone` of consumer `c` were settled**: they left the held
multiset and the counters, and the events gained one row for each and nothing
else. No binding changed but for its pendings. -/
structure Settled (c : ConsumerId) (ctx : Engine) (ev : DeltaEvents) (ctx' : Engine) (ev' : DeltaEvents)
    (gone : List Held) : Prop where
  held : ctx'.catalog.held + (gone : Multiset Held) = ctx.catalog.held
  wf : ctx'.catalog.WF
  owner : ∀ h ∈ gone, h.consumerId = c
  inflight : ∀ scope k,
    ctx'.inflight.get scope k = ctx.inflight.get scope k - gone.countP (·.key scope = k)
  events : ev' = { ev with subjectHashesAcked := ev.subjectHashesAcked ++ gone.map Held.row }
  frame : ∀ k, (ctx'.catalog.binding k).map frame = (ctx.catalog.binding k).map frame
  rest : ctx'.catalog = { ctx.catalog with bindings := ctx'.catalog.bindings }

theorem Settled.refl (c : ConsumerId) (hw : ctx.catalog.WF) (ev : DeltaEvents) : Settled c ctx ev ctx ev [] :=
  ⟨by simp, hw, by simp, by simp, by simp, fun _ => rfl, rfl⟩

theorem Settled.trans {z : Engine} {ex ey ez : DeltaEvents} {g g' : List Held}
    (h : Settled c x ex y ey g) (h' : Settled c y ey z ez g') : Settled c x ex z ez (g ++ g') where
  held := by rw [← h.held, ← h'.held, ← Multiset.coe_add, add_assoc, add_comm (g : Multiset Held)]
  wf := h'.wf
  owner t ht := (mem_append.1 ht).elim (h.owner t) (h'.owner t)
  inflight scope k := by rw [h'.inflight, h.inflight, countP_append]; omega
  events := by rw [h'.events, h.events]; simp
  frame k := (h'.frame k).trans (h.frame k)
  rest := by rw [h'.rest, h.rest]

theorem frame_setBinding {cat : Catalog} {b b' : Binding} (hb : cat.binding id = some b)
    (hf : b'.frame = b.frame) (k : BindingId) :
    ((cat.setBinding id b').binding k).map frame = (cat.binding k).map frame := by
  rw [binding_setBinding]
  split
  · next h => subst h; rw [hb]; exact congrArg some hf
  · rfl

/-- Taking a pending settles one delivery, provided the binding is the consumer's. -/
theorem takePending_settled (hw : ctx.catalog.WF) (h : ctx.takePending c ev a id = some r)
    (hown : ∀ b, ctx.catalog.binding id = some b → b.consumerId = c) :
    ∃ t, t.pending.seq = a.seq ∧ t.bindingId = id ∧ Settled c ctx ev r.1 r.2 [t] := by
  obtain ⟨b, p, hb, -, hp, hcat, hinf, hev⟩ := takePending_some h
  have hc := hown b hb
  let b' : Binding := { b with pending := b.pending.erase a.seq }
  have hcat' : r.1.catalog = ctx.catalog.setBinding id b' := hcat
  have herase : b'.held + {b.hold p} = b.held := by
    have h := total_erase (fun p => ({b.hold p} : Multiset Held)) b.pending a.seq
    rwa [share_of_lookup hp] at h
  refine ⟨b.hold p, hw.pendingOK _ _ _ _ hb hp, hw.idOK _ _ hb, ?_, ?_, ?_, ?_, ?_, ?_, ?_⟩
  · have hset := held_setBinding hb b'
    rw [← herase, ← add_assoc, add_right_comm, add_comm b'.held] at hset
    rw [hcat']
    exact add_right_cancel hset
  · rw [hcat']
    refine wf_setBinding hw hb rfl rfl ?_
    exact fun s q hq => hw.pendingOK _ _ _ _ hb (of_lookup_erase hq).2
  · intro t ht
    rw [mem_singleton.1 ht]; exact hc
  · intro scope k
    have hdec := ctx.inflight.get_decPending scope k (b.hold p)
    have hsame : ctx.inflight.decPending (b.hold p).consumerId (b.hold p).queueId = r.1.inflight := by
      rw [hinf, ← hc]; rfl
    rw [hsame] at hdec
    rw [hdec]
    by_cases hk : (b.hold p).key scope = k <;> simp [hk]
  · rw [hev, ← hc]; rfl
  · intro k
    rw [hcat']
    exact frame_setBinding hb (show b'.frame = b.frame from rfl) k
  · rw [hcat']; rfl

/-- Every binding a named entry resolves to belongs to the consumer. -/
def NamedOwned (ctx : Engine) (conn : ConnectionId) (c : ConsumerId) (a : AckEntry) : Prop :=
  a.subId ≠ 0 → ∀ b ∈ ctx.catalog.bindingForSubscription conn a.subId, b.consumerId = c

theorem frame_binding {x y : Catalog} {k : BindingId} {b : Binding}
    (h : (y.binding k).map frame = (x.binding k).map frame) (hb : y.binding k = some b) :
    ∃ b₀, x.binding k = some b₀ ∧ b₀.consumerId = b.consumerId ∧ b₀.streamId = b.streamId := by
  rw [hb] at h
  obtain ⟨b₀, hb₀, hf⟩ := Option.map_eq_some_iff.1 h.symm
  exact ⟨b₀, hb₀, congrArg (·.consumerId) hf, congrArg (·.streamId) hf⟩

theorem NamedOwned.frame (ho : x.NamedOwned conn c a)
    (hframe : ∀ k, (y.catalog.binding k).map frame = (x.catalog.binding k).map frame)
    (hrest : y.catalog = { x.catalog with bindings := y.catalog.bindings }) : y.NamedOwned conn c a := by
  intro hne b hb
  have hidx : y.catalog.byConnSubscription = x.catalog.byConnSubscription := by rw [hrest]
  unfold bindingForSubscription bindingIdForSubscription at hb
  rw [hidx] at hb
  obtain ⟨id, hid, hbid⟩ := Option.bind_eq_some_iff.1 hb
  obtain ⟨b₀, hb₀, hc, -⟩ := frame_binding (hframe id) hbid
  have h₀ := ho hne b₀ (by
    unfold bindingForSubscription bindingIdForSubscription
    rw [hid]; exact hb₀)
  exact hc.symm.trans h₀

theorem NamedOwned.shrinks (ho : x.NamedOwned conn c a) (h : x.catalog.Shrinks y.catalog) : y.NamedOwned conn c a := by
  intro hne b hb
  obtain ⟨id, hid, hbid⟩ := Option.bind_eq_some_iff.1 hb
  refine ho hne b ?_
  unfold bindingForSubscription
  rw [h.named _ _ _ hid]
  exact h.binding id b hbid

/-- The bindings an entry is tried on belong to the consumer. -/
def CandidatesOwned (ctx : Engine) (conn : ConnectionId) (c : ConsumerId) (ids : List BindingId)
    (a : AckEntry) : Prop :=
  ∀ id ∈ ctx.candidates conn ids a, ∀ b, ctx.catalog.binding id = some b → b.consumerId = c

theorem candidatesOwned (hids : ∀ id ∈ ids, ∀ b, ctx.catalog.binding id = some b → b.consumerId = c)
    (hn : ctx.NamedOwned conn c a) : ctx.CandidatesOwned conn c ids a := by
  intro id hid b hb
  unfold candidates at hid
  split at hid
  · exact hids id hid b hb
  next hne =>
  refine hn hne b ?_
  unfold bindingForSubscription
  rw [Option.mem_toList.1 hid]
  exact hb

theorem settleEntries_settled (es : List AckEntry) (hw : s.1.catalog.WF)
    (hids : ∀ id ∈ ids, ∀ b, s.1.catalog.binding id = some b → b.consumerId = c)
    (hn : ∀ a ∈ es, s.1.NamedOwned conn c a) : ∃ gone, Settled c s.1 s.2 (es.foldl (settleEntry conn c ids) s).1
    (es.foldl (settleEntry conn c ids) s).2 gone ∧ ∀ t ∈ gone, ∃ a ∈ es, t.pending.seq = a.seq := by
  induction es generalizing s with
  | nil => exact ⟨[], .refl c hw s.2, by simp⟩
  | cons a es ih =>
    have hstep : ∃ g, Settled c s.1 s.2 (settleEntry conn c ids s a).1 (settleEntry conn c ids s a).2 g ∧
        ∀ t ∈ g, t.pending.seq = a.seq := by
      rcases settleEntry_cases conn c ids s a with ⟨h, -⟩ | ⟨id, hid, h⟩
      · rw [h]; exact ⟨[], .refl c hw s.2, by simp⟩
      · obtain ⟨t, hseq, -, ht⟩ := takePending_settled hw h
          (candidatesOwned hids (hn a mem_cons_self) id hid)
        exact ⟨[t], ht, by simpa using hseq⟩
    obtain ⟨g, hg, hgseq⟩ := hstep
    obtain ⟨g', hg', hgseq'⟩ := ih hg.wf
      (by
        intro id hid b hb
        obtain ⟨b₀, hb₀, hc, -⟩ := frame_binding (hg.frame id) hb
        exact hc.symm.trans (hids id hid b₀ hb₀))
      (fun x hx => (hn x (mem_cons_of_mem _ hx)).frame hg.frame hg.rest)
    refine ⟨g ++ g', hg.trans hg', fun t ht => ?_⟩
    rcases mem_append.1 ht with ht | ht
    · exact ⟨a, mem_cons_self, hgseq t ht⟩
    · obtain ⟨x, hx, hxs⟩ := hgseq' t ht
      exact ⟨x, mem_cons_of_mem _ hx, hxs⟩

/-- **An ack or nack settles deliveries of its own consumer**, as long as every
named entry that resolves does so to one of the consumer's bindings. -/
theorem settle_settled (hw : ctx.catalog.WF) {es : List AckEntry} (hn : ∀ a ∈ es, ctx.NamedOwned conn c a) :
    ∃ gone, Settled c ctx {} (ctx.settle conn c es).1 (ctx.settle conn c es).2 gone ∧
      ∀ t ∈ gone, ∃ a ∈ es, t.pending.seq = a.seq := by
  exact settleEntries_settled es (s := (ctx, {})) hw (fun _ => hw.owner) hn

/-- **An unnamed entry settles one delivery of its seq if the consumer has one on
the stream**, and nothing otherwise. -/
theorem settle_unnamed (hw : ctx.catalog.WF) (ha : a.subId = 0) :
    (ctx.settle conn c [a] = (ctx, {}) ∧ ∀ id ∈ ctx.catalog.bindingsForConsumer c, ctx.takePending c {} a id = none) ∨
      ∃ t, t.pending.seq = a.seq ∧ Settled c ctx {} (ctx.settle conn c [a]).1 (ctx.settle conn c [a]).2 [t] := by
  have hcand : ctx.candidates conn (ctx.catalog.bindingsForConsumer c) a =
      ctx.catalog.bindingsForConsumer c := by
    unfold candidates; rw [if_pos ha]
  rcases settleEntry_cases conn c (ctx.catalog.bindingsForConsumer c) (ctx, {}) a with ⟨h, hnone⟩ | ⟨id, hid, h⟩
  · rw [hcand] at hnone
    exact .inl ⟨h, hnone⟩
  rw [hcand] at hid
  obtain ⟨t, hseq, -, ht⟩ := takePending_settled hw h (hw.owner hid)
  exact .inr ⟨t, hseq, ht⟩

/-! ## Deliveries -/

/-- **The deliveries `fresh` were recorded**: they joined the held multiset and
the counters, and no binding changed but for its pendings. -/
structure Recorded (ctx ctx' : Engine) (fresh : List Held) : Prop where
  held : ctx'.catalog.held = (fresh : Multiset Held) + ctx.catalog.held
  wf : ctx'.catalog.WF
  inflight : ∀ scope k,
    ctx'.inflight.get scope k = ctx.inflight.get scope k + fresh.countP (·.key scope = k)
  frame : ∀ k, (ctx'.catalog.binding k).map frame = (ctx.catalog.binding k).map frame
  rest : ctx'.catalog = { ctx.catalog with bindings := ctx'.catalog.bindings }

/-- The pending a delivered entry becomes. -/
def pendingOf (e : DeliveredEntry) : Pending := ⟨e.seq, e.subjectHash, 1⟩

/-- The entries of a `Delivered` command that are not pending already. -/
def freshEntries : Map ℕ Pending → List DeliveredEntry → List DeliveredEntry
  | _, [] => []
  | m, e :: es =>
    if (m.lookup e.seq).isSome then freshEntries m es
    else e :: freshEntries (m.insert e.seq (pendingOf e)) es

theorem recordDelivered_fold (b : Binding) (es : List DeliveredEntry) :
    ∀ (m : Map ℕ Pending) (inf : InFlightCounters), (∀ s p, m.lookup s = some p → p.seq = s) →
      let r := es.foldl (recordDelivered b.consumerId b.queueId) (m, inf)
      let fresh := (freshEntries m es).map fun e => b.hold (pendingOf e)
      (r.1.total fun p => ({b.hold p} : Multiset Held)) =
          (fresh : Multiset Held) + m.total (fun p => ({b.hold p} : Multiset Held)) ∧
        (∀ s p, r.1.lookup s = some p → p.seq = s) ∧
        ∀ scope k, r.2.get scope k = inf.get scope k + fresh.countP (·.key scope = k) := by
  induction es with
  | nil => intro m inf hm; exact ⟨by simp [freshEntries], hm, by simp [freshEntries]⟩
  | cons e es ih =>
    intro m inf hm
    by_cases hdup : (m.lookup e.seq).isSome
    · simp only [foldl_cons, recordDelivered, freshEntries, hdup, if_true]
      exact ih m inf hm
    have hnone : m.lookup e.seq = none := by simpa using hdup
    simp only [foldl_cons, recordDelivered, freshEntries, hnone]
    obtain ⟨h1, h2, h3⟩ := ih (m.insert e.seq (pendingOf e)) (inf.incPending b.consumerId b.queueId)
      (forall_insert rfl hm)
    have hins := total_insert (fun p => ({b.hold p} : Multiset Held)) m e.seq (pendingOf e)
    rw [share_of_none hnone, add_zero] at hins
    refine ⟨?_, h2, ?_⟩
    · refine h1.trans ?_
      rw [hins, ← add_assoc]
      congr 1
      simp [add_comm]
    intro scope k
    have hinc : (inf.incPending b.consumerId b.queueId).get scope k =
        inf.get scope k + if (b.hold (pendingOf e)).key scope = k then 1 else 0 :=
      inf.get_incPending scope k (b.hold (pendingOf e))
    refine (h3 scope k).trans ?_
    rw [hinc]
    by_cases hk : (b.hold (pendingOf e)).key scope = k
    · simp [hk]; omega
    · simp [hk]

/-- The deliveries a `Delivered` command records. -/
def freshHeld (ctx : Engine) (id : BindingId) (es : List DeliveredEntry) : List Held :=
  match ctx.catalog.binding id with
  | none => []
  | some b => if b.fireAndForget then [] else (freshEntries b.pending es).map fun e => b.hold (pendingOf e)

/-- **`Delivered` records exactly the entries that were not pending**, on a binding
that is live and not fire-and-forget. -/
theorem applyDelivered_recorded (hw : ctx.catalog.WF) (es : List DeliveredEntry) :
    Recorded ctx (ctx.applyDelivered id es) (ctx.freshHeld id es) := by
  have hrefl : Recorded ctx ctx [] := ⟨by simp, hw, by simp, fun _ => rfl, rfl⟩
  unfold applyDelivered freshHeld
  cases hb : ctx.catalog.binding id with
  | none => exact hrefl
  | some b =>
    simp only
    by_cases hf : b.fireAndForget
    · rw [if_pos hf, if_pos hf]; exact hrefl
    obtain ⟨h1, h2, h3⟩ := recordDelivered_fold b es b.pending ctx.inflight
      (fun s p hp => hw.pendingOK _ _ _ _ hb hp)
    rw [if_neg hf, if_neg hf]
    set r := es.foldl (recordDelivered b.consumerId b.queueId) (b.pending, ctx.inflight) with hr
    let b' : Binding := { b with pending := r.1 }
    refine ⟨?_, ?_, h3, ?_, rfl⟩
    · have hset := held_setBinding hb b'
      have hb' : b'.held = (((freshEntries b.pending es).map fun e => b.hold (pendingOf e) : List Held) :
          Multiset Held) + b.held := h1
      rw [hb', add_right_comm] at hset
      exact add_right_cancel hset
    · exact wf_setBinding hw hb rfl rfl h2
    · intro k
      exact frame_setBinding hb (show b'.frame = b.frame from rfl) k

end Engine

end Arbitro
