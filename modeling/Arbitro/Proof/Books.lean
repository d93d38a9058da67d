import Arbitro.Lib.Run
import Arbitro.Proof.Held

/-!
# The inflight counters and the pendings

The engine keeps, next to the pendings of its bindings, one counter per consumer
and per queue. They agree as long as nobody takes over a binding that still holds
deliveries: `Catalog::subscribe` retires the previous binding of its subscription
in the catalog only and drops its pendings without returning their credit.

* `inflight_eq_pendings`: along every run whose steps are `Sound` the counters
  are the numbers of pendings.
* `resubscribe_leaks_inflight`: a run that re-subscribes with one message pending
  leaves the counter at one and no pending.
-/

namespace Arbitro

open Catalog Multiset Option

/-- The counter a binding charges in each scope. -/
def Binding.key (b : Binding) : InFlightScope → ℕ
  | .consumer => b.consumerId
  | .queue => b.queueId

/-- The number of pendings held by the live bindings of a consumer or a queue. -/
def Catalog.pendingsOf (cat : Catalog) (scope : InFlightScope) (k : ℕ) : ℕ :=
  cat.bindings.total fun b => if b.key scope = k then b.pending.values.length else 0

theorem Binding.countP_held (b : Binding) (scope : InFlightScope) (k : ℕ) :
    b.held.countP (·.key scope = k) = if b.key scope = k then b.pending.values.length else 0 := by
  rw [b.held_eq, coe_countP, List.countP_map]
  have hkey : ∀ p, (b.hold p).key scope = b.key scope := by intro p; cases scope <;> rfl
  split
  · next h => rw [List.countP_eq_length]; intro p _; simp [hkey, h]
  · next h => rw [List.countP_eq_zero]; intro p _; simp [hkey, h]

theorem Catalog.countP_held (cat : Catalog) (scope : InFlightScope) (k : ℕ) :
    cat.held.countP (·.key scope = k) = cat.pendingsOf scope k := by
  unfold held pendingsOf Map.total
  induction cat.bindings.values with
  | nil => rfl
  | cons b bs ih => simp [countP_add, b.countP_held, ih]

/-- The deliveries held by the binding that a `subscribe` on `sid` takes over. -/
def Catalog.displaced (cat : Catalog) (sid : SubscriptionId) : Multiset Held :=
  match (cat.bySubscription.lookup sid).bind cat.binding with
  | none => 0
  | some b => b.held

namespace Engine

variable {ctx : Engine} {wh : WireHash} {ctx' : Engine} {ev ev' : DeltaEvents} {g : List Held}

/-- **The condition under which a step keeps the books.** A `subscribe` must not
take over a binding with pendings, nor draw a binding id that is still in use
(the counter wraps); a named ack or nack entry must resolve to a binding of the
consumer the command names, which the server checks before it executes one. -/
def Sound (ctx : Engine) : Op → Prop
  | .subscribe _ sid =>
    ctx.catalog.displaced sid = 0 ∧ (ctx.catalog.binding ctx.catalog.nextBindingId).isNone
  | .execute (.ack conn c es) => ∀ a ∈ es, ctx.NamedOwned conn c a
  | .execute (.nack conn c es) => ∀ a ∈ es, ctx.NamedOwned conn c a
  | _ => True

/-- The books of the engine are in order. -/
structure Balanced (ctx : Engine) : Prop where
  wf : ctx.catalog.WF
  inflight : ∀ scope k, ctx.inflight.get scope k = ctx.catalog.held.countP (·.key scope = k)

theorem balanced_new : Balanced .new where
  wf :=
    { idOK := by intro k b h; cases h
      byConsumerOK := by intro c k h; simp [new, bindingsForConsumer] at h
      byConsumerAll := by intro k b h; cases h
      pendingOK := by intro k b s p h; cases h }
  inflight scope k := by cases scope <;> rfl

theorem Balanced.released (hb : ctx.Balanced) (h : Released ctx ev ctx' ev' g) : ctx'.Balanced where
  wf := h.wf
  inflight scope k := by
    rw [h.inflight, hb.inflight, ← h.held, countP_add, coe_countP]
    omega

theorem Balanced.settled {c : ConsumerId} (hb : ctx.Balanced) (h : Settled c ctx ev ctx' ev' g) : ctx'.Balanced where
  wf := h.wf
  inflight scope k := by
    rw [h.inflight, hb.inflight, ← h.held, countP_add, coe_countP]
    omega

theorem Balanced.recorded {fresh : List Held} (hb : ctx.Balanced) (h : Recorded ctx ctx' fresh) : ctx'.Balanced where
  wf := h.wf
  inflight scope k := by
    rw [h.inflight, hb.inflight, h.held, countP_add, coe_countP, add_comm]

theorem Balanced.same (hb : ctx.Balanced) (hs : ctx.catalog.SameBindings ctx'.catalog)
    (hi : ctx'.inflight = ctx.inflight) : ctx'.Balanced :=
  ⟨hs.wf hb.wf, by rw [hi, hs.held]; exact hb.inflight⟩

theorem Balanced.withCatalog (hb : ctx.Balanced) {r : EngineResult Catalog}
    (h : ∀ cat', r = .ok cat' → ctx.catalog.EntitiesOnly cat') : (ctx.withCatalog r).Balanced := by
  obtain ⟨hs, hi⟩ := same_withCatalog ctx h
  exact hb.same hs hi

end Engine

/-! ## Subscribing -/

namespace Catalog

variable {cat : Catalog}

theorem retirePrevious_spec (hw : cat.WF) {sid : SubscriptionId} {ev : DeltaEvents} :
    (cat.retirePrevious sid ev).1.held + cat.displaced sid = cat.held ∧
      (cat.retirePrevious sid ev).1.WF ∧ cat.Shrinks (cat.retirePrevious sid ev).1 := by
  unfold retirePrevious displaced
  cases hold : cat.bySubscription.lookup sid with
  | none => exact ⟨by simp, hw, (SameBindings.refl cat).shrinks⟩
  | some old =>
    cases hb : cat.binding old with
    | none =>
      simp only [retireBinding_none hb, bind_some, hb]
      exact ⟨by simp, hw, (SameBindings.refl cat).shrinks⟩
    | some b =>
      simp only [bind_some, hb]
      obtain ⟨cat', ev', heq, hs, -⟩ := retireBinding_some hb ev
      rw [heq]
      refine ⟨?_, hs.wf (wf_unindexBinding hw hb), (shrinks_unindexBinding old).trans hs.shrinks⟩
      rw [hs.held]; exact held_unindexBinding hb

/-- **`subscribe` forgets what the binding it replaces still held.** -/
theorem subscribe_spec (hw : cat.WF) (conn : ConnectionId) (sid : SubscriptionId) (ev : DeltaEvents)
    (hfresh : cat.binding cat.nextBindingId = none) : (∃ e, cat.subscribe conn sid ev = (.error e, cat, ev)) ∨
      (cat.subscribe conn sid ev).2.1.held + cat.displaced sid = cat.held ∧ (cat.subscribe conn sid ev).2.1.WF := by
  unfold subscribe
  split
  · exact .inl ⟨_, rfl⟩
  next sub _ =>
  split
  · exact .inl ⟨_, rfl⟩
  next consumer _ =>
  right
  obtain ⟨hheld, hw', hshrinks⟩ := retirePrevious_spec hw
  have hnext := hshrinks.nextBindingId
  simp only
  set cat₁ := (cat.retirePrevious sid ev).1
  let cat₂ := { cat₁ with nextBindingId := (cat₁.nextBindingId + 1) % 2 ^ 32 }
  let b := freshBinding cat₁.nextBindingId conn sid sub consumer
  have hw₂ : cat₂.WF := ⟨hw'.idOK, hw'.byConsumerOK, hw'.byConsumerAll, hw'.pendingOK⟩
  have hfree : cat₂.binding b.bindingId = none := by
    cases hx : cat₂.binding b.bindingId with
    | none => rfl
    | some x =>
      have hold : cat.binding cat₁.nextBindingId = some x := hshrinks.binding _ x hx
      rw [hnext, hfresh] at hold
      cases hold
  have hs : (cat₂.indexBinding b).SameBindings _ :=
    (same_modifyMatchTable sub.streamId fun mt => mt.bindSubscription sid conn).trans
      (same_incDemand sub.streamId (cat.retirePrevious sid ev).2)
  refine ⟨?_, hs.wf (wf_indexBinding hw₂ hfree ?_)⟩
  · rw [hs.held, held_indexBinding hfree, Binding.held_of_empty rfl, zero_add]
    exact hheld
  · intro s p hp; simp [b, freshBinding] at hp

end Catalog

namespace Engine

variable {ctx : Engine} {wh : WireHash}

theorem Balanced.subscribe (hb : ctx.Balanced) (conn : ConnectionId) (sid : SubscriptionId)
    (hlost : ctx.catalog.displaced sid = 0) (hfresh : ctx.catalog.binding ctx.catalog.nextBindingId = none) :
    (ctx.subscribe conn sid).2.1.Balanced := by
  rcases subscribe_spec hb.wf conn sid {} hfresh with ⟨e, he⟩ | ⟨hheld, hw⟩
  · unfold Engine.subscribe
    rw [he]
    exact ⟨hb.wf, hb.inflight⟩
  refine ⟨hw, fun scope k => ?_⟩
  show ctx.inflight.get scope k = _
  rw [hlost, add_zero] at hheld
  rw [hb.inflight]
  exact congrArg _ hheld.symm

/-- **Every sound step keeps the books in order.** -/
theorem balanced_step (hb : ctx.Balanced) {op : Op} (hs : ctx.Sound op) : (ctx.step wh op).Balanced := by
  cases op with
  | createStream config =>
    exact hb.withCatalog fun _ => ensureStream_entities
  | deleteStream id =>
    obtain ⟨g, hg⟩ := deleteStream_released hb.wf id
    exact hb.released hg
  | createConsumer config =>
    exact hb.withCatalog fun _ => ensureConsumer_entities
  | deleteConsumer id =>
    obtain ⟨g, hg⟩ := deleteConsumer_released hb.wf id
    exact hb.released hg
  | createSubscription config =>
    exact hb.withCatalog fun _ => ensureSubscription_entities
  | subscribe conn sid =>
    obtain ⟨hlost, hfresh⟩ := hs
    exact hb.subscribe conn sid hlost (isNone_iff_eq_none.1 hfresh)
  | unsubscribe id =>
    obtain ⟨g, hg⟩ := unsubscribe_released hb.wf
    exact hb.released hg
  | markConnectionDead conn =>
    obtain ⟨g, hg⟩ := markConnectionDead_released hb.wf conn
    exact hb.released hg
  | setMaxSubjectInflight id pattern max =>
    exact hb.withCatalog fun _ => setMaxSubjectInflight_entities
  | execute cmd =>
    cases cmd with
    | delivered id es => exact hb.recorded (applyDelivered_recorded hb.wf es)
    | ack | nack =>
      obtain ⟨g, hg, -⟩ := settle_settled hb.wf hs
      exact hb.settled hg
  | _ => exact hb.same ⟨rfl, rfl, rfl, rfl, rfl⟩ rfl

/-- **The inflight counters are the numbers of pendings**, for every consumer and
every queue, in every state a run of sound steps reaches. -/
theorem inflight_eq_pendings (ops : List Op) (hrun : Run.Guarded (step wh) Sound new ops)
    (scope : InFlightScope) (k : ℕ) :
    (ops.foldl (step wh) new).inflight.get scope k =
      (ops.foldl (step wh) new).catalog.pendingsOf scope k := by
  have hstep : ∀ s a, Balanced s → Sound s a → Balanced (step wh s a) :=
    fun _ a hs ha => balanced_step hs ha
  have h := Run.invariant hstep ops new balanced_new hrun
  rw [h.inflight, Catalog.countP_held]

/-- A stream, a consumer with explicit acks, one subscription of it bound to
connection 7, and one message delivered to it. -/
def oneDelivered : List Op :=
  [.createStream ⟨1, []⟩,
    .createConsumer { id := 1, queueId := 5, streamId := 1, durable := false, ackPolicy := .explicit,
                      maxInflight := 10, ackWaitMs := 0, maxNack := 0, filter := [] },
    .createSubscription ⟨1, 1, 1, 1, []⟩,
    .subscribe 7 1,
    .execute (.delivered 1 [⟨1, 0⟩])]

instance (ctx : Engine) (op : Op) : Decidable (ctx.Sound op) := by
  unfold Sound NamedOwned
  split <;> infer_instance

/-- The run is sound and ends with one message in flight, so the theorem is not
about idle engines only. -/
theorem inflight_eq_pendings_oneDelivered :
    Run.Guarded (step fun _ => 0) Sound new oneDelivered ∧
      (oneDelivered.foldl (step fun _ => 0) new).inflight.get .consumer 1 = 1 ∧
      (oneDelivered.foldl (step fun _ => 0) new).inflight.get .consumer 1 =
        (oneDelivered.foldl (step fun _ => 0) new).catalog.pendingsOf .consumer 1 :=
  ⟨by decide, by decide, inflight_eq_pendings oneDelivered (by decide) .consumer 1⟩

/-- **Re-subscribing leaks inflight credit.** The same connection subscribes again
with its message still pending: the new binding holds nothing, the counters of
the consumer and of its queue still say one. -/
theorem resubscribe_leaks_inflight :
    let ctx := (oneDelivered ++ [Op.subscribe 7 1]).foldl (step fun _ => 0) new
    ctx.inflight.get .consumer 1 = 1 ∧ ctx.catalog.pendingsOf .consumer 1 = 0 ∧
      ctx.inflight.get .queue 5 = 1 ∧ ctx.catalog.pendingsOf .queue 5 = 0 := by
  decide

end Engine

end Arbitro
