import Arbitro.Proof.Publish

/-!
# Bindings and their connections

The bindings of a connection are found through an index of the catalog, and the records the drain
works with are dropped when the engine reports their bindings as retired.

* `Worker.Attached`: every binding is listed under its connection, and every record the worker
  keeps is of a binding that is there and listed under the record's connection.
* `Worker.Attached.exec`, `Worker.Attached.notification`: every handler keeps this.
* `Worker.Attached.drained`: so a drained connection has neither bindings nor records.
* `Worker.Free.exec`: and it gets none from the commands of others.
-/

namespace Arbitro

open Catalog List

namespace Catalog

variable {cat cat' : Catalog} {conn : ConnectionId} {id k : BindingId}

/-! ## The index by connection -/

/-- Every binding is listed under its connection. -/
def Covered (cat : Catalog) : Prop := ∀ k b, cat.binding k = some b → k ∈ cat.bindingsForConnection b.connectionId

/-- No binding is of the connection. -/
def Free (conn : ConnectionId) (cat : Catalog) : Prop := ∀ k b, cat.binding k = some b → b.connectionId ≠ conn

/-- A binding that is still there is listed wherever it was before. -/
def Listed (old : Catalog) (k : BindingId) (cat : Catalog) : Prop :=
  (cat.binding k).isSome → ∀ conn, k ∈ old.bindingsForConnection conn → k ∈ cat.bindingsForConnection conn

theorem binding_of_tables (h : cat'.tables = cat.tables) : cat'.binding k = cat.binding k := by
  have hb := congrArg bindings h
  change cat'.bindings = cat.bindings at hb
  unfold binding
  rw [hb]

theorem bindingsForConnection_of_tables (h : cat'.tables = cat.tables) :
    cat'.bindingsForConnection conn = cat.bindingsForConnection conn := by
  have hc := congrArg byConnection h
  change cat'.byConnection = cat.byConnection at hc
  unfold bindingsForConnection
  rw [hc]

theorem mem_bindingsForConnection_retire (hne : k ≠ id) (ev : DeltaEvents)
    (hk : k ∈ cat.bindingsForConnection conn) : k ∈ (cat.retireBinding id ev).1.bindingsForConnection conn := by
  unfold retireBinding
  cases hb : cat.binding id with
  | none => exact hk
  | some b =>
    simp only [decDemand_eq]
    show k ∈ ((retainIndex cat.byConnection b.connectionId id).lookup conn).getD []
    rw [lookup_retainIndex]
    split
    · exact mem_filter.2 ⟨hk, by simpa using hne⟩
    · exact hk

theorem covered_stable : Stable Covered where
  same h ht k b hb := by
    rw [binding_of_tables ht] at hb
    rw [bindingsForConnection_of_tables ht]
    exact h k b hb
  retire h id ev k b hb := by
    obtain ⟨hne, hb⟩ := of_binding_retireBinding hb
    exact mem_bindingsForConnection_retire hne ev (h k b hb)
  rewrite h hb pending := Map.forall_insert (by have hold := h _ _ hb; exact hold) h

theorem free_stable : Stable (Free conn) where
  same h ht k b hb := by
    rw [binding_of_tables ht] at hb
    exact h k b hb
  retire h id ev k b hb := h k b (of_binding_retireBinding hb).2
  rewrite h hb pending := Map.forall_insert (by have hold := h _ _ hb; exact hold) h

theorem listed_stable {old : Catalog} (k : BindingId) : Stable (Listed old k) where
  same h ht hk conn hc := by
    rw [binding_of_tables ht] at hk
    rw [bindingsForConnection_of_tables ht]
    exact h hk conn hc
  retire h id ev hk conn hc := by
    rw [binding_retireBinding] at hk
    split at hk
    · cases hk
    · exact mem_bindingsForConnection_retire ‹_› ev (h hk conn hc)
  rewrite h hb pending hk conn hc := by
    rw [binding_setBinding] at hk
    split at hk
    · next heq =>
      rw [heq] at h hc ⊢
      exact h (by rw [hb]; rfl) conn hc
    · exact h hk conn hc

/-- What a subscribe does to the bindings: it refuses, or puts one binding of the connection in place of the one
its subscription has. -/
theorem subscribe_cases (cat : Catalog) (conn : ConnectionId) (sid : SubscriptionId) :
    (∃ x, cat.subscribe conn sid {} = (.error x, cat, {})) ∨
    ∃ b : Binding, b.connectionId = conn ∧ (cat.subscribe conn sid {}).1 = .ok b.bindingId ∧
      (cat.subscribe conn sid {}).2.2.bindingsRetired = (cat.retirePrevious sid {}).2.bindingsRetired ∧
      (∀ k, (cat.subscribe conn sid {}).2.1.binding k =
        if k = b.bindingId then some b else (cat.retirePrevious sid {}).1.binding k) ∧
      (cat.subscribe conn sid {}).2.1.byConnection =
        pushIndex (cat.retirePrevious sid {}).1.byConnection conn b.bindingId := by
  unfold subscribe
  cases hsub : cat.subscriptions.lookup sid with
  | none => exact .inl ⟨_, rfl⟩
  | some sub =>
    simp only
    cases hcons : cat.consumer sub.consumerId with
    | none => exact .inl ⟨_, rfl⟩
    | some consumer =>
      refine .inr ⟨freshBinding (cat.retirePrevious sid {}).1.nextBindingId conn sid sub consumer, rfl, rfl, ?_, ?_, rfl⟩
      · simp only [incDemand]
        split <;> rfl
      · exact fun k => Map.lookup_insert_eq _ _ _ _

theorem Stable.retirePrevious {P : Catalog → Prop} (hP : Stable P) (h : P cat) (sid : SubscriptionId) (ev : DeltaEvents) :
    P (cat.retirePrevious sid ev).1 :=
  retirePrevious_of h (fun id => hP.retire h id ev)

end Catalog

/-! ## Retiring several bindings -/

namespace Engine

theorem binding_retireBindings {ids : List BindingId} {k : BindingId} (a : Engine) (ev : DeltaEvents) :
    (a.retireBindings ids ev).1.catalog.binding k = if k ∈ ids then none else a.catalog.binding k := by
  induction ids generalizing a ev with
  | nil => rfl
  | cons id ids ih =>
    have hone : (a.retireBinding id ev).1.catalog.binding k = if k = id then none else a.catalog.binding k := by
      rw [catalog_retireBinding, binding_retireBinding]
    have hrest := ih (a.retireBinding id ev).1 (a.retireBinding id ev).2
    rw [hone] at hrest
    refine hrest.trans ?_
    by_cases hk : k = id
    · simp [hk]
    · simp [hk]

end Engine

/-! ## The records of a worker -/

namespace Worker

variable {wh : WireHash} {w w' w'' : Worker} {conn : ConnectionId} {v : Worker} {sid : SubscriptionId}
  {a : ActiveBinding} {id : BindingId} {r : Worker} {c : ConsumerId} {floor : ℕ}

/-- The bindings and the records agree as far as connections go. -/
structure Attached (w : Worker) : Prop where
  covered : w.engine.catalog.Covered
  present : ∀ a ∈ w.bindings, (w.engine.catalog.binding a.bindingId).isSome
  listed : ∀ a ∈ w.bindings, a.bindingId ∈ w.engine.catalog.bindingsForConnection a.connectionId

/-- Nothing of the worker is the connection's. -/
structure Free (conn : ConnectionId) (w : Worker) : Prop where
  catalog : w.engine.catalog.Free conn
  records : ∀ a ∈ w.bindings, a.connectionId ≠ conn

/-- **Operations without a new binding keep bindings and records attached**, once the records of what they
retire are dropped. -/
theorem attached_lasting (wh : WireHash) : Lasting wh Attached where
  engine := by
    intro w e d hreach hrep h
    -- a record that is not dropped has its binding still, listed where it was
    have hpres : ∀ a ∈ w.bindings.filter fun b => !d.bindingsRetired.contains b.bindingId,
        (e.catalog.binding a.bindingId).isSome := by
      intro a ha
      obtain ⟨hmem, hnot⟩ := mem_filter.1 ha
      exact hrep.kept a.bindingId (h.present a hmem) (by simpa using hnot)
    refine ⟨hreach.stable covered_stable h.covered, hpres, fun a ha => ?_⟩
    have hlisted := hreach.stable (listed_stable a.bindingId) fun _ _ hc => hc
    exact hlisted (hpres a ha) a.connectionId (h.listed a (mem_of_mem_filter ha))
  fewer _ h := ⟨h.covered, fun a ha => h.present a (mem_of_mem_filter ha),
    fun a ha => h.listed a (mem_of_mem_filter ha)⟩
  other h he hb := by
    obtain ⟨hcov, hpres, hlist⟩ := h
    exact ⟨by rw [he]; exact hcov, by rw [he, hb]; exact hpres, by rw [he, hb]; exact hlist⟩

theorem free_lasting (wh : WireHash) (conn : ConnectionId) : Lasting wh (Free conn) where
  engine hreach _ h := ⟨hreach.stable free_stable h.catalog, fun a ha => h.records a (mem_of_mem_filter ha)⟩
  fewer _ h := ⟨h.catalog, fun a ha => h.records a (mem_of_mem_filter ha)⟩
  other h he hb := ⟨by rw [he]; exact h.catalog, by rw [hb]; exact h.records⟩

/-! ## New bindings -/

theorem retirePrevious_present (cat : Catalog) {k : BindingId} (hk : (cat.binding k).isSome)
    (hnot : k ∉ (cat.retirePrevious sid {}).2.bindingsRetired) : ((cat.retirePrevious sid {}).1.binding k).isSome := by
  unfold retirePrevious at hnot ⊢
  cases hold : cat.bySubscription.lookup sid with
  | none => exact hk
  | some old =>
    rw [hold] at hnot
    simp only [binding_retireBinding]
    split
    · next heq =>
      -- the previous binding is there, so its retirement is reported
      subst heq
      obtain ⟨b, hb⟩ := Option.isSome_iff_exists.1 hk
      obtain ⟨cat', ev', heq, -, -, -, -, -, hret⟩ := retireBinding_some hb {}
      simp only [heq, hret] at hnot
      exact absurd (mem_append_right _ (mem_singleton.2 rfl)) hnot
    · exact hk

/-- What a handler leaves that made its engine subscribe: the records of bindings that were not retired, and
perhaps that of the new one. -/
structure Bound (v : Worker) (conn : ConnectionId) (sid : SubscriptionId) (r : Worker) : Prop where
  engine : r.engine = (v.engine.subscribe conn sid).2.1
  kept : ∀ a ∈ r.bindings, a.bindingId ∉ (v.engine.subscribe conn sid).2.2.bindingsRetired
  records : ∀ a ∈ r.bindings,
    a ∈ v.bindings ∨ ((v.engine.subscribe conn sid).1 = .ok a.bindingId ∧ a.connectionId = conn)

theorem Attached.bound (h : v.Attached) (hr : Bound v conn sid r) : r.Attached := by
  have hcat : r.engine.catalog = (v.engine.catalog.subscribe conn sid {}).2.1 := congrArg Engine.catalog hr.engine
  rcases v.engine.catalog.subscribe_cases conn sid with ⟨x, heq⟩ | ⟨b, hconn, hok, hret, hbinding, hby⟩
  · rw [heq] at hcat
    have hold : ∀ a ∈ r.bindings, a ∈ v.bindings := by
      intro a ha
      rcases hr.records a ha with hmem | ⟨hres, -⟩
      · exact hmem
      · have hfail : (v.engine.subscribe conn sid).1 = .error x := congrArg Prod.fst heq
        rw [hfail] at hres
        cases hres
    refine ⟨?_, ?_, ?_⟩
    · rw [hcat]; exact h.covered
    · rw [hcat]; exact fun a ha => h.present a (hold a ha)
    · rw [hcat]; exact fun a ha => h.listed a (hold a ha)
  have hlist : ∀ {k : BindingId} {c : ConnectionId},
      k ∈ (v.engine.catalog.retirePrevious sid {}).1.bindingsForConnection c →
        k ∈ r.engine.catalog.bindingsForConnection c := by
    intro k c hk
    unfold bindingsForConnection at hk ⊢
    rw [hcat, hby]
    exact mem_pushIndex.2 (.inl hk)
  have hself : b.bindingId ∈ r.engine.catalog.bindingsForConnection conn := by
    unfold bindingsForConnection
    rw [hcat, hby]
    exact mem_pushIndex.2 (.inr ⟨rfl, rfl⟩)
  -- a record is of a binding the takeover left, or of the new one
  have hrec : ∀ a ∈ r.bindings,
      (a ∈ v.bindings ∧ ((v.engine.catalog.retirePrevious sid {}).1.binding a.bindingId).isSome) ∨
        (a.bindingId = b.bindingId ∧ a.connectionId = conn) := by
    intro a ha
    rcases hr.records a ha with hmem | ⟨hres, hc⟩
    · have hnot : a.bindingId ∉ (v.engine.catalog.subscribe conn sid {}).2.2.bindingsRetired := hr.kept a ha
      rw [hret] at hnot
      exact .inl ⟨hmem, retirePrevious_present _ (h.present a hmem) hnot⟩
    · exact .inr ⟨Except.ok.inj (hres.symm.trans hok), hc⟩
  refine ⟨?_, ?_, ?_⟩
  · intro k x hx
    rw [hcat, hbinding] at hx
    split at hx
    · next hk =>
      cases hx
      rw [hk, hconn]
      exact hself
    · exact hlist (covered_stable.retirePrevious h.covered sid {} k x hx)
  · intro a ha
    rw [hcat, hbinding]
    split
    · rfl
    · next hne => exact ((hrec a ha).resolve_right fun hnew => hne hnew.1).2
  · intro a ha
    rcases hrec a ha with ⟨hmem, hlive⟩ | ⟨hid, hc⟩
    · exact hlist ((listed_stable a.bindingId).retirePrevious
        (fun _ _ hc => hc) sid {} hlive a.connectionId (h.listed a hmem))
    · rw [hid, hc]
      exact hself

theorem Free.bound {other : ConnectionId} (h : v.Free conn) (hne : other ≠ conn)
    (hr : Bound v other sid r) : r.Free conn := by
  have hcat : r.engine.catalog = (v.engine.catalog.subscribe other sid {}).2.1 := congrArg Engine.catalog hr.engine
  constructor
  · rw [hcat]
    rcases v.engine.catalog.subscribe_cases other sid with ⟨x, heq⟩ | ⟨b, hconn, -, -, hbinding, -⟩
    · rw [heq]
      exact h.catalog
    intro k x hx
    rw [hbinding] at hx
    split at hx
    · cases hx
      rw [hconn]
      exact hne
    · exact free_stable.retirePrevious h.catalog sid {} k x hx
  · intro a ha
    rcases hr.records a ha with hmem | ⟨-, hc⟩
    · exact h.records a hmem
    · rw [hc]
      exact hne

/-- The worker once `handle_subscribe` has made sure its entities exist. -/
def withEnsured (wh : WireHash) (w : Worker) (cmd : SubscribeCmd) : Worker := { w with engine := w.ensured wh cmd }

theorem mem_dropBindings {retired : List BindingId} :
    a ∈ (w.dropBindings retired).bindings ↔ a ∈ w.bindings ∧ a.bindingId ∉ retired := by
  simp [dropBindings]

theorem mem_addBinding {hasWriter : Bool} (ha : a ∈ (w.addBinding id conn c sid floor hasWriter).1.bindings) :
    a ∈ w.bindings ∨ (a.bindingId = id ∧ a.connectionId = conn) := by
  simp only [addBinding] at ha
  split at ha
  · rcases mem_append.1 ha with ha | ha
    · exact .inl ha
    · rw [mem_singleton] at ha
      subst ha
      exact .inr ⟨rfl, rfl⟩
  · exact .inl ha

theorem bound_added (hid : (v.engine.subscribe conn sid).1 = .ok id) (hasWriter : Bool) :
    Bound v conn sid (({ v with engine := (v.engine.subscribe conn sid).2.1 }.addBinding id conn c sid floor
      hasWriter).1.dropBindings (v.engine.subscribe conn sid).2.2.bindingsRetired) := by
  refine ⟨rfl, fun a ha => (mem_dropBindings.1 ha).2, fun a ha => ?_⟩
  rcases mem_addBinding (mem_dropBindings.1 ha).1 with hmem | ⟨hnew, hc⟩
  · exact .inl hmem
  · rw [hnew]
    exact .inr ⟨hid, hc⟩

theorem bound_refused :
    Bound v conn sid ({ v with engine := (v.engine.subscribe conn sid).2.1 }.dropBindings
      (v.engine.subscribe conn sid).2.2.bindingsRetired) :=
  ⟨rfl, fun _ ha => (mem_dropBindings.1 ha).2, fun _ ha => .inl (mem_dropBindings.1 ha).1⟩

theorem handleSubscribe_bound (wh : WireHash) (w : Worker) (cmd : SubscribeCmd) :
    (w.handleSubscribe wh cmd).1 = w.withEnsured wh cmd ∨
      Bound (w.withEnsured wh cmd) cmd.connectionId cmd.subscriptionConfig.id (w.handleSubscribe wh cmd).1 := by
  have hens : (((w.engine.createStream cmd.streamConfig).1.createConsumer cmd.consumerConfig).1.createSubscription wh
      cmd.subscriptionConfig).1 = (w.withEnsured wh cmd).engine := rfl
  unfold handleSubscribe
  simp only
  rw [hens]
  split
  · right
    split
    · next id hid => exact bound_added hid _
    · exact bound_refused
  · exact .inl rfl

theorem handleBind_bound {cmd : BindCmd} : Bound w cmd.connectionId cmd.subscriptionId (w.handleBind cmd).1 := by
  unfold handleBind Out.andThen
  simp only
  split
  · next id hid => exact bound_added hid _
  · exact bound_refused

theorem Lasting.ensured {P : Worker → Prop} (hP : Lasting wh P) (h : P w) (cmd : SubscribeCmd) : P (w.withEnsured wh cmd) :=
  hP.quiet (ensured_reaches w cmd) (.of_same (same_ensured wh cmd).1) h

/-- **Every command keeps bindings and records attached.** -/
theorem Attached.exec (h : w.Attached) (j : Job) : (w.exec wh j).1.Attached := by
  have hlast := attached_lasting wh
  refine (hlast.exec h fun hb => ?_).1
  cases j with
  | subscribe cmd =>
    rcases handleSubscribe_bound wh w cmd with heq | hbound
    · show (w.handleSubscribe wh cmd).1.Attached
      rw [heq]
      exact hlast.ensured h cmd
    · exact (hlast.ensured h cmd).bound hbound
  | bind cmd => exact h.bound handleBind_bound
  | _ => exact hb.elim

end Worker

/-- A command that makes a binding of the connection. -/
def Job.BindsFor (conn : ConnectionId) : Job → Prop
  | .subscribe cmd => cmd.connectionId = conn
  | .bind cmd => cmd.connectionId = conn
  | _ => False

namespace Worker

variable {wh : WireHash} {w : Worker} {conn : ConnectionId}

/-- **A connection without bindings gets none from the commands of others.** -/
theorem Free.exec (h : w.Free conn) {j : Job} (hj : ¬ j.BindsFor conn) : (w.exec wh j).1.Free conn := by
  have hlast := free_lasting wh conn
  refine (hlast.exec h fun hb => ?_).1
  cases j with
  | subscribe cmd =>
    have hens : (w.withEnsured wh cmd).Free conn := hlast.ensured h cmd
    rcases handleSubscribe_bound wh w cmd with heq | hbound
    · show (w.handleSubscribe wh cmd).1.Free conn
      rw [heq]
      exact hens
    · exact hens.bound hj hbound
  | bind cmd => exact h.bound hj handleBind_bound
  | _ => exact hb.elim

/-! ## Notifications and drains -/

theorem Attached.notification (h : w.Attached) (n : DrainNotification) : (w.handleNotification n).1.Attached :=
  ((attached_lasting fun _ => 0).notification h n).1

/-- **A drained connection has neither bindings nor records.** -/
theorem Attached.drained (h : w.Attached) (conn : ConnectionId) : (w.exec wh (.drainConnection conn)).1.Free conn := by
  have hbinding : ∀ k, (w.exec wh (.drainConnection conn)).1.engine.catalog.binding k =
      if k ∈ w.engine.catalog.bindingsForConnection conn then none else w.engine.catalog.binding k :=
    fun k => Engine.binding_retireBindings w.engine {}
  constructor
  · intro k b hb hconn
    rw [hbinding] at hb
    split at hb
    · cases hb
    · next hnot => exact hnot (hconn ▸ h.covered k b hb)
  intro a ha hconn
  have hmem : a ∈ w.bindings := mem_of_mem_filter ha
  have hafter : (w.exec wh (.drainConnection conn)).1.Attached := h.exec _
  have hsome := hafter.present a ha
  rw [hbinding, if_pos (hconn ▸ h.listed a hmem)] at hsome
  cases hsome

end Worker

end Arbitro
