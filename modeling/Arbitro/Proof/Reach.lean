import Arbitro.Proof.Mirror
import Arbitro.Proof.Moves

/-!
# The engine behind the command task

A worker touches its engine only through the operations of the facade, so whatever holds
along every run of those holds of the engine in every state of the command task.

* `Engine.Reaches`: one engine leads to another by guarded operations.
* `settle_reaches`, `createConsumer_reaches`, `subscribe_reaches`: what handlers ask of it. The
  guard asks that a subscribe or bind draws a binding id that no live binding has.
-/

namespace Arbitro

open List

namespace Engine

variable {wh : WireHash} {ok ok' : Engine → Op → Prop} {a b c : Engine}

/-- A subscribe draws a binding id that is free. -/
def Op.FreshId (ctx : Engine) : Op → Prop
  | .subscribe _ _ => ctx.catalog.binding ctx.catalog.nextBindingId = none
  | _ => True

/-- No new binding. -/
def Op.Quiet (_ : Engine) : Op → Prop
  | .subscribe _ _ => False
  | _ => True

/-- **Operations that meet a guard lead from one engine to another.** -/
def Reaches (wh : WireHash) (ok : Engine → Op → Prop) (a b : Engine) : Prop :=
  ∃ ops, Run.Guarded (step wh) ok a ops ∧ ops.foldl (step wh) a = b

theorem Reaches.refl (wh : WireHash) (ok : Engine → Op → Prop) (a : Engine) : Reaches wh ok a a :=
  ⟨[], trivial, rfl⟩

theorem Reaches.one (op : Op) (h : ok a op) : Reaches wh ok a (a.step wh op) := ⟨[op], ⟨h, trivial⟩, rfl⟩

theorem Reaches.trans (h : Reaches wh ok a b) (h' : Reaches wh ok b c) : Reaches wh ok a c := by
  obtain ⟨ops, hg, rfl⟩ := h
  obtain ⟨ops', hg', rfl⟩ := h'
  exact ⟨ops ++ ops', Run.guarded_append.2 ⟨hg, hg'⟩, foldl_append⟩

theorem Reaches.mono (h : Reaches wh ok a b) (hok : ∀ e op, ok e op → ok' e op) : Reaches wh ok' a b := by
  obtain ⟨ops, hg, rfl⟩ := h
  exact ⟨ops, Run.guarded_of_invariant (P := fun _ => True) (fun _ _ _ _ => trivial)
    (fun e op _ => hok e op) ops a trivial hg, rfl⟩

theorem Reaches.invariant {Inv : Engine → Prop} (h : Reaches wh ok a b)
    (hstep : ∀ e op, Inv e → ok e op → Inv (e.step wh op)) (ha : Inv a) : Inv b := by
  obtain ⟨ops, hg, rfl⟩ := h
  exact Run.invariant hstep ops a ha hg

theorem Op.Quiet.freshId (e : Engine) (op : Op) (h : op.Quiet e) : op.FreshId e := by
  cases op with
  | subscribe conn sid => exact h.elim
  | _ => trivial

/-- A stable property survives whatever makes no binding. -/
theorem Reaches.stable {P : Catalog → Prop} (hP : Catalog.Stable P) (h : Reaches wh Op.Quiet a b)
    (ha : P a.catalog) : P b.catalog := by
  apply h.invariant (fun e op he hquiet => ?_) ha
  apply stable_step hP he
  rintro conn sid rfl
  exact hquiet.elim

end Engine

/-! ## What the engine reports -/

namespace Engine

variable {a b c : Engine} {ea eb ec : DeltaEvents} {k : BindingId} {ev : DeltaEvents}

/-- Bindings that went are reported as retired. -/
structure Reports (a : Engine) (ea : DeltaEvents) (b : Engine) (eb : DeltaEvents) : Prop where
  grows : ea.bindingsRetired ⊆ eb.bindingsRetired
  kept : ∀ k, (a.catalog.binding k).isSome → k ∉ eb.bindingsRetired → (b.catalog.binding k).isSome

theorem Reports.refl (a : Engine) (ea : DeltaEvents) : Reports a ea a ea := ⟨fun _ h => h, fun _ h _ => h⟩

theorem Reports.trans (h : Reports a ea b eb) (h' : Reports b eb c ec) : Reports a ea c ec where
  grows := fun _ hk => h'.grows (h.grows hk)
  kept k hk hnot := h'.kept k (h.kept k hk fun hmem => hnot (h'.grows hmem)) hnot

theorem Reports.same (h : Reports a ea b eb) (hs : b.catalog.SameBindings c.catalog) : Reports a ea c eb where
  grows := h.grows
  kept k hk hnot := by
    rw [hs.binding]
    exact h.kept k hk hnot

/-- Only the retired bindings of the events count. -/
theorem Reports.relabel (h : Reports a ea b eb) (he : ec.bindingsRetired = eb.bindingsRetired) : Reports a ea b ec where
  grows := by rw [he]; exact h.grows
  kept := by rw [he]; exact h.kept

theorem retireBinding_reports (a : Engine) (id : BindingId) (ev : DeltaEvents) :
    Reports a ev (a.retireBinding id ev).1 (a.retireBinding id ev).2 := by
  cases hb : a.catalog.binding id with
  | none =>
    simp only [retireBinding, Catalog.retireBinding_none hb]
    exact .refl a ev
  | some x =>
    obtain ⟨cat', ev', heq, hs, -, -, -, -, hret⟩ := Catalog.retireBinding_some hb ev
    simp only [retireBinding, heq]
    refine ⟨fun k hk => ?_, fun k hk hnot => ?_⟩
    · show k ∈ ev'.bindingsRetired
      rw [hret]
      exact mem_append_left _ hk
    have hne : k ≠ id := by
      rintro rfl
      apply hnot
      rw [hret]
      exact mem_append_right _ (mem_singleton.2 rfl)
    rw [hs.binding, Catalog.binding_unindexBinding, if_neg hne]
    exact hk

theorem retireBindings_reports {ids : List BindingId} (a : Engine) (ev : DeltaEvents) :
    Reports a ev (a.retireBindings ids ev).1 (a.retireBindings ids ev).2 := by
  induction ids generalizing a ev with
  | nil => exact .refl a ev
  | cons id ids ih => exact (retireBinding_reports a id ev).trans (ih _ _)

theorem markConnectionDead_reports (conn : ConnectionId) :
    Reports a {} (a.markConnectionDead conn).1 (a.markConnectionDead conn).2 :=
  (retireBindings_reports a {}).same ⟨rfl, rfl, rfl, rfl, rfl⟩

theorem deleteConsumer_reports (a : Engine) (id : ConsumerId) :
    Reports a {} (a.deleteConsumer id).1 (a.deleteConsumer id).2 := by
  have h := (retireBindings_reports a {}).same
    (same_removeConsumerEntities (a.retireBindingsForConsumer id {}).1 id).1
  unfold deleteConsumer
  simp only
  split
  · exact h.relabel rfl
  · exact h

theorem cascade_reports (ids : List ConsumerId) (s : Engine × DeltaEvents) :
    Reports s.1 s.2 (ids.foldl cascadeConsumer s).1 (ids.foldl cascadeConsumer s).2 :=
  foldlRecOn ids cascadeConsumer (motive := fun t => Reports s.1 s.2 t.1 t.2) (.refl s.1 s.2) fun t h id _ =>
    h.trans ((retireBindings_reports t.1 t.2).same
      (same_removeConsumerEntities (t.1.retireBindingsForConsumer id t.2).1 id).1)

theorem deleteStream_reports (id : StreamId) :
    Reports a {} (a.deleteStream id).1 (a.deleteStream id).2 := by
  have h := cascade_reports (a.catalog.consumersForStream id) (a, {})
  unfold deleteStream
  refine Reports.same ?_ (same_withCatalog _ fun _ => Catalog.removeStreamEntity_entities).1
  refine Reports.trans ?_ (retireBindings_reports _ _)
  exact h.relabel rfl

theorem Reports.of_present (h : ∀ k, (a.catalog.binding k).isSome → (b.catalog.binding k).isSome) :
    Reports a {} b ev := ⟨nil_subset _, fun k hk _ => h k hk⟩

theorem Reports.of_same (hs : a.catalog.SameBindings b.catalog) : Reports a {} b ev :=
  .of_present fun k hk => by rw [hs.binding]; exact hk

theorem present_setBinding {cat : Catalog} {id : BindingId} {x : Binding} (hk : (cat.binding k).isSome) :
    ((cat.setBinding id x).binding k).isSome := by
  rw [Catalog.binding_setBinding]
  split
  · rfl
  · exact hk

theorem settle_reports (conn : ConnectionId) (c : ConsumerId) (es : List AckEntry) :
    Reports a {} (a.settle conn c es).1 ev := by
  refine .of_present fun k hk => ?_
  have hfold : ∀ (ids : List BindingId) (es : List AckEntry) (s : Engine × DeltaEvents), (s.1.catalog.binding k).isSome →
      ((es.foldl (settleEntry conn c ids) s).1.catalog.binding k).isSome := by
    intro ids es
    induction es with
    | nil => intro s hs; exact hs
    | cons e es ih =>
      intro s hs
      apply ih
      rcases settleEntry_cases conn c ids s e with ⟨heq, -⟩ | ⟨id, -, heq⟩
      · rw [heq]
        exact hs
      · obtain ⟨x, p, -, -, -, hcat, -⟩ := takePending_some heq
        rw [hcat]
        exact present_setBinding hs
  exact hfold _ es (a, {}) hk

theorem applyDelivered_reports (id : BindingId) (es : List DeliveredEntry) :
    Reports a {} (a.applyDelivered id es) {} := by
  refine .of_present fun k hk => ?_
  unfold applyDelivered
  split
  · exact hk
  · split
    · exact hk
    · exact present_setBinding hk

end Engine

namespace Worker

open Engine (Reaches)

variable {wh : WireHash} (w : Worker)

/-! ## Handlers -/

theorem settle_reaches (e : Engine) (conn : ConnectionId) (c : ConsumerId) (es : List AckEntry) :
    Reaches wh Engine.Op.Quiet e (e.settle conn c es).1 :=
  Reaches.one (.execute (.nack conn c es)) trivial

theorem nackBody_engine (cmd : NackCmd) :
    (w.nackBody cmd).1.engine = (w.engine.settle cmd.connId cmd.consumerId cmd.entries).1 := by
  unfold nackBody Out.andThen
  simp only
  split <;> rfl

theorem limits_reaches (id : StreamId) (limits : List (Bytes × ℕ)) (e : Engine) :
    Reaches wh Engine.Op.Quiet e (limits.foldl (fun e l => e.setMaxSubjectInflight wh id l.1 l.2) e) :=
  foldlRecOn limits _ (motive := Reaches wh Engine.Op.Quiet e) (Reaches.refl _ _ _) fun _ h l _ =>
    h.trans (.one (.setMaxSubjectInflight id l.1 l.2) trivial)

theorem createConsumer_reaches (config : ConsumerConfig) (limits : List (Bytes × ℕ)) :
    Reaches wh Engine.Op.Quiet w.engine (w.handleCreateConsumer wh config limits).1.engine := by
  have hcreate : Reaches wh Engine.Op.Quiet w.engine (w.engine.createConsumer config).1 :=
    Reaches.one (.createConsumer config) trivial
  unfold handleCreateConsumer
  simp only
  split
  · exact hcreate.trans (limits_reaches _ _ _)
  · exact hcreate

theorem ensured_reaches (cmd : SubscribeCmd) : Reaches wh Engine.Op.Quiet w.engine (w.ensured wh cmd) := by
  refine ⟨[.createStream cmd.streamConfig, .createConsumer cmd.consumerConfig,
    .createSubscription cmd.subscriptionConfig], ?_, rfl⟩
  exact ⟨trivial, trivial, trivial, trivial⟩

end Worker

/-- A subscribe or bind draws a binding id that is free. -/
def Job.FreshId (w : Worker) : Job → Prop
  | .subscribe _ => w.engine.catalog.binding w.engine.catalog.nextBindingId = none
  | .bind _ => w.engine.catalog.binding w.engine.catalog.nextBindingId = none
  | _ => True

namespace Worker

open Engine (Reaches)

variable {wh : WireHash} {w : Worker}

theorem subscribe_reaches {cmd : SubscribeCmd} (hfresh : (Job.subscribe cmd).FreshId w) :
    Reaches wh Engine.Op.FreshId w.engine (w.handleSubscribe wh cmd).1.engine := by
  have hensured : Reaches wh Engine.Op.FreshId w.engine (w.ensured wh cmd) :=
    (ensured_reaches w cmd).mono Engine.Op.Quiet.freshId
  obtain ⟨hs, -⟩ := same_ensured wh cmd
  obtain ⟨he | he, -, -⟩ := handleSubscribe_eq wh w cmd
  · rw [he]
    exact hensured
  rw [he]
  have hfree : (w.ensured wh cmd).catalog.binding (w.ensured wh cmd).catalog.nextBindingId = none := by
    rw [hs.nextBindingId, hs.binding]
    exact hfresh
  apply hensured.trans
  exact Reaches.one (.subscribe cmd.connectionId cmd.subscriptionConfig.id) hfree

end Worker

/-! ## The command task -/

namespace CommandTask

open Engine (Reaches)

variable {wh : WireHash} {t : CommandTask}

/-- A step that runs a subscribe or bind draws a binding id that is free. -/
def FreshId (t : CommandTask) : CommandAction → Prop
  | .work _ _ => ∀ j rest, t.todo = .job j :: rest → j.FreshId t.worker
  | _ => True

theorem plan_same (w : Worker) (j : Job) : (plan w j).1.engine = w.engine ∧ (plan w j).1.bindings = w.bindings := by
  unfold plan
  split
  · split <;> exact ⟨rfl, rfl⟩
  · split
    · unfold Worker.nackCheck
      simp only
      split <;> exact ⟨rfl, rfl⟩
    · exact ⟨rfl, rfl⟩
  · exact ⟨rfl, rfl⟩
  · exact ⟨rfl, rfl⟩

end CommandTask

end Arbitro
