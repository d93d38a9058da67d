import Arbitro.Proof.Reach
import Arbitro.Proof.Tidy

/-!
# What a worker publishes

A handler publishes snapshots of the worker as it is at that moment, which may be half
way through the command. A property of workers that survives every operation on the
engine, every other change and the loss of bindings therefore holds of whatever was
published.

* `Worker.Lasting`: such a property; subscribing is left to its users.
* `Lasting.exec`, `Lasting.notification`: what is published comes from workers with the
  property.
* `Publishing.step`: the same for a command task.
-/

namespace Arbitro

open Engine Effect Worker List Out Reaches

namespace Worker

variable {wh : WireHash} {w w' : Worker} {P : Worker → Prop} {f : Worker → Out} {es : List Effect}

/-- A property of engine and bindings that survives operations without a new binding, once the records of the
bindings they report as retired are dropped. -/
structure Lasting (wh : WireHash) (P : Worker → Prop) : Prop where
  engine : ∀ {w : Worker} {e : Engine} {d : DeltaEvents}, Reaches wh Op.Quiet w.engine e →
    Reports w.engine {} e d → P w →
      P { w with engine := e, bindings := w.bindings.filter fun b => !d.bindingsRetired.contains b.bindingId }
  fewer : ∀ {w : Worker} (p : ActiveBinding → Bool), P w → P { w with bindings := w.bindings.filter p }
  other : ∀ {w w' : Worker}, P w → w'.engine = w.engine → w'.bindings = w.bindings → P w'

/-- The worker has the property, and so had every worker whose snapshot is published. -/
def Out.Publishes (P : Worker → Prop) (r : Out) : Prop :=
  P r.1 ∧ ∀ snap, publish snap ∈ r.2 → ∃ w, P w ∧ snap = w.snapshot

namespace Out.Publishes

theorem silent (h : P w) (hes : ∀ snap, publish snap ∉ es) : Publishes P (w, es) :=
  ⟨h, fun snap hs => absurd hs (hes snap)⟩

/-- What a silent first half leaves need not have the property. -/
theorem after (hes : ∀ snap, publish snap ∉ es) (hf : (f w).Publishes P) : (andThen (w, es) f).Publishes P := by
  refine ⟨hf.1, fun snap hs => ?_⟩
  rcases mem_append.1 hs with hs | hs
  · exact absurd hs (hes snap)
  · exact hf.2 snap hs

theorem andThen {r : Out} (h : r.Publishes P) (hf : ∀ w, P w → (f w).Publishes P) : (r.andThen f).Publishes P := by
  obtain ⟨hr, hes⟩ := h
  obtain ⟨hlast, htail⟩ := hf r.1 hr
  refine ⟨hlast, fun snap hs => ?_⟩
  rcases mem_append.1 hs with hs | hs
  · exact hes snap hs
  · exact htail snap hs

end Out.Publishes

variable {delta : DeltaEvents}

theorem publishes_rebuild (h : P w) : (w.rebuildAndSwapSnapshot).Publishes P := by
  refine ⟨h, fun snap hs => ⟨w, h, ?_⟩⟩
  have heq := mem_singleton.1 hs
  exact publish.inj heq

theorem publish_notMem_gate (p : Bool) (snap : DrainSnapshot) : publish snap ∉ releaseGateIf p := by
  unfold releaseGateIf
  split <;> simp

theorem publish_notMem_rewind (seqs : List ℕ) (snap : DrainSnapshot) : publish snap ∉ rewindToLeast seqs := by
  unfold rewindToLeast
  split <;> simp

theorem publish_notMem_decMatched (c : ConsumerId) (snap : DrainSnapshot) : publish snap ∉ w.decMatched c delta := by
  unfold decMatched
  split
  · split <;> simp
  · simp

theorem publishes_delta {acks : Bool} (hlast : P (w.applyDeltaAndSync delta acks).1) :
    (w.applyDeltaAndSync delta acks).Publishes P := by
  refine ⟨hlast, fun snap hs => ?_⟩
  simp only [applyDeltaAndSync, ackEvents, mem_append, mem_map, publish_notMem_gate, publish_notMem_rewind,
    reduceCtorEq, and_false, exists_false, or_false, false_or] at hs
  split at hs
  · cases hs
  · exact ⟨_, hlast, publish.inj (mem_singleton.1 hs)⟩

variable (hP : Lasting wh P) {e : Engine}

include hP

theorem Lasting.quiet (hreach : Reaches wh Op.Quiet w.engine e)
    (hrep : Reports w.engine {} e {}) (h : P w) : P { w with engine := e } := by
  refine hP.other (hP.engine hreach hrep h) rfl ?_
  exact (filter_eq_self.2 fun _ _ => rfl).symm

theorem Lasting.synced (h : P w) (hreach : Reaches wh Op.Quiet w.engine w'.engine)
    (hrep : Reports w.engine {} w'.engine delta) (hb : w'.bindings = w.bindings) (acks : Bool) :
    (w'.applyDeltaAndSync delta acks).Publishes P := by
  refine publishes_delta (hP.other (hP.engine hreach hrep h) rfl ?_)
  show w'.bindings.filter _ = _
  rw [hb]

/-- The shape the retiring handlers share. -/
theorem Lasting.retire {es : List Effect} {f : Worker → Out}
    (hreach : Reaches wh Op.Quiet w.engine e) (hrep : Reports w.engine {} e delta)
    (hes : ∀ snap, publish snap ∉ es) (h : P w) (hf : ∀ w, P w → (f w).Publishes P) :
    (andThen ({ w with engine := e }, es) fun w => (w.applyDeltaAndSync delta false).andThen f).Publishes P :=
  .after hes ((hP.synced h hreach hrep (by rfl) false).andThen hf)

theorem Lasting.notification (h : P w) (n : DrainNotification) : (w.handleNotification n).Publishes P := by
  cases n with
  | delivered id c q es =>
    cases hb : w.engine.catalog.binding id with
    | none =>
      have heq : w.handleNotification (.delivered id c q es) = w.reverseDelivered c q es := by
        simp only [handleNotification, hb]
      rw [heq]
      apply Publishes.silent h
      intro snap hs
      simp [publish_notMem_rewind] at hs
    | some b =>
      have heq : w.handleNotification (.delivered id c q es) =
          ({ w with engine := w.engine.applyDelivered id es }.wheelInsertDelivered c es,
            w.reconcileDups c q (dupHashes b es)) := by
        simp only [handleNotification, hb]
      have hone : Reaches wh Op.Quiet w.engine (w.engine.applyDelivered id es) :=
        one (.execute (.delivered id es)) trivial
      have hwheel : ∀ w : Worker, (w.wheelInsertDelivered c es).engine = w.engine ∧
          (w.wheelInsertDelivered c es).bindings = w.bindings := by
        intro w
        unfold wheelInsertDelivered
        split <;> exact ⟨rfl, rfl⟩
      rw [heq]
      have hlast := hP.quiet hone (applyDelivered_reports id es) h
      refine Publishes.silent (hP.other hlast (hwheel _).1 (hwheel _).2) ?_
      intro snap hs
      unfold reconcileDups at hs
      split at hs
      · cases hs
      · simp at hs
  | connectionDead conn =>
    have hone : Reaches wh Op.Quiet w.engine (w.engine.markConnectionDead conn).1 :=
      one (.markConnectionDead conn) trivial
    exact hP.synced h hone (markConnectionDead_reports conn) (by rfl) false

theorem Lasting.ack (h : P w) (cmd : AckCmd) : (w.ackBody cmd).Publishes P := by
  have hset : Reaches wh Op.Quiet w.engine _ := settle_reaches w.engine cmd.connId cmd.consumerId cmd.entries
  apply Publishes.after
  · intro snap
    simp [publish_notMem_decMatched, publish_notMem_gate]
  · exact hP.synced h hset (settle_reports _ _ _) (by rfl) true

theorem Lasting.nack (h : P w) (cmd : NackCmd) : (w.nackBody cmd).Publishes P := by
  have hset : Reaches wh Op.Quiet w.engine _ := settle_reaches w.engine cmd.connId cmd.consumerId cmd.entries
  refine hP.retire hset (settle_reports _ _ _) (publish_notMem_decMatched _) h fun w hw => ?_
  split
  · exact Publishes.silent (hP.other hw rfl rfl) fun snap => not_mem_nil
  · apply Publishes.silent hw
    intro snap
    simp [publish_notMem_rewind, publish_notMem_gate]

theorem Lasting.unsubscribes (as : List ActiveBinding) {r : Out} (hr : r.Publishes P) :
    (as.foldl unsubscribeOne r).Publishes P := by
  induction as generalizing r with
  | nil => exact hr
  | cons a as ih =>
    apply ih
    apply hr.andThen
    intro w hw
    have hone : Reaches wh Op.Quiet w.engine (w.engine.unsubscribe a.bindingId).1 :=
      one (.unsubscribe a.bindingId) trivial
    exact .after (by simp) (hP.synced hw hone (retireBinding_reports w.engine a.bindingId {}) (by rfl) false)

theorem Lasting.unsubscribe (h : P w) (sid : SubscriptionId) : (w.handleUnsubscribe sid).Publishes P := by
  apply Publishes.andThen
  · exact hP.unsubscribes _ (Publishes.silent h fun snap => not_mem_nil)
  · exact fun w hw => publishes_rebuild hw

theorem Lasting.deleteStream (h : P w) (id : StreamId) : (w.handleDeleteStream id).Publishes P := by
  have hone : Reaches wh Op.Quiet w.engine (w.engine.deleteStream id).1 := one (.deleteStream id) trivial
  refine hP.retire hone (deleteStream_reports id) (by simp) h ?_
  exact fun w hw => publishes_rebuild (hP.other hw rfl rfl)

theorem Lasting.deleteConsumer (h : P w) (c : ConsumerId) : (w.handleDeleteConsumer c).Publishes P := by
  have hone : Reaches wh Op.Quiet w.engine (w.engine.deleteConsumer c).1 := one (.deleteConsumer c) trivial
  refine hP.retire hone (deleteConsumer_reports w.engine c) (by simp) h fun w hw => ?_
  have hlast : ∀ m, P { w with dlqNackCounts := m } := fun m => hP.other hw rfl rfl
  refine ⟨hlast _, fun snap hs => ⟨w, hw, ?_⟩⟩
  simp only [mem_cons, reduceCtorEq, false_or, not_mem_nil, or_false] at hs
  exact publish.inj hs

theorem Lasting.drainConnection (h : P w) (conn : ConnectionId) : (w.drainConnectionBody conn).Publishes P := by
  have hone : Reaches wh Op.Quiet w.engine (w.engine.markConnectionDead conn).1 :=
    one (.markConnectionDead conn) trivial
  refine hP.retire hone (markConnectionDead_reports conn) (by simp) h ?_
  exact fun w hw => publishes_rebuild hw

theorem Lasting.timers (h : P w) (due : List WheelEntry) : (w.wheelAdvance due).Publishes P := by
  have hdecs : ∀ (ts : List WheelEntry) (x : Expired), (P x.worker ∧ ∀ snap, publish snap ∉ x.decs) →
      P (ts.foldl expireEntry x).worker ∧ ∀ snap, publish snap ∉ (ts.foldl expireEntry x).decs := by
    intro ts
    induction ts with
    | nil => intro x hx; exact hx
    | cons t ts ih =>
      intro x hx
      apply ih
      unfold expireEntry
      split
      · exact hx
      split
      · refine ⟨hP.quiet (settle_reaches _ _ _ _) (settle_reports _ _ _) hx.1, fun snap => ?_⟩
        simp only
        split
        · simp [hx.2 snap]
        · exact hx.2 snap
      · exact hx
  apply Publishes.andThen
  · obtain ⟨hw, hes⟩ := hdecs (due.bagInter w.wheel) { worker := { w with wheel := w.wheel.diff (due.bagInter w.wheel) } }
      ⟨hP.other h rfl rfl, fun snap => not_mem_nil⟩
    exact Publishes.silent hw hes
  intro w hw
  apply Publishes.andThen
  · unfold syncExpired
    split
    · exact Publishes.silent hw fun snap => not_mem_nil
    · exact publishes_delta (hP.other (hP.fewer _ hw) rfl rfl)
  · intro w hw
    apply Publishes.silent hw
    intro snap
    simp [publish_notMem_rewind, publish_notMem_gate]

end Worker

/-- A command that makes a binding. -/
def Job.Binds : Job → Prop
  | .subscribe _ => True
  | .bind _ => True
  | _ => False

namespace Worker

variable {wh : WireHash} {w w' : Worker} {P : Worker → Prop} {snap : DrainSnapshot} {j : Job}

theorem publish_of_subscribe (cmd : SubscribeCmd)
    (hs : publish snap ∈ (w.handleSubscribe wh cmd).2) : snap = (w.handleSubscribe wh cmd).1.snapshot := by
  revert hs
  unfold handleSubscribe andThen
  simp only
  split
  · split <;> simp [addBinding]
  · simp

theorem publish_of_bind (cmd : BindCmd)
    (hs : publish snap ∈ (w.handleBind cmd).2) : snap = (w.handleBind cmd).1.snapshot := by
  revert hs
  unfold handleBind andThen
  simp only
  split <;> simp [addBinding]

/-- **What a handler publishes.** -/
theorem Lasting.exec (hP : Lasting wh P) (h : P w) (hnew : j.Binds → P (w.exec wh j).1) :
    (w.exec wh j).Publishes P := by
  have hengine : ∀ {w : Worker} (op : Op), op.Quiet w.engine →
      w.engine.catalog.SameBindings (w.engine.step wh op).catalog → P w → P { w with engine := w.engine.step wh op } :=
    fun _ hop hs hw => hP.quiet (one _ hop) (.of_same hs) hw
  cases j with
  | ack cmd => exact hP.ack h cmd
  | nack cmd => exact hP.nack h cmd
  | subscribe cmd => exact ⟨hnew trivial, fun snap hs => ⟨_, hnew trivial, publish_of_subscribe cmd hs⟩⟩
  | unsubscribe sid => exact hP.unsubscribe h sid
  | bind cmd => exact ⟨hnew trivial, fun snap hs => ⟨_, hnew trivial, publish_of_bind cmd hs⟩⟩
  | createStream config maxAge last =>
    have hs := (same_withCatalog w.engine (r := w.engine.catalog.ensureStream config) fun _ => Catalog.ensureStream_entities).1
    have hw := hengine (.createStream config) trivial hs h
    show (w.handleCreateStream config maxAge last).Publishes P
    unfold handleCreateStream
    simp only
    split
    · exact publishes_rebuild (hP.other hw rfl rfl)
    · exact Publishes.silent hw fun snap => not_mem_nil
  | deleteStream id => exact hP.deleteStream h id
  | createConsumer config limits =>
    have hs := (same_handleCreateConsumer wh w config limits).1
    have hlast := hP.quiet (createConsumer_reaches w config limits) (.of_same hs) h
    exact Publishes.silent (hP.other hlast rfl rfl) fun snap => not_mem_nil
  | deleteConsumer c => exact hP.deleteConsumer h c
  | openConnection conn node =>
    exact Publishes.silent (hengine (.openConnection conn node) trivial ⟨rfl, rfl, rfl, rfl, rfl⟩ h)
      fun snap => not_mem_nil
  | drainConnection conn => exact hP.drainConnection h conn
  | setPaused c paused =>
    have hw : P { w with engine := (w.engine.setPaused c paused).1 } := by
      cases paused with
      | true => exact hengine (.pauseConsumer c) trivial ⟨rfl, rfl, rfl, rfl, rfl⟩ h
      | false => exact hengine (.resumeConsumer c) trivial ⟨rfl, rfl, rfl, rfl, rfl⟩ h
    apply Publishes.silent hw
    intro snap
    split
    · simp [publish_notMem_gate]
    · simp
  | loadStreamLifecycle births => exact publishes_rebuild (hP.other h rfl rfl)
  | timers due => exact hP.timers h due

/-! ## What handlers do to the engine -/

open Engine (Reaches)

theorem reaches_lasting (e : Engine) {ok : Engine → Op → Prop} (hok : ∀ e op, Op.Quiet e op → ok e op) :
    Lasting wh fun w => Reaches wh ok e w.engine where
  engine hreach _ h := h.trans (hreach.mono hok)
  fewer _ h := h
  other h he _ := by rw [he]; exact h

/-- **A handler reaches its engine's next state by operations of the facade.** -/
theorem exec_reaches (hfresh : j.FreshId w) : Reaches wh Op.FreshId w.engine (w.exec wh j).1.engine := by
  refine ((reaches_lasting w.engine Op.Quiet.freshId).exec (refl _ _ _) fun hb => ?_).1
  cases j with
  | subscribe cmd => exact subscribe_reaches hfresh
  | bind cmd =>
    show Reaches wh _ _ (w.handleBind cmd).1.engine
    rw [(handleBind_eq cmd).1]
    exact one (.subscribe cmd.connectionId cmd.subscriptionId) hfresh
  | _ => exact hb.elim

end Worker

/-! ## The command task -/

namespace CommandTask

open Worker (Lasting)

variable {wh : WireHash} {t : CommandTask} {P : Worker → Prop}

/-- A snapshot of a worker with the property. -/
def From (P : Worker → Prop) (snap : DrainSnapshot) : Prop := ∃ w, P w ∧ snap = w.snapshot

/-- The worker has the property, and what is still to be published comes from such
workers. -/
structure Publishing (P : Worker → Prop) (t : CommandTask) : Prop where
  worker : P t.worker
  queued : ∀ snap, Work.effect (.publish snap) ∈ t.todo → From P snap

/-- A command that makes a binding leaves the property. -/
def Binding (wh : WireHash) (P : Worker → Prop) (t : CommandTask) : CommandAction → Prop
  | .work _ _ => ∀ j rest, t.todo = .job j :: rest → j.Binds → P (t.worker.exec wh j).1
  | _ => True

theorem plan_effect (w : Worker) (j : Job) (e : Effect) : Work.effect e ∉ (plan w j).2 := by
  unfold plan
  split
  · split <;> simp
  · split <;> simp
  · simp
  · simp

theorem queued_append {r : Out} {rest : List Work} (hr : r.Publishes P)
    (hrest : ∀ snap, Work.effect (.publish snap) ∈ rest → From P snap) (snap : DrainSnapshot)
    (hs : Work.effect (.publish snap) ∈ r.2.map .effect ++ rest) : From P snap := by
  rcases mem_append.1 hs with hs | hs
  · obtain ⟨e, he, heq⟩ := mem_map.1 hs
    cases heq
    exact hr.2 snap he
  · exact hrest snap hs

/-- **What one step of the command task publishes.** -/
theorem Publishing.step (hP : Lasting wh P) (h : t.Publishing P) {a : CommandAction} (ha : t.Binding wh P a) :
    (t.next wh a).Publishing P ∧ ∀ snap, Signal.shared (.publish snap) ∈ (t.step wh a).2 → From P snap := by
  unfold next CommandTask.step
  cases a with
  | start j =>
    simp only
    split
    · refine ⟨⟨hP.other h.worker (plan_same _ _).1 (plan_same _ _).2, fun snap hs => ?_⟩, nofun⟩
      exact absurd hs (plan_effect _ _ _)
    · exact ⟨h, nofun⟩
  | loopTop =>
    simp only
    split
    · refine ⟨⟨h.worker, fun snap hs => ?_⟩, nofun⟩
      simp at hs
    · exact ⟨h, nofun⟩
  | work room popped =>
    cases htodo : t.todo with
    | nil => exact ⟨h, nofun⟩
    | cons x rest =>
      have hrest : ∀ snap, Work.effect (.publish snap) ∈ rest → From P snap :=
        fun snap hs => h.queued snap (by rw [htodo]; exact mem_cons_of_mem x hs)
      have hnext : ∀ {y : Work}, (∀ e, y ≠ .effect e) → ∀ snap, Work.effect (.publish snap) ∈ y :: rest → From P snap :=
        fun hy snap hs => hrest snap ((mem_cons.1 hs).resolve_left (hy _).symm)
      cases x with
      | effect e =>
        refine ⟨⟨h.worker, hrest⟩, fun snap hs => ?_⟩
        simp only [perform, mem_append, mem_map, reduceCtorEq, and_false, exists_false, mem_singleton,
          Signal.shared.injEq, false_or] at hs
        exact h.queued snap (by rw [htodo, hs]; exact mem_cons_self)
      | popNotifications =>
        cases popped with
        | none => exact ⟨⟨h.worker, hrest⟩, nofun⟩
        | some n =>
          have hn := hP.notification h.worker n
          exact ⟨⟨hn.1, queued_append hn (hnext nofun)⟩, nofun⟩
      | job j =>
        have hj := hP.exec h.worker (ha j rest htodo)
        exact ⟨⟨hj.1, queued_append hj hrest⟩, nofun⟩
      | retryAcks released sentAny =>
        have hend : ∀ snap, Work.effect (.publish snap) ∈ (perform.retryEnd released sentAny).map .effect ++ rest →
            From P snap := by
          refine queued_append (r := (t.worker, perform.retryEnd released sentAny)) (.silent h.worker fun snap hs => ?_) hrest
          unfold perform.retryEnd at hs
          simp [publish_notMem_rewind, publish_notMem_gate] at hs
        simp only [perform]
        split
        · split
          · exact ⟨⟨h.worker, hnext nofun⟩, fun snap hs => by simp at hs⟩
          · exact ⟨⟨h.worker, hend⟩, nofun⟩
        · exact ⟨⟨h.worker, hend⟩, nofun⟩
      | retryRemoves i =>
        simp only [perform]
        split
        · exact ⟨⟨h.worker, hrest⟩, nofun⟩
        · split
          · exact ⟨⟨h.worker, hnext nofun⟩, fun snap hs => by simp at hs⟩
          · exact ⟨⟨h.worker, hnext nofun⟩, nofun⟩

/-- **The engine of the command task is always one that the facade's operations reach.** -/
theorem run_reaches (as : List CommandAction) (hg : Run.Guarded (next wh) FreshId {} as) :
    Reaches wh Op.FreshId .new (as.foldl (next wh) {}).worker.engine := by
  let P : Worker → Prop := fun w => Reaches wh Op.FreshId .new w.engine
  have hP : Lasting wh P := reaches_lasting .new Op.Quiet.freshId
  have hstep : ∀ (t : CommandTask) a, t.Publishing P → t.FreshId a → (t.next wh a).Publishing P := by
    intro t a ht ha
    refine (ht.step hP ?_).1
    cases a with
    | work room popped => exact fun j rest htodo _ => ht.worker.trans (exec_reaches (ha j rest htodo))
    | _ => trivial
  exact (Run.invariant hstep as {} ⟨refl _ _ _, nofun⟩ hg).worker

end CommandTask

/-! ## Published snapshots -/

/-- The tables of the worker's catalog are tidy. -/
def Worker.Tidy (w : Worker) : Prop := w.engine.catalog.Tidy

/-- They list the subscriptions of their streams. -/
def Worker.Filed (wh : WireHash) (w : Worker) : Prop := w.engine.catalog.Filed wh

theorem Engine.Reaches.filed {wh : WireHash} {ok : Engine → Op → Prop} {a b : Engine}
    (h : Reaches wh ok a b) (ha : a.catalog.Filed wh) : b.catalog.Filed wh := by
  apply h.invariant (fun e op he _ => ?_) ha
  exact filed_step he op

theorem Worker.filed_lasting (wh : WireHash) : Lasting wh (Filed wh) where
  engine hreach _ h := hreach.filed h
  fewer _ h := h
  other h he _ := by unfold Filed; rw [he]; exact h

theorem Worker.Filed.binds {wh : WireHash} {w : Worker} (h : w.Filed wh) {j : Job} (hj : j.Binds) :
    (w.exec wh j).1.Filed wh := by
  cases j with
  | subscribe cmd =>
    have hens : (w.ensured wh cmd).catalog.Filed wh := (ensured_reaches w cmd).filed h
    show (w.handleSubscribe wh cmd).1.engine.catalog.Filed wh
    obtain ⟨he | he, -, -⟩ := handleSubscribe_eq wh w cmd
    · rw [he]
      exact hens
    · rw [he]
      exact hens.subscribe _ _ {}
  | bind cmd =>
    show (w.handleBind cmd).1.engine.catalog.Filed wh
    rw [(handleBind_eq cmd).1]
    exact Catalog.Filed.subscribe h _ _ {}
  | _ => exact hj.elim

/-- The snapshot of a worker with tidy tables is well formed. -/
theorem CommandTask.From.published {snap : DrainSnapshot} (h : CommandTask.From Tidy snap) : snap.Published := by
  obtain ⟨w, hw, rfl⟩ := h
  exact ⟨w.bindings, _, _, fun st mt hmt => (hw st mt hmt).unstamped, rfl⟩

end Arbitro
