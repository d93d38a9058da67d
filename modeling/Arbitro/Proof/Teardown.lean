import Arbitro.Proof.Admin
import Arbitro.Proof.Attached
import Arbitro.Proof.Cron
import Arbitro.Server.Connections

/-!
# What is left of a connection

A `Disconnect` frame clears everything that is kept under the id of its connection. The end of the
read loop drains the shards and drops the session, but keeps the crons and the translations.

* `Hub.Forgotten`: nothing refers to a connection.
* `Hub.others_leave_untouched`: what others do brings nothing to a connection.
* `Hub.forgotten_leave_iff`: what the end of the read loop leaves.
* `Hub.ended_forgotten`: in runs whose read loops end with crons and translations cleared, nothing
  refers to a connection that has ended.
* `Hub.unsubscribe_spares_iff`: whose bindings an `Unsubscribe` takes.
-/

namespace Arbitro

open Function NameRegistry Worker List CronRegistry

variable {wh : WireHash}

namespace Worker

variable {w : Worker} {conn : ConnectionId}

/-- A command is refused, or its body runs on the same bindings. -/
theorem command_cases {j : Job} : w.command wh j = w ∨
    ∃ (w' : Worker) (j' : Job), w'.engine = w.engine ∧ w'.bindings = w.bindings ∧ (j' = j ∨ ∃ cmd, j' = .nack cmd) ∧
      w.command wh j = (w'.exec wh j').1 := by
  cases j with
  | ack cmd =>
    unfold command CommandTask.plan
    by_cases hown : w.connectionOwns cmd.connId cmd.consumerId cmd.entries
    · simp only [if_pos hown]
      exact .inr ⟨w, _, rfl, rfl, .inl rfl, rfl⟩
    · simp only [if_neg hown]
      exact .inl rfl
  | nack cmd =>
    unfold command CommandTask.plan
    by_cases hown : w.connectionOwns cmd.connId cmd.consumerId cmd.entries
    · simp only [if_pos hown]
      refine .inr ⟨(w.nackCheck cmd).1, _, ?_, ?_, .inr ⟨_, rfl⟩, rfl⟩
      · unfold nackCheck
        simp only
        split <;> rfl
      · unfold nackCheck
        simp only
        split <;> rfl
    · simp only [if_neg hown]
      exact .inl rfl
  | _ => exact .inr ⟨w, _, rfl, rfl, .inl rfl, rfl⟩

theorem Attached.command (h : w.Attached) (j : Job) : (w.command wh j).Attached := by
  rcases command_cases with heq | ⟨w', j', he, hb, -, heq⟩
  · rw [heq]
    exact h
  · rw [heq]
    exact Attached.exec ((attached_lasting wh).other h he hb) j'

theorem Free.command (h : w.Free conn) {j : Job} (hj : ¬ j.BindsFor conn) : (w.command wh j).Free conn := by
  rcases command_cases with heq | ⟨w', j', he, hb, hj', heq⟩
  · rw [heq]
    exact h
  rw [heq]
  apply ((free_lasting wh conn).other h he hb).exec
  rcases hj' with rfl | ⟨cmd, rfl⟩
  · exact hj
  · exact fun hbind => hbind

end Worker

/-! ## Management requests -/

section Tame

variable (wh) (e : Engine)

/-- The engine went on without a change to its bindings. -/
structure Engine.Tame (wh : WireHash) (e e' : Engine) : Prop where
  reaches : Reaches wh Op.Quiet e e'
  same : e.catalog.SameBindings e'.catalog

theorem Engine.Tame.refl : Engine.Tame wh e e := ⟨.refl _ _ _, .refl _⟩

theorem Engine.Tame.createStream (config : StreamConfig) : Engine.Tame wh e (e.createStream config).1 :=
  ⟨.one (.createStream config) trivial, (Engine.same_withCatalog e fun _ => Catalog.ensureStream_entities).1⟩

theorem Engine.Tame.createConsumer (config : ConsumerConfig) : Engine.Tame wh e (e.createConsumer config).1 :=
  ⟨.one (.createConsumer config) trivial, (same_createConsumer config).1⟩

theorem Engine.Tame.setLimits {wh : WireHash} {e e' : Engine} (h : Engine.Tame wh e e') (stream : StreamId)
    (limits : List (Bytes × ℕ)) : Engine.Tame wh e (e'.setLimits wh stream limits) :=
  ⟨h.reaches.trans (limits_reaches stream limits e'), h.same.trans (same_setLimits wh stream limits).1⟩

end Tame

namespace AdminBroker

variable {b b' : AdminBroker}

/-- A request that retires no binding and translates no subscription. -/
structure Tame (wh : WireHash) (b b' : AdminBroker) : Prop where
  engines : ∀ i, Engine.Tame wh (b.engines i) (b'.engines i)
  translations : b'.names.subscriptionsByConn = b.names.subscriptionsByConn

theorem Tame.names (wh : WireHash) (b : AdminBroker) {names : NameRegistry}
    (h : names.subscriptionsByConn = b.names.subscriptionsByConn) : Tame wh b { b with names := names } :=
  ⟨fun _ => .refl _ _, h⟩

theorem tame_setEngine {i : ℕ} {e : Engine} (he : Engine.Tame wh (b.engines i) e) (hi : b'.engines = update b.engines i e)
    (ht : b'.names.subscriptionsByConn = b.names.subscriptionsByConn) : Tame wh b b' := by
  refine ⟨?_, ht⟩
  rw [hi]
  exact (forall_update_iff b.engines (p := fun k e' => Engine.Tame wh (b.engines k) e')).2 ⟨he, fun _ _ => .refl _ _⟩

end AdminBroker

namespace NameRegistry

variable (r : NameRegistry) (stream : StreamId)

theorem translations_removeConsumerById {id : ConsumerId} :
    (r.removeConsumerById id).subscriptionsByConn = r.subscriptionsByConn := by
  unfold removeConsumerById
  split <;> rfl

theorem translations_removeConsumers {ids : List ConsumerId} (r : NameRegistry) :
    (ids.foldl removeConsumerById r).subscriptionsByConn = r.subscriptionsByConn :=
  foldlRecOn ids removeConsumerById (motive := (·.subscriptionsByConn = r.subscriptionsByConn)) rfl fun x h _ _ =>
    (translations_removeConsumerById x).trans h

theorem translations_removeStream {wire : SubjectHash} :
    (r.removeStream wire).subscriptionsByConn = r.subscriptionsByConn := by
  unfold removeStream
  split <;> rfl

end NameRegistry

namespace AdminBroker

variable {b b' : AdminBroker} {req : CreateConsumerReq} {journalTail : ℕ} {quota : Bool}

theorem tame_createStream {req : CreateStreamReq} : Tame wh b (b.createStream wh req quota).1 := by
  have hrefl : Tame wh b b := ⟨fun _ => .refl _ _, rfl⟩
  unfold createStream
  split
  · exact hrefl
  split
  · exact hrefl
  split
  · exact hrefl
  split
  · exact hrefl
  · exact hrefl
  · exact hrefl
  next id created names hok =>
  have ht : names.subscriptionsByConn = b.names.subscriptionsByConn := by
    unfold getOrCreateStreamChecked at hok
    repeat' split at hok
    all_goals first
      | cases hok; rfl
      | cases hok
  split
  · exact .names wh b ht
  · next engine _ heq =>
    have htame := Engine.Tame.createStream wh (b.engines (b.shardFor id)) ⟨id, req.name⟩
    rw [heq] at htame
    exact tame_setEngine htame rfl ht

theorem tame_engineCreate {stream : StreamId} {c : ConsumerId}
    {filter : Bytes} : Tame wh b (b.engineCreate wh req stream c filter journalTail).1 := by
  have hq : (req.queue b.names stream).2.subscriptionsByConn = b.names.subscriptionsByConn := by
    obtain ⟨keys, next, heq⟩ := req.queue_eq b.names stream
    rw [heq]
  unfold engineCreate
  simp only
  split
  · exact .names wh b hq
  next engine new heq =>
  have htame : Engine.Tame wh (b.engines (b.shardFor stream))
      (if new then engine.setLimits wh stream req.limits else engine) := by
    have hcreate := Engine.Tame.createConsumer wh (b.engines (b.shardFor stream)) (req.config c
      (req.queue b.names stream).1 stream req.effectiveMaxInflight (req.maxNack.getD 0) filter)
    rw [heq] at hcreate
    split
    · exact hcreate.setLimits _ _
    · exact hcreate
  exact tame_setEngine htame rfl hq

theorem Tame.trans_names {b₁ : AdminBroker} (h : Tame wh b₁ b') (he : b₁.engines = b.engines)
    (ht : b₁.names.subscriptionsByConn = b.names.subscriptionsByConn) : Tame wh b b' :=
  ⟨fun i => he ▸ h.engines i, h.translations.trans ht⟩

theorem tame_createConsumer : Tame wh b (b.createConsumer wh req quota journalTail).1 := by
  rw [createConsumer_eq]
  split
  · exact .names wh b rfl
  next stream _ =>
  have ht : (b.names.getOrCreateConsumer stream req.name).2.subscriptionsByConn = b.names.subscriptionsByConn := by
    unfold getOrCreateConsumer
    repeat' split
    all_goals rfl
  split
  · exact .names wh b ht
  split
  · exact .names wh b ht
  · exact tame_engineCreate.trans_names rfl ht

end AdminBroker

/-! ## Crons -/

namespace CronSlot

variable {s : CronSlot} {conn : ConnectionId}

theorem refersTo_iff : s.refersTo conn = true ↔ conn ∈ s.connections ∨ s.runningConn = some conn := by
  simp [refersTo]

theorem refersTo_clearRunning (h : s.clearRunning.refersTo conn = true) : s.refersTo conn = true := by
  rw [refersTo_iff] at h ⊢
  rcases h with h | h
  · exact .inl h
  · cases h

theorem not_refersTo_removeConnection (s : CronSlot) (conn : ConnectionId) :
    ¬ (s.removeConnection conn).refersTo conn = true := by
  have hnot : conn ∉ s.connections.filter (· != conn) := by simp
  rw [refersTo_iff]
  unfold removeConnection
  simp only
  split
  · rintro (h | h)
    · exact hnot h
    · cases h
  · next hrun =>
    rintro (h | h)
    · exact hnot h
    · exact hrun h

theorem refersTo_removeConnection {other : ConnectionId} (h : (s.removeConnection conn).refersTo other = true) :
    s.refersTo other = true := by
  have hcut : ({ s with
      connections := s.connections.filter (· != conn)
      cursor := if 0 < s.cursor ∧ (s.connections.filter (· != conn)).length ≤ s.cursor then 0 else s.cursor } :
      CronSlot).refersTo other = true → s.refersTo other = true := by
    rw [refersTo_iff, refersTo_iff]
    rintro (h | h)
    · exact .inl (mem_of_mem_filter h)
    · exact .inr h
  unfold removeConnection at h
  simp only at h
  split at h
  · exact hcut (refersTo_clearRunning h)
  · exact hcut h

theorem refersTo_tick {elapsed due : Bool} (h : (s.tick elapsed due).2.refersTo conn = true) : s.refersTo conn = true := by
  have htimeout : (s.checkTimeout elapsed).refersTo conn = true → s.refersTo conn = true := by
    unfold checkTimeout
    split
    · exact refersTo_clearRunning
    · exact id
  apply htimeout
  rcases s.tick_cases elapsed due with ⟨worker, hworker, cursor, -, heq⟩ | ⟨-, heq⟩ | heq
  · -- the fire goes to one of the workers
    rw [heq, refersTo_iff] at h
    rw [refersTo_iff]
    rcases h with h | h
    · exact .inl h
    · cases h
      refine .inl ?_
      unfold checkTimeout
      split
      · exact hworker
      · exact hworker
  · rw [heq] at h
    exact refersTo_clearRunning h
  · rw [heq] at h
    exact h

end CronSlot

namespace CronRegistry

variable {r r' : CronRegistry} {conn other : ConnectionId} {name n : Bytes}

theorem refersAt_create {validCron : Bytes → Bool} {req : CreateCronReq} (hr : r.create validCron req conn = .ok r')
    (hne : other ≠ conn) (h : r'.RefersAt name other) : r.RefersAt name other := by
  obtain ⟨slot, hslot, href⟩ := h
  have hnew : ((r.create validCron req conn).toOption.getD r).lookup name = some slot := by rw [hr]; exact hslot
  rcases of_create hnew with hold | ⟨-, -, rfl⟩ | ⟨old, hold, rfl⟩
  · exact ⟨slot, hold, href⟩
  · rw [CronSlot.refersTo_iff] at href
    rcases href with href | href
    · exact absurd (mem_singleton.1 href) hne
    · cases href
  · refine ⟨old, hold, ?_⟩
    rw [CronSlot.refersTo_iff] at href ⊢
    rcases href with href | href
    · rcases mem_append.1 href with href | href
      · exact .inl href
      · exact absurd (mem_singleton.1 href) hne
    · exact .inr href

theorem refersAt_delete (h : (r.delete n).RefersAt name conn) : r.RefersAt name conn := by
  obtain ⟨slot, hslot, href⟩ := h
  exact ⟨slot, (Map.of_lookup_erase hslot).2, href⟩

theorem refersAt_ack (h : (r.ack n).RefersAt name conn) : r.RefersAt name conn := by
  obtain ⟨slot, hslot, href⟩ := h
  rcases of_ack hslot with ⟨-, old, hold, rfl⟩ | ⟨-, hold⟩
  · exact ⟨old, hold, CronSlot.refersTo_clearRunning href⟩
  · exact ⟨slot, hold, href⟩

theorem refersAt_tick {elapsed due : Bytes → Bool} (h : (r.tick elapsed due).2.RefersAt name conn) :
    r.RefersAt name conn := by
  obtain ⟨slot, hslot, href⟩ := h
  obtain ⟨old, hold, rfl⟩ := of_tick hslot
  exact ⟨old, hold, CronSlot.refersTo_tick href⟩

theorem not_refersTo_removeConnection (r : CronRegistry) (conn : ConnectionId) :
    ¬ (r.removeConnection conn).RefersTo conn := by
  rintro ⟨name, slot, hslot, href⟩
  obtain ⟨old, -, rfl⟩ := of_removeConnection hslot
  exact CronSlot.not_refersTo_removeConnection old conn href

theorem refersAt_removeConnection (h : (r.removeConnection conn).RefersAt name other) : r.RefersAt name other := by
  obtain ⟨slot, hslot, href⟩ := h
  obtain ⟨old, hold, rfl⟩ := of_removeConnection hslot
  exact ⟨old, hold, CronSlot.refersTo_removeConnection href⟩

end CronRegistry

/-! ## The connection registry -/

namespace ConnectionRegistry

variable {r : ConnectionRegistry} {conn other : ConnectionId}

/-- The registry changed under one connection only. -/
structure Leaves (conn : ConnectionId) (r r' : ConnectionRegistry) : Prop where
  nextConn : r'.nextConn = r.nextConn
  sessions : ∀ other ≠ conn, other ∈ r'.sessions → other ∈ r.sessions
  quotas : ∀ other ≠ conn, r.quotas.lookup other = none → r'.quotas.lookup other = none

theorem Leaves.refl : Leaves conn r r :=
  ⟨rfl, fun _ _ h => h, fun _ _ h => h⟩

theorem leaves_insert {q : ConnQuota} : Leaves conn r { r with quotas := r.quotas.insert conn q } :=
  ⟨rfl, fun _ _ h => h, fun _ hne h => (AList.lookup_insert_ne hne).trans h⟩

variable (r conn) (who : ConnectionId) (kind : QuotaKind)

theorem leaves_checkAndIncrQuota : Leaves conn r (r.checkAndIncrQuota conn kind).2 := by
  unfold checkAndIncrQuota
  simp only
  split
  · exact .refl
  split
  · exact leaves_insert
  · exact leaves_insert

theorem leaves_releaseQuota : Leaves conn r (r.releaseQuota conn kind) := by
  unfold releaseQuota
  split
  · exact .refl
  · exact leaves_insert

/-- To remove a connection is nobody's business but its own, and even of one that has gone. -/
theorem leaves_remove : Leaves who r (r.remove conn) := by
  refine ⟨rfl, fun _ _ h => mem_of_mem_filter h, fun other _ h => ?_⟩
  show (r.quotas.erase conn).lookup other = none
  rw [Map.lookup_erase_eq, h]
  split <;> rfl

theorem leaves_dropSession : Leaves who r (r.dropSession conn) :=
  ⟨rfl, fun _ _ h => mem_of_mem_filter h, fun _ _ h => h⟩

variable {r conn} in
theorem Leaves.trans {r' r'' : ConnectionRegistry} (h : Leaves conn r r') (h' : Leaves conn r' r'') : Leaves conn r r'' :=
  ⟨h'.nextConn.trans h.nextConn, fun other hne hmem => h.sessions other hne (h'.sessions other hne hmem),
    fun other hne hq => h'.quotas other hne (h.quotas other hne hq)⟩

end ConnectionRegistry

/-! ## Frames -/

namespace Hub

variable {validCron : Bytes → Bool} {h h' h'' : Hub} {conn other : ConnectionId} (i : ℕ)

/-- **What an action of one connection may do to the rest.** -/
structure Leaves (conn : ConnectionId) (h h' : Hub) : Prop where
  shardCount : h'.shardCount = h.shardCount
  reading : h'.reading = h.reading
  attached : ∀ i, (h.workers i).Attached → (h'.workers i).Attached
  free : ∀ other ≠ conn, ∀ i, (h.workers i).Free other → (h'.workers i).Free other
  crons : ∀ other ≠ conn, ∀ name, h'.crons.RefersAt name other → h.crons.RefersAt name other
  translations : ∀ other ≠ conn, ∀ client,
    h'.names.subscriptionsByConn.lookup (other, client) = h.names.subscriptionsByConn.lookup (other, client)
  registry : h.registry.Leaves conn h'.registry

namespace Leaves

theorem refl : Leaves conn h h :=
  ⟨rfl, rfl, fun _ ha => ha, fun _ _ _ hf => hf, fun _ _ _ hr => hr, fun _ _ _ => rfl, .refl⟩

theorem trans (hl : Leaves conn h h') (hl' : Leaves conn h' h'') : Leaves conn h h'' where
  shardCount := hl'.shardCount.trans hl.shardCount
  reading := hl'.reading.trans hl.reading
  attached i ha := hl'.attached i (hl.attached i ha)
  free other hne i hf := hl'.free other hne i (hl.free other hne i hf)
  crons other hne name hr := hl.crons other hne name (hl'.crons other hne name hr)
  translations other hne client := (hl'.translations other hne client).trans (hl.translations other hne client)
  registry := hl.registry.trans hl'.registry

theorem worker {w : Worker} (ha : (h.workers i).Attached → w.Attached)
    (hf : ∀ other ≠ conn, (h.workers i).Free other → w.Free other) :
    Leaves conn h { h with workers := update h.workers i w } := by
  have hall : ∀ P : Worker → Prop, (P (h.workers i) → P w) → ∀ k, P (h.workers k) → P (update h.workers i w k) :=
    fun P hw => (forall_update_iff h.workers (p := fun k w' => P (h.workers k) → P w')).2 ⟨hw, fun _ _ hk => hk⟩
  exact ⟨rfl, rfl, hall _ ha, fun other hne => hall _ (hf other hne), fun _ _ _ hr => hr, fun _ _ _ => rfl, .refl⟩

theorem exec {j : Job} (hj : ∀ other ≠ conn, ¬ j.BindsFor other) : Leaves conn h (h.exec wh i j) :=
  .worker i (fun ha => ha.command j) fun other hne hf => hf.command (hj other hne)

theorem names {names : NameRegistry} (ht : ∀ other ≠ conn, ∀ client,
      names.subscriptionsByConn.lookup (other, client) = h.names.subscriptionsByConn.lookup (other, client)) :
    Leaves conn h { h with names := names } :=
  ⟨rfl, rfl, fun _ ha => ha, fun _ _ _ hf => hf, fun _ _ _ hr => hr, ht, .refl⟩

theorem withCrons {crons : CronRegistry}
    (hc : ∀ other ≠ conn, ∀ name, crons.RefersAt name other → h.crons.RefersAt name other) : Leaves conn h { h with crons := crons } :=
  ⟨rfl, rfl, fun _ ha => ha, fun _ _ _ hf => hf, hc, fun _ _ _ => rfl, .refl⟩

theorem withRegistry {registry : ConnectionRegistry} (hr : h.registry.Leaves conn registry) :
    Leaves conn h { h with registry := registry } :=
  ⟨rfl, rfl, fun _ ha => ha, fun _ _ _ hf => hf, fun _ _ _ hr => hr, fun _ _ _ => rfl, hr⟩

theorem administered {b : AdminBroker} (hb : AdminBroker.Tame wh h.admin b) : Leaves conn h (h.administered b) := by
  refine ⟨rfl, rfl, fun i ha => ?_, fun other _ i hf => ?_, fun _ _ _ hr => hr, fun _ _ _ => ?_, .refl⟩
  · exact (attached_lasting wh).quiet (hb.engines i).reaches (.of_same (hb.engines i).same) ha
  · exact (free_lasting wh other).quiet (hb.engines i).reaches (.of_same (hb.engines i).same) hf
  · exact congrArg (AList.lookup _) hb.translations

end Leaves

theorem lookup_resolveSubscription {r : NameRegistry} {client : ℕ} {key : ConnectionId × ℕ}
    (hne : key.1 ≠ conn) : (r.resolveSubscription conn client).2.subscriptionsByConn.lookup key =
      r.subscriptionsByConn.lookup key := by
  unfold resolveSubscription
  split
  · rfl
  · exact AList.lookup_insert_ne fun heq => hne (congrArg Prod.fst heq)

variable (h conn) (r : ConnectionRegistry)

theorem leaves_subscribeOne (req : SubscribeReq) : Leaves conn h (h.subscribeOne wh conn req) := by
  unfold subscribeOne
  split
  · exact .refl
  split
  · exact .refl
  next stream _ =>
  have ht : (h.admin.servedBy stream req.consumerId).2.subscriptionsByConn = h.names.subscriptionsByConn := by
    obtain ⟨keys, next, heq⟩ := h.admin.servedBy_eq stream req.consumerId
    rw [heq]
    rfl
  simp only
  split
  · exact .names fun _ _ _ => congrArg (AList.lookup _) ht
  · refine (Leaves.names fun other hne client => ?_).trans (.exec _ fun other hne heq => hne heq.symm)
    rw [lookup_resolveSubscription hne]
    exact congrArg (AList.lookup _) ht

/-- The shard's handler does to its engine what the management model says. -/
theorem engine_handleSubscribe {w : Worker} {cmd : SubscribeCmd}
    (hs : cmd.streamConfig = ⟨cmd.subscriptionConfig.streamId, []⟩) :
    (w.handleSubscribe wh cmd).1.engine =
      (AdminBroker.handleSubscribe wh w.engine cmd.connectionId cmd.consumerConfig cmd.subscriptionConfig).1 := by
  rw [AdminBroker.handleSubscribe_eq]
  unfold Worker.handleSubscribe
  rw [hs]
  simp only
  split
  · next hok =>
    refine Eq.trans ?_ (if_pos hok).symm
    split <;> rfl
  · next hno => exact (if_neg hno).symm

/-- **The broker of the management requests sees a subscribe as its own model has it.** -/
theorem admin_subscribeOne {req : SubscribeReq} :
    (h.subscribeOne wh conn req).admin = (h.admin.subscribe wh conn req).1 := by
  unfold subscribeOne
  by_cases hvalid : (req.filters.any fun f => !f.isEmpty && !validateSubject f) = true
  · unfold AdminBroker.subscribe
    rw [if_pos hvalid, if_pos hvalid]
  rw [if_neg hvalid]
  cases hstream : h.names.consumerStream req.consumerId with
  | none =>
    unfold AdminBroker.subscribe
    rw [if_neg hvalid, show h.admin.names.consumerStream req.consumerId = none from hstream]
  | some stream =>
    rw [AdminBroker.subscribe_eq wh conn req hvalid hstream]
    simp only
    generalize SubscriptionRules.onCreate _ _ _ = rule
    cases rule with
    | error v => rfl
    | ok filters =>
      refine congrArg (fun engines => (⟨_, h.shardCount, engines, []⟩ : AdminBroker)) ?_
      refine (comp_update Worker.engine h.workers _ _).trans (congrArg (update _ _) ?_)
      exact engine_handleSubscribe rfl

theorem leaves_subscribeEach (reqs : List SubscribeReq) (h : Hub) (seen : List ℕ) :
    Leaves conn h (subscribeEach wh conn h seen reqs) := by
  induction reqs generalizing h seen with
  | nil => exact .refl
  | cons req reqs ih =>
    unfold subscribeEach
    split
    · exact ih h seen
    · exact (leaves_subscribeOne h conn req).trans (ih _ _)

theorem leaves_createStream {req : Option CreateStreamReq} : Leaves conn h (h.createStream wh conn req) := by
  have hquota := Leaves.withRegistry (h.registry.leaves_checkAndIncrQuota conn .stream)
  unfold createStream
  simp only
  split
  · exact hquota
  · exact hquota.trans (.administered AdminBroker.tame_createStream)

theorem leaves_createConsumer {req : CreateConsumerReq} {journalTail : ℕ} :
    Leaves conn h (h.createConsumer wh conn req journalTail) := by
  have hquota := h.registry.leaves_checkAndIncrQuota conn .consumer
  unfold createConsumer
  simp only
  split
  · exact .refl
  refine (Leaves.administered AdminBroker.tame_createConsumer).trans
    (Leaves.withRegistry ?_)
  split
  · exact hquota
  · exact hquota.trans (ConnectionRegistry.leaves_releaseQuota _ _ _)

theorem leaves_deleteStream {name : Bytes} : Leaves conn h (h.deleteStream wh name) := by
  unfold deleteStream
  split
  · exact .refl
  next id hid =>
  refine (Leaves.exec (j := .deleteStream id) (h.shardFor id) fun _ _ hj => hj).trans (Leaves.names fun _ _ _ => ?_)
  have hnames : (h.admin.deleteStream wh 0 name).1.names.subscriptionsByConn = h.names.subscriptionsByConn := by
    unfold AdminBroker.deleteStream
    split
    · rfl
    · show (removeStream _ _).subscriptionsByConn = _
      rw [translations_removeStream, translations_removeConsumers]
      rfl
  exact congrArg (AList.lookup _) hnames

theorem leaves_deleteConsumer {id : ConsumerId} : Leaves conn h (h.deleteConsumer wh id) := by
  refine (Leaves.exec (j := .deleteConsumer id) _ fun _ _ hj => hj).trans (Leaves.names fun _ _ _ => ?_)
  exact congrArg (AList.lookup _) (translations_removeConsumerById h.names)

theorem leaves_createCron {req : Option CreateCronReq} : Leaves conn h (h.createCron validCron conn req) := by
  have hquota := Leaves.withRegistry (h.registry.leaves_checkAndIncrQuota conn .cron)
  unfold createCron
  simp only
  split
  · split
    · next hok =>
      exact hquota.trans (.withCrons fun other hne _ hr => refersAt_create hok hne hr)
    · exact hquota
  · exact hquota

theorem lookup_dropConnectionSubscriptions (r : NameRegistry) (conn : ConnectionId) {key : ConnectionId × ℕ} :
    (r.dropConnectionSubscriptions conn).subscriptionsByConn.lookup key =
      if key.1 = conn then none else r.subscriptionsByConn.lookup key := by
  unfold dropConnectionSubscriptions
  rw [Map.lookup_retain]
  by_cases hkey : key.1 = conn
  · simp [hkey]
  · simp [hkey]

theorem leaves_drainConnection (wh : WireHash) (who : ConnectionId) : Leaves who h (h.drainConnection wh conn) := by
  refine ⟨rfl, rfl, fun i ha => ?_, fun other _ i hf => ?_, fun _ _ _ hr => hr, fun _ _ _ => rfl, .refl⟩
  · show Attached (if i < h.shardCount then _ else _)
    split
    · exact ha.command _
    · exact ha
  · show Free other (if i < h.shardCount then _ else _)
    split
    · exact hf.command fun hj => hj
    · exact hf

theorem leaves_disconnect : Leaves conn h (h.disconnect wh conn) := by
  have hcrons : Leaves conn h { h with crons := h.crons.removeConnection conn } :=
    .withCrons fun _ _ _ hr => refersAt_removeConnection hr
  have hdrop : ∀ other ≠ conn, ∀ client, (h.names.dropConnectionSubscriptions conn).subscriptionsByConn.lookup
      (other, client) = h.names.subscriptionsByConn.lookup (other, client) := by
    intro other hne client
    rw [lookup_dropConnectionSubscriptions, if_neg hne]
  have hnames := hcrons.trans (Leaves.names hdrop)
  have hregistry := hnames.trans (.withRegistry (h.registry.leaves_remove conn conn))
  exact hregistry.trans (leaves_drainConnection _ conn wh conn)

/-- **A frame of one connection leaves the others alone.** -/
theorem leaves_dispatchFrame {f : Frame} : Leaves conn h (h.dispatchFrame wh validCron conn f) := by
  cases f with
  | subscribe req => exact leaves_subscribeOne h conn req
  | subscribeBatch entries =>
    simp only [dispatchFrame]
    split
    · exact .refl
    · exact leaves_subscribeEach conn entries h []
  | unsubscribe consumer =>
    simp only [dispatchFrame]
    split
    · exact .refl
    · exact .exec _ fun _ _ hj => hj
  | ack shard | nack shard | setPaused shard => exact .exec shard fun _ _ hj => hj
  | createStream req => exact leaves_createStream h conn
  | deleteStream name => exact leaves_deleteStream h conn
  | createConsumer req journalTail => exact leaves_createConsumer h conn
  | deleteConsumer consumer => exact leaves_deleteConsumer h conn
  | createCron req => exact leaves_createCron h conn
  | deleteCron name => exact .withCrons fun _ _ _ hr => refersAt_delete hr
  | cronAck name => exact .withCrons fun _ _ _ hr => refersAt_ack hr
  | disconnect => exact leaves_disconnect h conn

variable {h conn}

/-! ## Teardown -/

/-- **Nothing refers to the connection**: no binding and no record of one, no cron, no translation, no session and
no quota. -/
structure Forgotten (conn : ConnectionId) (h : Hub) : Prop where
  free : ∀ i < h.shardCount, (h.workers i).Free conn
  crons : ¬ h.crons.RefersTo conn
  translations : ∀ client, h.names.subscriptionsByConn.lookup (conn, client) = none
  session : conn ∉ h.registry.sessions
  quota : h.registry.quotas.lookup conn = none

/-- What the end of the read loop does not clear. -/
def Clear (conn : ConnectionId) (h : Hub) : Prop :=
  ¬ h.crons.RefersTo conn ∧ ∀ client, h.names.subscriptionsByConn.lookup (conn, client) = none

/-- Bindings and records of every shard are attached. -/
def Attached (h : Hub) : Prop := ∀ i, (h.workers i).Attached

theorem Forgotten.leaves (hf : Forgotten other h) (hl : Leaves conn h h') (hne : other ≠ conn) : Forgotten other h' where
  free i hi := hl.free other hne i (hf.free i (hl.shardCount ▸ hi))
  crons := fun ⟨name, hr⟩ => hf.crons ⟨name, hl.crons other hne name hr⟩
  translations client := (hl.translations other hne client).trans (hf.translations client)
  session hmem := hf.session (hl.registry.sessions other hne hmem)
  quota := hl.registry.quotas other hne hf.quota

theorem drained_free (hatt : h.Attached) {i : ℕ} (hi : i < h.shardCount) :
    ((h.drainConnection wh conn).workers i).Free conn := by
  show Free conn (if i < h.shardCount then _ else _)
  rw [if_pos hi]
  exact (hatt i).drained conn

theorem removed_session : conn ∉ (r.remove conn).sessions := by
  simp [ConnectionRegistry.remove]

theorem removed_quota : (r.remove conn).quotas.lookup conn = none :=
  AList.lookup_erase conn r.quotas

theorem forgotten_disconnect (hatt : h.Attached) : Forgotten conn (h.disconnect wh conn) where
  free _ hi := drained_free hatt hi
  crons := not_refersTo_removeConnection h.crons conn
  translations client := by
    show (h.names.dropConnectionSubscriptions conn).subscriptionsByConn.lookup (conn, client) = none
    rw [lookup_dropConnectionSubscriptions, if_pos rfl]
  session := removed_session h.registry
  quota := removed_quota h.registry

/-- The end of the read loop clears everything if and only if there is nothing that it does not clear. -/
theorem forgotten_leave_iff (hatt : h.Attached) : Forgotten conn (h.leave wh conn) ↔ h.Clear conn := by
  constructor
  · exact fun hf => ⟨hf.crons, hf.translations⟩
  · rintro ⟨hcrons, htranslations⟩
    exact ⟨fun _ hi => drained_free hatt hi, hcrons, htranslations, removed_session h.registry,
      removed_quota h.registry⟩

/-! ## Runs -/

/-- The connection has been accepted and its read loop is over. -/
def Ended (h : Hub) (conn : ConnectionId) : Prop := conn < h.registry.nextConn ∧ conn ∉ h.reading

/-- A read loop ends when the crons and the translations of its connection are cleared. -/
def LeavesClear (h : Hub) : HubAction → Prop
  | .leave conn => conn ∈ h.reading → h.Clear conn
  | _ => True

/-- Every connection that has ended is forgotten. -/
structure Settled (h : Hub) : Prop where
  attached : h.Attached
  forgotten : ∀ conn, h.Ended conn → h.Forgotten conn

theorem settled_new {shardCount : ℕ} : Settled { shardCount := shardCount } where
  attached _ := ⟨nofun, nofun, nofun⟩
  forgotten conn _ := by
    refine ⟨fun _ _ => ⟨nofun, nofun⟩, ?_, fun _ => rfl, nofun, rfl⟩
    rintro ⟨name, slot, hslot, -⟩
    cases hslot

theorem Settled.leaves (hs : h.Settled) (hl : Leaves conn h h') (hconn : ¬ h.Ended conn) : h'.Settled where
  attached i := hl.attached i (hs.attached i)
  forgotten other hend := by
    have hold : h.Ended other := ⟨hl.registry.nextConn ▸ hend.1, hl.reading ▸ hend.2⟩
    refine (hs.forgotten other hold).leaves hl ?_
    rintro rfl
    exact hconn hold

theorem Settled.anonymous (hs : h.Settled) (hl : ∀ conn, Leaves conn h h') : h'.Settled where
  attached i := (hl 0).attached i (hs.attached i)
  forgotten other hend := by
    have hold : h.Ended other := ⟨(hl 0).registry.nextConn ▸ hend.1, (hl 0).reading ▸ hend.2⟩
    exact (hs.forgotten other hold).leaves (hl (other + 1)) (Nat.ne_of_lt (Nat.lt_succ_self other))

theorem Settled.accept (hs : h.Settled) :
    Settled { h with registry := h.registry.register, reading := h.reading ++ [h.registry.nextConn] } where
  attached := hs.attached
  forgotten conn hend := by
    obtain ⟨hlt, hnot⟩ := hend
    rw [mem_append, mem_singleton, not_or] at hnot
    have hold := hs.forgotten conn ⟨Nat.lt_of_le_of_ne (Nat.le_of_lt_succ hlt) hnot.2, hnot.1⟩
    refine ⟨hold.free, hold.crons, hold.translations, ?_, hold.quota⟩
    show conn ∉ h.registry.sessions ++ [h.registry.nextConn]
    rw [mem_append, mem_singleton, not_or]
    exact ⟨hold.session, hnot.2⟩

theorem Settled.leave (hs : h.Settled) {conn : ConnectionId} (hclear : h.Clear conn) :
    (h.leave wh conn).Settled where
  attached i := (leaves_drainConnection h conn wh conn).attached i (hs.attached i)
  forgotten other hend := by
    obtain ⟨hlt, hnot⟩ := hend
    by_cases heq : other = conn
    · subst heq
      exact (forgotten_leave_iff hs.attached).2 hclear
    · have hold := hs.forgotten other ⟨hlt, fun hmem => hnot (mem_filter.2 ⟨hmem, by simpa using heq⟩)⟩
      have hdrained := hold.leaves (leaves_drainConnection h conn wh conn) heq
      have hgone := hdrained.leaves (.withRegistry (h.registry.leaves_remove conn conn)) heq
      exact ⟨hgone.free, hgone.crons, hgone.translations, hgone.session, hgone.quota⟩

theorem Settled.step (h : Hub) (a : HubAction) (hs : h.Settled) (hok : h.LeavesClear a) :
    (h.step wh validCron a).Settled := by
  cases a with
  | accept => exact hs.accept
  | frame conn f =>
    simp only [Hub.step]
    split
    · next hmem =>
      exact hs.leaves (leaves_dispatchFrame h conn) fun hend => hend.2 (contains_iff_mem.1 hmem)
    · exact hs
  | evict conn =>
    exact hs.anonymous fun who => .withRegistry (h.registry.leaves_remove conn who)
  | writeFailed conn =>
    exact hs.anonymous fun who => .withRegistry (h.registry.leaves_dropSession conn who)
  | leave conn =>
    simp only [Hub.step]
    split
    · next hmem => exact hs.leave (hok (contains_iff_mem.1 hmem))
    · exact hs
  | cronTick elapsed due =>
    exact hs.anonymous fun _ => .withCrons fun _ _ _ hr => refersAt_tick hr
  | timers shard due => exact hs.anonymous fun _ => .exec shard fun _ _ hj => hj
  | notification shard n =>
    exact hs.anonymous fun _ => .worker shard (fun ha => ha.notification n) fun other _ hf =>
      ((free_lasting (fun _ => 0) other).notification hf n).1

/-- **What is left of a connection.** In a run whose read loops end when crons and translations are cleared, nothing
refers to a connection that has ended. A `Disconnect` frame clears everything, and the end of a read loop clears
everything if and only if no cron refers to the connection and none of its subscription ids is translated. -/
theorem ended_forgotten (wh : WireHash) (validCron : Bytes → Bool) (shardCount : ℕ) (actions : List HubAction)
    (hrun : Run.Guarded (Hub.step wh validCron) LeavesClear { shardCount := shardCount } actions) :
    let h := actions.foldl (Hub.step wh validCron) { shardCount := shardCount }
    (∀ conn, h.Ended conn → h.Forgotten conn) ∧
      ∀ conn ∈ h.reading, Forgotten conn (h.step wh validCron (.frame conn .disconnect)) ∧
        (Forgotten conn (h.step wh validCron (.leave conn)) ↔ h.Clear conn) := by
  intro h
  have hs : h.Settled := Run.invariant Settled.step actions _ settled_new hrun
  refine ⟨hs.forgotten, fun conn hmem => ?_⟩
  have hreads : h.reading.contains conn = true := contains_iff_mem.2 hmem
  simp only [Hub.step, if_pos hreads]
  exact ⟨forgotten_disconnect hs.attached, forgotten_leave_iff hs.attached⟩

/-! ### A connection that just goes -/

namespace Abandoned

/-- A stream `a` with the filter `a.>`, a consumer `c` of it in the group `g`, a subscription and a cron `n`. -/
def setup : List HubAction :=
  [.accept,
    .frame 1 (.createStream (some ⟨[97], [97, 46, 62], 0, 0, 1, 0, 0⟩)),
    .frame 1 (.createConsumer ⟨⟨97, [99], [103], [], 0, 1, 0, 1, 0, 0, []⟩, none⟩ 0),
    .frame 1 (.subscribe ⟨1, 5, []⟩),
    .frame 1 (.createCron (some ⟨[110], [42], none, 0, false⟩))]

def run (actions : List HubAction) : Hub := actions.foldl (Hub.step sampleHash fun _ => true) { shardCount := 1 }

/-- **The client closes its socket**: the cron still has it among its workers, and its subscription id is still
translated. -/
theorem socket_closed :
    (run (setup ++ [.leave 1])).Ended 1 ∧
      ((run (setup ++ [.leave 1])).crons.lookup [110]).map CronSlot.connections = some [1] ∧
      (run (setup ++ [.leave 1])).names.subscriptionsByConn.lookup (1, 5) = some 1 ∧
      ¬ (run (setup ++ [.leave 1])).Forgotten 1 := by
  have htranslated : (run (setup ++ [.leave 1])).names.subscriptionsByConn.lookup (1, 5) = some 1 := by decide +kernel
  refine ⟨⟨by decide +kernel, by decide +kernel⟩, by decide +kernel, htranslated, fun hf => ?_⟩
  rw [hf.translations 5] at htranslated
  cases htranslated

/-- The client sends `Disconnect` first. -/
theorem disconnected_first : (run (setup ++ [.frame 1 .disconnect, .leave 1])).Forgotten 1 := by
  have hsetup : Run.Guarded (Hub.step sampleHash fun _ => true) LeavesClear { shardCount := 1 } setup :=
    ⟨trivial, trivial, trivial, trivial, trivial, trivial⟩
  have hgone : (run (setup ++ [.frame 1 .disconnect])).Forgotten 1 :=
    ((ended_forgotten sampleHash (fun _ => true) 1 setup hsetup).2 1 (by decide +kernel)).1
  have hrun : Run.Guarded (Hub.step sampleHash fun _ => true) LeavesClear { shardCount := 1 }
      (setup ++ [.frame 1 .disconnect, .leave 1]) :=
    Run.guarded_append.2 ⟨hsetup, trivial, fun _ => ⟨hgone.crons, hgone.translations⟩, trivial⟩
  exact (ended_forgotten sampleHash (fun _ => true) 1 _ hrun).1 1 ⟨by decide +kernel, by decide +kernel⟩

end Abandoned

/-! ## What others do -/

/-- Nothing was added under the connection, its subscription ids translate as before, and each cron that refers to
it did so before. -/
structure Untouched (conn : ConnectionId) (h h' : Hub) : Prop where
  translations : ∀ client,
    h'.names.subscriptionsByConn.lookup (conn, client) = h.names.subscriptionsByConn.lookup (conn, client)
  free : (∀ i, (h.workers i).Free conn) → ∀ i, (h'.workers i).Free conn
  crons : ∀ name, h'.crons.RefersAt name conn → h.crons.RefersAt name conn

theorem Untouched.leaves (hu : Untouched conn h h') (hl : Leaves other h' h'') (hne : conn ≠ other) :
    Untouched conn h h'' where
  translations client := (hl.translations conn hne client).trans (hu.translations client)
  free hf i := hl.free conn hne i (hu.free hf i)
  crons name hr := hu.crons name (hl.crons conn hne name hr)

def isFrameOf (conn : ConnectionId) : HubAction → Bool
  | .frame c _ => c == conn
  | _ => false

/-- **Only its own frames touch a connection**: whatever other connections, timers, crons and drains do,
its subscription ids translate as before, it gets no binding or record, and a cron has it as a worker or waits for
it only if that cron did before. -/
theorem others_leave_untouched (wh : WireHash) (validCron : Bytes → Bool) (h : Hub) (conn : ConnectionId)
    (actions : List HubAction) :
    Untouched conn h ((actions.filter (!isFrameOf conn ·)).foldl (Hub.step wh validCron) h) := by
  have hne : conn ≠ conn + 1 := (Nat.succ_ne_self conn).symm
  refine foldlRecOn _ _ (motive := (Untouched conn h ·)) ⟨fun _ => rfl, id, fun _ => id⟩ fun b hu a ha => ?_
  cases a with
  | accept => exact ⟨hu.translations, hu.free, hu.crons⟩
  | frame c f =>
    have hc : conn ≠ c := by
      rintro rfl
      simp [isFrameOf] at ha
    simp only [Hub.step]
    split
    · exact hu.leaves (leaves_dispatchFrame b c) hc
    · exact hu
  | evict c => exact hu.leaves (.withRegistry (b.registry.leaves_remove c _)) hne
  | writeFailed c => exact hu.leaves (.withRegistry (b.registry.leaves_dropSession c _)) hne
  | leave c =>
    have hd := hu.leaves (leaves_drainConnection b c wh _) hne
    simp only [Hub.step]
    split
    · exact ⟨hd.translations, hd.free, hd.crons⟩
    · exact hu
  | cronTick => exact hu.leaves (.withCrons fun _ _ _ hr => refersAt_tick hr) hne
  | timers shard => exact hu.leaves (.exec shard fun _ _ hj => hj) hne
  | notification shard n =>
    exact hu.leaves (.worker shard (fun ha => ha.notification n) fun other _ hf =>
      ((free_lasting (fun _ => 0) other).notification hf n).1) hne

/-! ## Unsubscribe -/

section Unsubscribe

variable {c : ConsumerId} {alive : ℕ → Prop} (wh) (validCron)

theorem binding_unsubscribes {as : List ActiveBinding} {k : BindingId} (r : Out) :
    (as.foldl unsubscribeOne r).1.engine.catalog.binding k =
      if k ∈ as.map (·.bindingId) then none else r.1.engine.catalog.binding k := by
  induction as generalizing r with
  | nil => rfl
  | cons a as ih =>
    have hone : (unsubscribeOne r a).1.engine.catalog.binding k =
        if k = a.bindingId then none else r.1.engine.catalog.binding k := by
      show (r.1.engine.retireBinding a.bindingId {}).1.catalog.binding k = _
      rw [Engine.catalog_retireBinding, Catalog.binding_retireBinding]
    rw [foldl_cons, ih, hone]
    by_cases hk : k = a.bindingId <;> simp [hk]

/-- The handle of the binding is alive, or it is another connection's. -/
def Spared (conn : ConnectionId) (alive : ℕ → Prop) (b : Binding) : Prop := b.connectionId ≠ conn ∨ alive b.externalSubId

/-- **An `Unsubscribe` leaves the other bindings alone iff its consumer has no others.** The request names the
consumer, and every binding that has a record under it goes, whosever it is. -/
theorem unsubscribe_spares_iff :
    (∀ i k b, (h.workers i).engine.catalog.binding k = some b → Spared conn alive b →
      ((h.dispatchFrame wh validCron conn (.unsubscribe c)).workers i).engine.catalog.binding k = some b) ↔
    ∀ stream, h.names.consumerStream c = some stream → ∀ a ∈ (h.workers (h.shardFor stream)).bindings,
      a.consumerId = c → ∀ b, (h.workers (h.shardFor stream)).engine.catalog.binding a.bindingId = some b →
        ¬Spared conn alive b := by
  simp only [dispatchFrame]
  cases hs : h.names.consumerStream c with
  | none => exact ⟨fun _ => nofun, fun _ _ _ _ hb _ => hb⟩
  | some stream =>
    set i := h.shardFor stream with hi
    have hafter : ∀ k, ((h.exec wh i (.unsubscribe c)).workers i).engine.catalog.binding k =
        if k ∈ ((h.workers i).bindings.filter (·.consumerId == c)).map (·.bindingId) then none
        else (h.workers i).engine.catalog.binding k := by
      intro k
      show (update h.workers i _ i).engine.catalog.binding k = _
      rw [update_self]
      exact binding_unsubscribes _
    constructor
    · intro hkept _ hst a ha hac b hb hsp
      cases hst
      have hgone := hkept i a.bindingId b hb hsp
      rw [hafter, if_pos (mem_map.2 ⟨a, mem_filter.2 ⟨ha, by simpa using hac⟩, rfl⟩)] at hgone
      cases hgone
    · intro hno j k b hb hsp
      by_cases hj : j = i
      · subst hj
        rw [hafter, if_neg]
        · exact hb
        intro hk
        obtain ⟨a, ha, rfl⟩ := mem_map.1 hk
        obtain ⟨hmem, hac⟩ := mem_filter.1 ha
        exact hno stream rfl a hmem (by simpa using hac) b hb hsp
      · show ((update h.workers i _) j).engine.catalog.binding k = _
        rw [update_of_ne hj]
        exact hb

/-- **A member of a queue leaves, and the other one with it.** -/
theorem Abandoned.sibling_unsubscribed :
    let h := run (setup ++ [.accept, .frame 2 (.subscribe ⟨1, 6, []⟩)])
    ((h.workers 0).engine.catalog.binding 1).map (·.connectionId) = some 1 ∧
      ((h.dispatchFrame sampleHash (fun _ => true) 2 (.unsubscribe 1)).workers 0).engine.catalog.binding 1 = none := by
  decide +kernel

end Unsubscribe

end Hub

end Arbitro
