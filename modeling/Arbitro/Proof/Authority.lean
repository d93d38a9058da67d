import Arbitro.Server.Acks
import Arbitro.Proof.Announce
import Arbitro.Proof.Journal
import Arbitro.Proof.Publish

/-!
# Only the holder of a binding settles deliveries

* `Catalog.Vouched`: the indices the ownership check reads vouch for live bindings, in
  every state that operations of the engine reach.
* `connectionOwns_eq_false`: without a binding of the consumer the check fails.
* `settle_touches`: a settlement that passed the check leaves other bindings as they are.
* `foreign_request`: what a request of a connection without a binding does, and what an
  accepted one releases.
-/

namespace Arbitro

open Engine Catalog Worker CommandTask List Reaches

variable {wh : WireHash} {w : Worker} {c : ConsumerId} {j : Job}

/-! ## The ownership indices -/

namespace Catalog

variable {cat cat' : Catalog} {conn : ConnectionId}

/-- The indices acks are checked against speak of live bindings only. -/
structure Vouched (cat : Catalog) : Prop where
  byConsumer : Index.Lists Binding.consumerId cat.byConsumer cat.bindings
  byConnSubscription :
    Index.Points (fun b => (b.connectionId, b.externalSubId)) cat.byConnSubscription cat.bindings
  byConnConsumer : Index.Counts (fun b => (b.connectionId, b.consumerId)) cat.byConnConsumer cat.bindings

theorem vouched_empty : ({} : Catalog).Vouched :=
  ⟨mirrors_empty.byConsumer, nofun, mirrors_empty.byConnConsumer⟩

theorem Vouched.same (h : cat.Vouched) (ht : cat'.tables = cat.tables) : cat'.Vouched := by
  have hcopy : cat'.tables.Vouched := by
    rw [ht]
    exact ⟨h.byConsumer, h.byConnSubscription, h.byConnConsumer⟩
  exact ⟨hcopy.byConsumer, hcopy.byConnSubscription, hcopy.byConnConsumer⟩

theorem lookup_eraseIfPointsAt {K : Type} [DecidableEq K] {m : Map K BindingId} {k i : K} {b x : BindingId}
    (h : (eraseIfPointsAt m k b).lookup i = some x) : m.lookup i = some x ∧ (i = k → x ≠ b) := by
  unfold eraseIfPointsAt at h
  split at h
  · obtain ⟨hne, h⟩ := Map.of_lookup_erase h
    exact ⟨h, fun heq => absurd heq hne⟩
  · next hnot =>
    refine ⟨h, ?_⟩
    rintro rfl rfl
    exact hnot h

theorem Vouched.retireBinding (h : cat.Vouched) (id : BindingId) (ev : DeltaEvents) :
    (cat.retireBinding id ev).1.Vouched := by
  unfold Catalog.retireBinding
  cases hb : cat.binding id with
  | none => exact h
  | some b =>
    simp only [decDemand_eq]
    refine ⟨?_, ?_, ?_⟩
    · exact h.byConsumer.erase hb fun i => lookup_retainIndex _ _ _ _
    · exact h.byConnSubscription.erase hb fun i k hi => lookup_eraseIfPointsAt hi
    · exact h.byConnConsumer.erase hb fun i => lookup_decrement _ _ _ (counts_ne_none h.byConnConsumer hb)

theorem vouched_stable : Stable Vouched where
  same h ht := h.same ht
  retire h id ev := h.retireBinding id ev
  rewrite h hb _ := ⟨h.byConsumer.rewrite hb rfl, h.byConnSubscription.rewrite hb rfl, h.byConnConsumer.rewrite hb rfl⟩

theorem Vouched.subscribe (h : cat.Vouched) (conn : ConnectionId) (sid : SubscriptionId) (ev : DeltaEvents)
    (hfree : cat.binding cat.nextBindingId = none) : (cat.subscribe conn sid ev).2.1.Vouched := by
  refine subscribe_of h (h.retireBinding · ev) ?_
  rintro cat₁ sub consumer rfl hold -
  have hgone := free_retirePrevious hfree sid ev
  generalize (cat.retirePrevious sid ev).1 = cat₁ at hold hgone ⊢
  exact ⟨hold.byConsumer.insert hgone, hold.byConnSubscription.insert hgone, hold.byConnConsumer.insert hgone⟩

/-- A connection holds a live binding of a consumer. -/
def Holds (cat : Catalog) (conn : ConnectionId) (c : ConsumerId) : Prop :=
  ∃ k b, cat.binding k = some b ∧ b.connectionId = conn ∧ b.consumerId = c

theorem Vouched.connectionOwnsConsumer (h : cat.Vouched) {c : ConsumerId}
    (howns : cat.connectionOwnsConsumer conn c = true) : cat.Holds conn c := by
  unfold Catalog.connectionOwnsConsumer at howns
  have hcount := h.byConnConsumer (conn, c)
  rw [hcount] at howns
  split at howns
  · cases howns
  · next hne =>
    obtain ⟨k, b, hb, hkey⟩ := Index.exists_of_tally_ne_zero hne
    exact ⟨k, b, hb, congrArg Prod.fst hkey, congrArg Prod.snd hkey⟩

theorem Vouched.bindingForSubscription (h : cat.Vouched) {sub : ℕ} {b : Binding}
    (hb : cat.bindingForSubscription conn sub = some b) : cat.Holds conn b.consumerId := by
  obtain ⟨k, hk, hlive⟩ := Option.bind_eq_some_iff.1 hb
  obtain ⟨b', hb', hkey⟩ := h.byConnSubscription _ k hk
  have hsame : b' = b := Option.some.inj (hb'.symm.trans hlive)
  subst hsame
  exact ⟨k, b', hlive, congrArg Prod.fst hkey, rfl⟩

end Catalog

theorem Engine.reaches_vouched {e : Engine} (h : Reaches wh Op.FreshId .new e) : e.catalog.Vouched := by
  apply h.invariant (fun e op (he : e.catalog.Vouched) hop => ?_) vouched_empty
  apply stable_step vouched_stable he
  rintro conn sid rfl
  exact he.subscribe conn sid {} hop

/-- **Without a binding of the consumer the ownership check fails**, whatever the entries. -/
theorem Worker.connectionOwns_eq_false (h : w.engine.catalog.Vouched) {conn : ConnectionId}
    (hnone : ¬ w.engine.catalog.Holds conn c) {entries : List AckEntry} : w.connectionOwns conn c entries = false := by
  rw [← Bool.not_eq_true]
  intro howns
  unfold connectionOwns at howns
  simp only [Bool.and_eq_true, Bool.or_eq_true] at howns
  obtain ⟨hall, hsome⟩ := howns
  cases hnamed : entries.filter (·.subId != 0) with
  | nil =>
    rw [hnamed] at hsome
    exact hnone (h.connectionOwnsConsumer (hsome.resolve_left (by simp)))
  | cons a rest =>
    rw [hnamed] at hall
    have ha := all_eq_true.1 hall a mem_cons_self
    cases hb : w.engine.catalog.bindingForSubscription conn a.subId with
    | none => rw [hb] at ha; cases ha
    | some b =>
      rw [hb] at ha
      have hc : b.consumerId = c := by simpa using ha
      have hheld := h.bindingForSubscription hb
      rw [hc] at hheld
      exact hnone hheld

/-! ## What an accepted settlement releases -/

namespace Engine

variable {ctx : Engine} {conn : ConnectionId} {ids : List BindingId} {s : Engine × DeltaEvents}

/-- **Only bindings of the consumer were touched**, and those only in their pendings. -/
structure Touches (c : ConsumerId) (x y : Engine) : Prop where
  other : ∀ k b, x.catalog.binding k = some b → b.consumerId ≠ c → y.catalog.binding k = some b
  frame : ∀ k, (y.catalog.binding k).map Binding.frame = (x.catalog.binding k).map Binding.frame
  rest : y.catalog = { x.catalog with bindings := y.catalog.bindings }

theorem Touches.refl (c : ConsumerId) (x : Engine) : Touches c x x := ⟨fun _ _ h _ => h, fun _ => rfl, rfl⟩

theorem Touches.trans {x y z : Engine} (h : Touches c x y) (h' : Touches c y z) : Touches c x z where
  other k b hb hne := h'.other k b (h.other k b hb hne) hne
  frame k := (h'.frame k).trans (h.frame k)
  rest := by rw [h'.rest, h.rest]

theorem settleEntry_touches {a : AckEntry} (hown : s.1.CandidatesOwned conn c ids a) :
    Touches c s.1 (settleEntry conn c ids s a).1 := by
  rcases settleEntry_cases conn c ids s a with ⟨h, -⟩ | ⟨id, hid, h⟩
  · rw [h]
    exact Touches.refl c s.1
  obtain ⟨b, p, hb, -, -, hcat, -, -⟩ := takePending_some h
  have hc : b.consumerId = c := hown id hid b hb
  refine ⟨?_, ?_, ?_⟩
  · intro k x hx hne
    rw [hcat, binding_setBinding]
    split
    · next hk =>
      rw [hk, hb] at hx
      cases hx
      exact absurd hc hne
    · exact hx
  · rw [hcat]
    exact frame_setBinding hb rfl
  · rw [hcat]
    rfl

theorem settleEntries_touches {es : List AckEntry}
    (hids : ∀ id ∈ ids, ∀ b, s.1.catalog.binding id = some b → b.consumerId = c)
    (hn : ∀ a ∈ es, s.1.NamedOwned conn c a) : Touches c s.1 (es.foldl (settleEntry conn c ids) s).1 := by
  induction es generalizing s with
  | nil => exact Touches.refl c s.1
  | cons a es ih =>
    have hone := settleEntry_touches (candidatesOwned hids (hn a mem_cons_self))
    apply hone.trans
    apply ih
    · intro id hid b hb
      obtain ⟨b₀, hb₀, hc, -⟩ := frame_binding (hone.frame id) hb
      exact hc.symm.trans (hids id hid b₀ hb₀)
    · exact fun x hx => (hn x (mem_cons_of_mem _ hx)).frame hone.frame hone.rest

theorem settle_touches (hv : ctx.catalog.Vouched) {es : List AckEntry}
    (hn : ∀ a ∈ es, ctx.NamedOwned conn c a) : Touches c ctx (ctx.settle conn c es).1 := by
  refine settleEntries_touches (s := (ctx, {})) ?_ hn
  intro id hid b hb
  obtain ⟨b', hb', hc⟩ := ((hv.byConsumer c).2 id).1 hid
  have hsame : b' = b := Option.some.inj (hb'.symm.trans hb)
  rw [← hsame]
  exact hc

end Engine

/-! ## A settlement on its way through the command task -/

/-- What a connection's name for a subscription resolves to stays with its consumer. -/
theorem Catalog.named_stable {conn : ConnectionId} {sub : ℕ} :
    Stable fun cat => ∀ b ∈ cat.bindingForSubscription conn sub, b.consumerId = c where
  same {cat cat'} h ht := by
    have hbindings : cat'.tables.bindings = cat.tables.bindings := by rw [ht]
    have hindex : cat'.tables.byConnSubscription = cat.tables.byConnSubscription := by rw [ht]
    change cat'.bindings = cat.bindings at hbindings
    change cat'.byConnSubscription = cat.byConnSubscription at hindex
    unfold bindingForSubscription bindingIdForSubscription binding at h ⊢
    rw [hbindings, hindex]
    exact h
  retire {cat} h id ev := by
    intro b hb
    obtain ⟨k, hk, hlive⟩ := Option.bind_eq_some_iff.1 hb
    refine h b (Option.bind_eq_some_iff.2 ⟨k, ?_, (of_binding_retireBinding hlive).2⟩)
    unfold bindingIdForSubscription retireBinding at hk
    cases hold : cat.binding id with
    | none => rw [hold] at hk; exact hk
    | some old =>
      simp only [hold, decDemand_eq] at hk
      exact (lookup_eraseIfPointsAt hk).1
  rewrite {cat id old} h hold pending := by
    intro b hb
    obtain ⟨k, hk, hlive⟩ := Option.bind_eq_some_iff.1 hb
    rcases Map.of_lookup_insert hlive with ⟨rfl, rfl⟩ | ⟨-, hlive⟩
    · exact h old (Option.bind_eq_some_iff.2 ⟨_, hk, hold⟩)
    · exact h b (Option.bind_eq_some_iff.2 ⟨k, hk, hlive⟩)

/-- The command acks or nacks for a connection and a consumer. -/
def Job.From (conn : ConnectionId) (c : ConsumerId) : Job → Prop
  | .ack cmd => cmd.connId = conn ∧ cmd.consumerId = c
  | .nack cmd => cmd.connId = conn ∧ cmd.consumerId = c
  | _ => False

/-- The command settles deliveries of the consumer, and passed the ownership check. -/
def Job.Settles (c : ConsumerId) (w : Worker) : Job → Prop
  | .ack cmd => cmd.consumerId = c ∧ ∀ a ∈ cmd.entries, w.engine.NamedOwned cmd.connId c a
  | .nack cmd => cmd.consumerId = c ∧ ∀ a ∈ cmd.entries, w.engine.NamedOwned cmd.connId c a
  | _ => False

theorem Job.Settles.reaches {w' : Worker} (h : j.Settles c w)
    (hr : Reaches wh Op.Quiet w.engine w'.engine) : j.Settles c w' := by
  have hnamed : ∀ {conn : ConnectionId} {a : AckEntry}, w.engine.NamedOwned conn c a →
      w'.engine.NamedOwned conn c a :=
    fun h hne => hr.stable named_stable (h hne)
  cases j with
  | ack | nack => exact ⟨h.1, fun a ha => hnamed (h.2 a ha)⟩
  | _ => exact h.elim

/-- **A settlement that passed the check touches bindings of its consumer only.** -/
theorem Worker.exec_touches
    (hv : w.engine.catalog.Vouched) (h : j.Settles c w) : Touches c w.engine (w.exec wh j).1.engine := by
  cases j with
  | ack cmd =>
    obtain ⟨rfl, hn⟩ := h
    exact settle_touches hv hn
  | nack cmd =>
    obtain ⟨rfl, hn⟩ := h
    show Touches _ _ (w.nackBody cmd).1.engine
    rw [nackBody_engine]
    exact settle_touches hv hn
  | _ => exact h.elim

namespace CommandTask

variable {t : CommandTask} {rest : List Work} {conn : ConnectionId} {x : Work}

/-- No command among the things to do. -/
def NoJob (todo : List Work) : Prop := ∀ j, .job j ∉ todo

/-- The task is settling for one consumer: what is left is a command that passed the check,
last, or only effects of it. -/
def Settling (c : ConsumerId) (t : CommandTask) : Prop :=
  t.worker.engine.catalog.Vouched ∧
    (NoJob t.todo ∨ ∃ pre j, t.todo = pre ++ [.job j] ∧ NoJob pre ∧ j.Settles c t.worker)

theorem noJob_effects {es : List Effect} : NoJob (es.map .effect) := by
  intro j hj
  obtain ⟨e, -, he⟩ := mem_map.1 hj
  cases he

theorem NoJob.append {a b : List Work} (ha : NoJob a) (hb : NoJob b) : NoJob (a ++ b) :=
  fun j hj => (mem_append.1 hj).elim (ha j) (hb j)

theorem noJob_nil : NoJob [] := fun _ => not_mem_nil

theorem noJob_one (hx : ∀ j, x ≠ .job j) : NoJob [x] :=
  fun j hj => hx j (mem_singleton.1 hj).symm

/-- A piece of work other than a command is replaced by others, while the worker's engine
makes no new binding. -/
theorem Settling.replace {new : List Work} {t' : CommandTask} (h : t.Settling c)
    (ht : t.todo = x :: rest) (hx : ∀ j, x ≠ .job j) (hnew : NoJob new) (htodo : t'.todo = new ++ rest)
    (hr : Reaches wh Op.Quiet t.worker.engine t'.worker.engine) : t'.Settling c := by
  obtain ⟨hv, hjobs⟩ := h
  refine ⟨hr.stable vouched_stable hv, ?_⟩
  rw [htodo]
  rcases hjobs with hnone | ⟨pre, j, hsplit, hpre, hj⟩
  · left
    apply hnew.append
    intro j hj
    apply hnone j
    rw [ht]
    exact mem_cons_of_mem _ hj
  right
  rw [ht] at hsplit
  cases pre with
  | nil =>
    injection hsplit with hhead
    exact absurd hhead (hx j)
  | cons y pre =>
    injection hsplit with hhead htail
    refine ⟨new ++ pre, j, by rw [htail]; exact (append_assoc _ _ _).symm, ?_, hj.reaches hr⟩
    exact hnew.append fun j' hj' => hpre j' (mem_cons_of_mem _ hj')

theorem Settling.head (h : t.Settling c) (ht : t.todo = .job j :: rest) : rest = [] ∧ j.Settles c t.worker := by
  obtain ⟨-, hnone | ⟨pre, j', hsplit, hpre, hj⟩⟩ := h
  · refine absurd ?_ (hnone j)
    rw [ht]
    exact mem_cons_self
  rw [ht] at hsplit
  cases pre with
  | nil =>
    injection hsplit with hhead htail
    cases hhead
    exact ⟨htail, hj⟩
  | cons y pre =>
    injection hsplit with hhead htail
    refine absurd ?_ (hpre j)
    rw [hhead]
    exact mem_cons_self

theorem Settling.work (h : t.Settling c) (room : Bool) (popped : Option DrainNotification) :
    (t.next wh (.work room popped)).Settling c := by
  unfold next step
  cases ht : t.todo with
  | nil => exact h
  | cons x rest =>
    cases x with
    | effect e => exact h.replace ht (by rintro _ ⟨⟩) noJob_nil rfl (refl wh _ _)
    | popNotifications =>
      cases popped with
      | none => exact h.replace ht (by rintro _ ⟨⟩) noJob_nil rfl (refl wh _ _)
      | some n =>
        have hnew : NoJob ((t.worker.handleNotification n).2.map .effect ++ [.popNotifications]) :=
          noJob_effects.append (noJob_one (by rintro _ ⟨⟩))
        have hr : Reaches wh Op.Quiet t.worker.engine (t.worker.handleNotification n).1.engine :=
          ((reaches_lasting t.worker.engine fun _ _ h => h).notification (refl _ _ _) n).1
        refine h.replace ht (by rintro _ ⟨⟩) hnew ?_ hr
        rw [append_assoc]
        rfl
    | job j =>
      obtain ⟨rfl, hj⟩ := h.head ht
      refine ⟨?_, .inl ?_⟩
      · -- a settlement is no subscribe, so the indices still vouch
        have hr : Reaches wh Op.Quiet t.worker.engine (t.worker.exec wh j).1.engine := by
          cases j with
          | ack cmd => exact settle_reaches _ _ _ _
          | nack cmd =>
            show Reaches _ _ _ (t.worker.nackBody cmd).1.engine
            rw [nackBody_engine]
            exact settle_reaches _ _ _ _
          | _ => exact hj.elim
        exact hr.stable vouched_stable h.1
      · exact noJob_effects.append noJob_nil
    | retryAcks released sentAny =>
      have hend : NoJob ((perform.retryEnd released sentAny).map .effect) := noJob_effects
      simp only [perform]
      split
      · next e q hq =>
        split
        · exact h.replace ht (by rintro _ ⟨⟩) (noJob_one (x := .retryAcks (released ++ releasedSeq e) true) (by rintro _ ⟨⟩)) rfl
            (refl wh _ _)
        · exact h.replace ht (by rintro _ ⟨⟩) hend rfl (refl wh _ _)
      · exact h.replace ht (by rintro _ ⟨⟩) hend rfl (refl wh _ _)
    | retryRemoves i =>
      simp only [perform]
      split
      · exact h.replace ht (by rintro _ ⟨⟩) noJob_nil rfl (refl wh _ _)
      · split
        · exact h.replace ht (by rintro _ ⟨⟩) (noJob_one (x := .retryRemoves i) (by rintro _ ⟨⟩)) rfl (refl wh _ _)
        · exact h.replace ht (by rintro _ ⟨⟩) (noJob_one (x := .retryRemoves (i + 1)) (by rintro _ ⟨⟩)) rfl (refl wh _ _)

/-- **Without a binding of the consumer a settlement is not even planned.** -/
theorem start_foreign (hidle : t.todo = []) (hv : t.worker.engine.catalog.Vouched)
    (hj : j.From conn c) (hnone : ¬ t.worker.engine.catalog.Holds conn c) : t.next wh (.start j) = t := by
  have hplan : plan t.worker j = (t.worker, []) := by
    cases j with
    | ack | nack =>
      obtain ⟨rfl, rfl⟩ := hj
      unfold plan
      simp only [connectionOwns_eq_false hv hnone]
      rfl
    | _ => exact hj.elim
  unfold next step
  simp only [hidle, hplan]
  rw [← hidle]

theorem start_settling (hidle : t.todo = []) (hv : t.worker.engine.catalog.Vouched)
    (hj : j.From conn c) : (t.next wh (.start j)).Settling c := by
  have hwait : NoJob [Work.popNotifications] := noJob_one nofun
  unfold next step
  simp only [hidle]
  refine ⟨by rw [(plan_same _ _).1]; exact hv, ?_⟩
  cases j with
  | ack cmd =>
    obtain ⟨rfl, rfl⟩ := hj
    unfold plan
    simp only
    split
    · next howns =>
      exact .inr ⟨[.popNotifications], _, rfl, hwait, rfl, namedOwned_of_connectionOwns howns⟩
    · exact .inl noJob_nil
  | nack cmd =>
    obtain ⟨rfl, rfl⟩ := hj
    unfold plan
    simp only
    split
    · next howns =>
      obtain ⟨hengine, -, hc, hconn, hentries⟩ := nackCheck_spec t.worker
      refine .inr ⟨[.popNotifications], _, rfl, hwait, hc, fun a ha => ?_⟩
      simp only [hengine, hconn]
      exact namedOwned_of_connectionOwns howns a (hentries a ha)
    · exact .inl noJob_nil
  | _ => exact hj.elim

theorem Settling.work_other (h : t.Settling c) (ht : t.todo = .job j :: rest)
    {room : Bool} {popped : Option DrainNotification} {k : BindingId} {b : Arbitro.Binding}
    (hb : t.worker.engine.catalog.binding k = some b) (hne : b.consumerId ≠ c) :
    (t.next wh (.work room popped)).worker.engine.catalog.binding k = some b := by
  obtain ⟨-, hj⟩ := h.head ht
  have htouch : Touches c t.worker.engine (t.worker.exec wh j).1.engine := exec_touches h.1 hj
  unfold next step
  simp only [ht]
  exact htouch.other k b hb hne

end CommandTask

/-! ## Requests -/

theorem Journal.OK.tombstoneAt_self_iff {j : Journal} (h : j.OK) (seq : ℕ) :
    (j.tombstoneAt seq).1 = j ↔ ∀ e, j.read seq = some e → e.tombstone = true := by
  rw [h.tombstoneAt_eq]
  constructor
  · intro hsame e he
    rw [← hsame, (h.killing _).read_eq_some_iff] at he
    obtain ⟨⟨x, -, hx⟩, hseq⟩ := And.imp_left mem_map.1 he
    have hhit : (x.seq == seq) = true := by rw [← hseq, ← hx, killIf_seq]; exact beq_self_eq_true _
    rw [← hx, killIf, if_pos hhit]
    exact StoreEntry.tombstone_kill
  intro hdead
  have hmap : j.index.map (killIf fun e => e.seq == seq) = j.index := by
    conv_rhs => rw [← map_id j.index]
    apply map_congr_left
    intro e he
    unfold killIf
    split
    · next hseq =>
      exact StoreEntry.kill_of_tombstone (hdead e (h.read_eq_some_iff.2 ⟨he, beq_iff_eq.1 hseq⟩))
    · rfl
  unfold Journal.killing
  rw [hmap]

namespace AckShard

variable {s : AckShard} {conn : ConnectionId} {streams : Map ConsumerId StreamId} {req : AckRequest}

/-- What a request does to the journal before its command is taken. -/
def storeAfter (s : AckShard) : AckRequest → Journal
  | .ackTerm _ seq _ => (s.store.tombstoneAt seq).1
  | _ => s.store

/-- **A request is dropped, or handed to the command task for its connection and consumer.** -/
theorem settle_cases {stream : StreamId} :
    s.settle wh conn stream req = s ∧ s.storeAfter req = s.store ∨ ∃ j : Job, j.From conn req.consumerId ∧
        s.settle wh conn stream req = { s with store := s.storeAfter req }.take wh j := by
  cases req with
  | ackBatch c seqs =>
    by_cases hlong : ackBatchMaxSeqs < seqs.length
    · exact .inl ⟨if_pos hlong, rfl⟩
    · exact .inr ⟨.ack _, ⟨rfl, rfl⟩, if_neg hlong⟩
  | nack | batchNack => exact .inr ⟨.nack _, ⟨rfl, rfl⟩, rfl⟩
  | _ => exact .inr ⟨.ack _, ⟨rfl, rfl⟩, rfl⟩

/-- The request is no `AckTerm` for a known consumer that names a live entry of the shard. -/
def Harmless (s : AckShard) (streams : Map ConsumerId StreamId) : AckRequest → Prop
  | .ackTerm c seq _ => streams.lookup c ≠ none → ∀ e, s.store.read seq = some e → e.tombstone = true
  | _ => True

theorem harmless_iff {stream : StreamId} (hstore : s.store.OK) (hstream : streams.lookup req.consumerId = some stream) :
    s.Harmless streams req ↔ s.storeAfter req = s.store := by
  cases req with
  | ackTerm c seq subId =>
    change streams.lookup c = some stream at hstream
    have hself := hstore.tombstoneAt_self_iff seq
    have hknown : streams.lookup c ≠ none := by
      rw [hstream]
      exact nofun
    exact ⟨fun h => hself.2 (h hknown), fun h _ => hself.1 h⟩
  | _ => exact ⟨fun _ => rfl, fun _ => trivial⟩

theorem request_foreign_iff (hv : s.task.worker.engine.catalog.Vouched) (hidle : s.task.todo = [])
    (hstore : s.store.OK) (hnone : ¬ s.task.worker.engine.catalog.Holds conn req.consumerId) :
    s.request wh streams conn req = s ↔ s.Harmless streams req := by
  unfold request
  cases hstream : streams.lookup req.consumerId with
  | none =>
    refine iff_of_true rfl ?_
    cases req with
    | ackTerm c seq subId => exact fun hne => absurd hstream hne
    | _ => trivial
  | some stream =>
    rw [harmless_iff hstore hstream]
    simp only
    rcases settle_cases with ⟨hsame, hkept⟩ | ⟨j, hj, hsettle⟩
    · exact iff_of_true hsame hkept
    have htask : s.task.next wh (.start j) = s.task := start_foreign hidle hv hj hnone
    rw [hsettle]
    unfold take
    simp only [htask]
    constructor
    · exact fun h => congrArg AckShard.store h
    · intro h
      rw [h]

theorem request_settling (hv : s.task.worker.engine.catalog.Vouched) (hidle : s.task.todo = []) :
    (s.request wh streams conn req).task.Settling req.consumerId := by
  have hstay : s.task.Settling req.consumerId := ⟨hv, .inl (by rw [hidle]; exact noJob_nil)⟩
  unfold request
  cases streams.lookup req.consumerId with
  | none => exact hstay
  | some stream =>
    simp only
    rcases settle_cases with ⟨hsame, -⟩ | ⟨j, hj, hsettle⟩
    · rw [hsame]
      exact hstay
    · rw [hsettle]
      exact start_settling hidle hv hj

end AckShard

/-- **Only the holder of a binding settles.** In every idle state of a command task whose
subscribes drew free binding ids, a request for a consumer of which the connection holds no
binding changes nothing, unless it is an `AckTerm` that names a live entry of the shard; and
whatever an accepted one does, when its command runs, leaves the bindings of every other
consumer as they are. -/
theorem foreign_request {wh : WireHash} {as : List CommandAction}
    (hrun : Run.Guarded (next wh) FreshId {} as) {s : AckShard}
    (htask : s.task = as.foldl (next wh) {}) (hidle : s.task.todo = []) (hstore : s.store.OK)
    (streams : Map ConsumerId StreamId) (conn : ConnectionId) (req : AckRequest) :
    (¬ s.task.worker.engine.catalog.Holds conn req.consumerId →
      (s.request wh streams conn req = s ↔ s.Harmless streams req)) ∧
    ∀ (bs : List (Bool × Option DrainNotification)) (t : CommandTask),
      t = bs.foldl (fun t b => t.next wh (.work b.1 b.2)) (s.request wh streams conn req).task →
      ∀ j rest, t.todo = .job j :: rest → ∀ room popped k b, t.worker.engine.catalog.binding k = some b →
        b.consumerId ≠ req.consumerId →
        (t.next wh (.work room popped)).worker.engine.catalog.binding k = some b := by
  have hv : s.task.worker.engine.catalog.Vouched := by
    rw [htask]
    exact reaches_vouched (run_reaches as hrun)
  refine ⟨AckShard.request_foreign_iff hv hidle hstore, ?_⟩
  rintro bs t rfl j rest ht room popped k b hb hne
  refine Settling.work_other ?_ ht hb hne
  exact foldlRecOn bs _ (motive := fun t : CommandTask => t.Settling _)
    (AckShard.request_settling hv hidle) fun _ h b _ => h.work b.1 b.2

namespace Intruder

/-- Stream 1 with consumer 1, subscribed on connection 7 under the name 3. -/
def actions : List CommandAction :=
  [.start (.createStream ⟨1, [97]⟩ 0 0), .work true none, .work true none,
    .start (.createConsumer ⟨1, 5, 1, true, .explicit, 10, 0, 0, []⟩ []), .work true none,
    .start (.subscribe ⟨⟨1, [97]⟩, ⟨1, 5, 1, true, .explicit, 10, 0, 0, []⟩, ⟨1, 3, 1, 1, []⟩, 7, 0, 0, true⟩),
    .work true none, .work true none, .work true none, .work true none, .work true none]

/-- The shard with one message published. -/
def shard : AckShard where
  task := actions.foldl (next fun _ => 0) {}
  store := ({} : Journal).append ⟨1, [120], [1], 0⟩ 5

def streams : Map ConsumerId StreamId := (∅ : Map ConsumerId StreamId).insert 1 1

theorem guarded : Run.Guarded (next fun _ => 0) FreshId {} actions := by
  refine ⟨trivial, ?_, ?_, trivial, ?_, trivial, ?_, ?_, ?_, ?_, ?_, trivial⟩
  all_goals
    intro j rest htodo
    cases htodo
  · trivial
  · trivial
  · rfl

theorem idle : shard.task.todo = [] := rfl

theorem stranger : ¬ shard.task.worker.engine.catalog.Holds 9 1 := by
  rintro ⟨k, b, hb, hconn, -⟩
  replace hb := (Map.lookup_insert_eq ∅ 1 k _).symm.trans hb
  split at hb
  · cases hb
    cases hconn
  · cases hb

/-- The ack of a stranger is refused, though it names the holder's subscription. -/
theorem ack_refused : shard.request (fun _ => 0) streams 9 (.ack 1 1 3) = shard := by
  have hstore : shard.store.OK := Journal.ok_new.append _ _
  exact ((foreign_request guarded rfl idle hstore streams 9 (.ack 1 1 3)).1 stranger).2 trivial

/-- **The `AckTerm` of a stranger tombstones the message.** -/
theorem ackTerm_tombstones :
    Run.Guarded (next fun _ => 0) FreshId {} actions ∧ shard.task.todo = [] ∧
      shard.store.OK ∧ ¬ shard.task.worker.engine.catalog.Holds 9 1 ∧
      (shard.store.read 1).map StoreEntry.tombstone = some false ∧
      ((shard.request (fun _ => 0) streams 9 (.ackTerm 1 1 0)).store.read 1).map StoreEntry.tombstone = some true :=
  ⟨guarded, idle, Journal.ok_new.append _ _, stranger, rfl, rfl⟩

end Intruder

end Arbitro
