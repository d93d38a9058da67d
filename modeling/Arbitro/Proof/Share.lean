import Arbitro.Proof.Publish

/-!
# Who shares a copy

With room for all recipients of an entry, what the recipient loop sends for it: one wire
copy to each (connection, consumer) group of fan-out subscriptions, one delivery to each
of these subscriptions that acks, and one copy to each queue.

* `CycleEnv.copies_apart`: no subscription gets two copies of an entry.
* `dispatched_once`: the copies and the deliveries of an entry, counted.
* `Unacked.copy_without_delivery`: a fire-and-forget subscription has a copy and no delivery.
-/

namespace Arbitro

open List

theorem countP_eq_one {α : Type*} {p : α → Bool} {l : List α} : (∃ x ∈ l, p x = true) →
    (l.Pairwise fun x y => p x = true → ¬p y = true) → l.countP p = 1 := by
  induction l with
  | nil => rintro ⟨x, hx, -⟩; cases hx
  | cons y l ih =>
    rintro ⟨x, hx, hpx⟩ hpair
    obtain ⟨hy, hl⟩ := pairwise_cons.1 hpair
    by_cases hpy : p y = true
    · rw [countP_cons_of_pos hpy, countP_eq_zero.2 fun z hz => hy z hz hpy]
    · rw [countP_cons_of_neg hpy]
      rcases mem_cons.1 hx with rfl | hx
      · exact absurd hpx hpy
      · exact ih ⟨x, hx, hpx⟩ hl

theorem Copy.delivery_keys {wh : WireHash} {x : Copy} {d : PendingNotify} (h : x.delivery wh = some d) :
    d.bindingIdx = x.idx ∧ d.queueId = x.recipient.queueId := by
  unfold delivery at h
  split at h
  · cases h
  · cases h
    exact ⟨rfl, rfl⟩

theorem countP_deliveries {wh : WireHash} {p : PendingNotify → Bool} {q : Copy → Bool}
    (hq : ∀ x d, Copy.delivery wh x = some d → p d = q x) {copies : List Copy} :
    (copies.filterMap (Copy.delivery wh)).countP p = copies.countP fun x => !x.binding.fireAndForget && q x := by
  rw [countP_filterMap]
  refine countP_congr fun x _ => ?_
  have hqx := hq x
  unfold Copy.delivery at hqx ⊢
  cases hf : x.binding.fireAndForget with
  | true => simp
  | false =>
    rw [hf] at hqx
    simp [hqx _ rfl]

namespace CycleEnv

variable {env : CycleEnv} {seen : List StoreEntry} {w : Walk} {e : StoreEntry} {reads : EntryReads}

section

variable (hsnap : CommandTask.From Worker.Tidy env.snap) (hc : CachesOK env.wireHash32 env.snap seen w.caches)
  (he : e ∈ seen) (hno : NoCollision env.wireHash32 seen)

include hsnap hc he hno

/-- **No subscription gets two copies of an entry**, and a copy goes through the binding
of its recipient's subscription. -/
theorem copies_apart (reads : EntryReads) : (env.copiesOf reads w e).Pairwise fun x y => x.idx ≠ y.idx := by
  obtain ⟨wk, hwk, hw⟩ := id hsnap
  have hagree : ∀ x ∈ env.copiesOf reads w e,
      env.snap.bindings[x.idx]? = some x.binding ∧ x.binding.subscriptionId = x.recipient.subscriptionId := by
    intro x hx
    obtain ⟨mt, hmt, hin⟩ := copiesOf_matching hc he hno hx
    obtain ⟨-, hp⟩ := env.copiesOf_passed _ _ _ x hx
    exact ⟨hp.binding, (hsnap.published.ok.stamped _ mt _ _ _ hmt (env.has_of_matching hin) hp.bound hp.binding).2.2.2⟩
  unfold copiesOf at hagree ⊢
  cases h : env.target reads w e with
  | none => exact Pairwise.nil
  | some found =>
    obtain ⟨w', cx, recipients⟩ := found
    obtain ⟨-, mt, hmt, rfl⟩ := target_coherent hc he hno h
    have hsubs : ((env.matching mt e).map (·.subscriptionId)).Nodup := by
      obtain ⟨g, hkeys, hg⟩ :=
        DrainSnapshot.matchTable_stamps wk.bindings.zipIdx wk.engine.catalog.matchTables e.streamId
      have hmt' := hmt
      rw [hw] at hmt'
      obtain ⟨mt₀, hmt₀, rfl⟩ := Option.map_eq_some_iff.1 (hg.symm.trans hmt')
      exact env.matching_once (hwk _ _ hmt₀) (fun x => (MatchTable.ids_of_key (hkeys x)).1) e
    have hturns : ((turns e (env.matching mt e)).map Prod.fst).Pairwise
        fun x y => x.subscriptionId ≠ y.subscriptionId := by
      unfold turns
      rw [zipIdx_map_fst, ← pairwise_map (R := (· ≠ ·)), map_rotate]
      exact nodup_rotate.2 hsubs
    refine (Context.copies_pairwise _ ⟨w', [], []⟩ hturns).imp_of_mem fun {x y} hx hy hne hidx => hne ?_
    rw [h] at hagree
    obtain ⟨hbx, hsx⟩ := hagree x hx
    obtain ⟨hby, hsy⟩ := hagree y hy
    rw [hidx, hby] at hbx
    rw [← hsx, ← hsy, Option.some.inj hbx]

omit hsnap in
theorem Owed.own_copy {me : MatchEntry} {b : ActiveBinding} (ho : env.Owed reads e me b)
    (hack : b.fireAndForget = false) (h0 : me.queueId = 0) :
    (e, me) ∈ env.pinsOf reads w e ∨ ∃ y ∈ env.copiesOf reads w e, y.recipient = me ∧ y.binding = b := by
  obtain ⟨w', cx, recipients, i, h, hi, hocx⟩ := ho.turn hc he hno
  unfold pinsOf copiesOf
  rw [h]
  rcases Context.own_copy (turns e recipients) ⟨w', [], []⟩ hack (me, i) hi hocx h0 with hp | hy
  · exact .inl (mem_map.2 ⟨me, hp, rfl⟩)
  · exact .inr hy

/-- **With room for every recipient, everybody has its share.** -/
theorem dispatched_once (hroom : env.pinsOf reads w e = []) :
    let copies := env.copiesOf reads w e
    let deliveries := copies.filterMap (Copy.delivery env.wireHash32)
    ((env.processDrainEntry reads w e).acc = copies.foldl Copy.addTo w.acc ∧
      (env.processDrainEntry reads w e).deliveries = w.deliveries ++ deliveries) ∧
    ∀ me b, env.Owed reads e me b →
      (me.queueId = 0 →
        copies.countP (fun x => x.recipient.queueId = 0 ∧ x.collapsed = false ∧ x.binding.group = b.group) = 1 ∧
        deliveries.countP (fun d => some d.bindingIdx = me.bindingIdx) = if b.fireAndForget then 0 else 1) ∧
      (me.queueId ≠ 0 → copies.countP (fun x => x.recipient.queueId = me.queueId) = 1 ∧
        ∀ x ∈ copies, x.recipient.queueId = me.queueId → x.collapsed = false ∧
          deliveries.countP (fun d => d.queueId = me.queueId) = if x.binding.fireAndForget then 0 else 1) := by
  intro copies deliveries
  obtain ⟨hdel, hacc, -⟩ := env.processDrainEntry_log reads w e
  have hpassed : ∀ x ∈ copies, env.Passed reads x := fun x hx => (env.copiesOf_passed reads w e x hx).2
  have hexcl : copies.Pairwise Copy.Exclusive := env.copiesOf_exclusive reads w e
  refine ⟨⟨hacc, hdel⟩, fun me b ho => ?_⟩
  obtain ⟨idx, hidx, hb⟩ := ho.owed.bound
  obtain hp | ⟨y, hy, hans, hyq⟩ := processDrainEntry_answered hc he hno ho
  · rw [hroom] at hp
    cases hp
  constructor
  · intro h0
    have hgroups : ∀ x ∈ copies, x.binding.groupIdx = b.groupIdx ↔ x.binding.group = b.group := fun x hx =>
      hsnap.published.ok.grouped _ (mem_of_getElem? (hpassed x hx).binding) _ (mem_of_getElem? hb)
    refine ⟨countP_eq_one ⟨y, hy, ?_⟩ ?_, ?_⟩
    · rcases hans with ⟨hne, -⟩ | ⟨hcol, hg⟩
      · exact absurd h0 hne
      · exact decide_eq_true ⟨hyq.trans h0, hcol, (hgroups y hy).1 hg⟩
    · refine hexcl.imp_of_mem fun {x z} hx hz hxz hpx hpz => ?_
      obtain ⟨hx0, -, hxg⟩ := of_decide_eq_true hpx
      obtain ⟨hz0, hzc, hzg⟩ := of_decide_eq_true hpz
      exact hxz.group hx0 hz0 hzc (((hgroups x hx).2 hxg).trans ((hgroups z hz).2 hzg).symm)
    -- the copies through its binding: they are its own
    have hown : ∀ x ∈ copies, some x.idx = me.bindingIdx → x.binding = b := by
      intro x hx hxi
      have hxb := (hpassed x hx).binding
      rw [Option.some.inj (hxi.trans hidx), show env.snap.bindings[idx]? = some b from hb] at hxb
      exact (Option.some.inj hxb).symm
    rw [countP_deliveries fun x d hd => congrArg (fun i => decide (some i = me.bindingIdx)) (Copy.delivery_keys hd).1]
    cases hack : b.fireAndForget with
    | true =>
      refine countP_eq_zero.2 fun x hx hpx => ?_
      obtain ⟨hff, hxi⟩ := Bool.and_eq_true_iff.1 hpx
      rw [hown x hx (of_decide_eq_true hxi), hack] at hff
      cases hff
    | false =>
      obtain ⟨x, hx, rfl, rfl⟩ := (ho.own_copy hc he hno hack h0).resolve_left (by rw [hroom]; nofun)
      refine countP_eq_one ⟨x, hx, by simp [hack, (hpassed x hx).bound]⟩ ?_
      refine (copies_apart hsnap hc he hno reads).imp fun {y z} hne hpy hpz => hne ?_
      have hyi := of_decide_eq_true (Bool.and_eq_true_iff.1 hpy).2
      have hzi := of_decide_eq_true (Bool.and_eq_true_iff.1 hpz).2
      exact Option.some.inj (hyi.trans hzi.symm)
  · intro hne
    have hone : copies.countP (fun x => x.recipient.queueId = me.queueId) = 1 := by
      refine countP_eq_one ⟨y, hy, decide_eq_true hyq⟩ (hexcl.imp fun {x z} hxz hpx hpz => ?_)
      have hz := of_decide_eq_true hpz
      exact hxz.queue (by rw [hz]; exact hne) ((of_decide_eq_true hpx).trans hz.symm)
    refine ⟨hone, fun x hx hxq => ⟨?_, ?_⟩⟩
    · by_contra hcol
      exact hne (by rw [← hxq]; exact (hpassed x hx).fanout (by simpa using hcol))
    obtain ⟨x', hx'⟩ := length_eq_one_iff.1 (countP_eq_length_filter.symm.trans hone)
    have hxx : x ∈ copies.filter fun x => x.recipient.queueId = me.queueId :=
      mem_filter.2 ⟨hx, decide_eq_true hxq⟩
    rw [hx', mem_singleton] at hxx
    rw [countP_deliveries fun x d hd => congrArg (fun q => decide (q = me.queueId)) (Copy.delivery_keys hd).2,
      ← countP_filter, hx', hxx]
    cases hack : x'.binding.fireAndForget <;> simp [hack]

end

end CycleEnv

namespace Unacked

open LateSubscriber

variable (fireAndForget : Bool)

def consumer (id : ConsumerId) (queue : QueueId) : ConsumerConfig :=
  ⟨id, queue, 1, true, if fireAndForget then .none else .explicit, 10, 0, 0, []⟩

/-- Consumer 1 has two subscriptions on connection 7; consumers 2 and 3, on connections 8
and 9, share queue 5. -/
def bindings : List ActiveBinding :=
  [⟨1, 7, 1, 1, 0, 1, 1, 0, 10, fireAndForget, 0, 0⟩, ⟨2, 7, 1, 2, 0, 2, 1, 0, 10, fireAndForget, 0, 0⟩,
    ⟨3, 8, 2, 3, 1, 1, 1, 5, 10, fireAndForget, 0, 0⟩, ⟨4, 9, 3, 4, 2, 1, 1, 5, 10, fireAndForget, 0, 0⟩]

def worker : Worker where
  engine := [.createStream ⟨1, []⟩, .createConsumer (consumer fireAndForget 1 0),
    .createConsumer (consumer fireAndForget 2 5), .createConsumer (consumer fireAndForget 3 5),
    .createSubscription ⟨1, 1, 1, 1, []⟩, .createSubscription ⟨2, 2, 1, 1, []⟩, .createSubscription ⟨3, 1, 1, 2, []⟩,
    .createSubscription ⟨4, 1, 1, 3, []⟩, .subscribe 7 1, .subscribe 7 2, .subscribe 8 3,
    .subscribe 9 4].foldl (Engine.step wh) .new
  bindings := bindings fireAndForget

def env (fireAndForget : Bool) : CycleEnv := ⟨wh, (worker fireAndForget).snapshot, fun _ => none, 0, 0⟩

def start : Walk := { caches := ∅ }

theorem published : CommandTask.From Worker.Tidy (env fireAndForget).snap := by
  refine ⟨worker fireAndForget, ?_, rfl⟩
  exact (foldlRecOn (motive := fun ctx : Engine => ctx.catalog.Filed wh) _ _ Catalog.filed_init
    fun _ h op _ => Engine.filed_step h op).tidy

/-- The recipient a binding is for. -/
def recipient (b : ActiveBinding) (i : ℕ) : MatchEntry :=
  ⟨b.consumerId, b.queueId, b.subscriptionId, b.connectionId, some i⟩

theorem owed {i : ℕ} (b : ActiveBinding) (hb : (bindings fireAndForget)[i]? = some b) :
    (env fireAndForget).Owed (reads 1) (entry 1) (recipient b i) b := by
  have hconn : b.connectionId ≠ 0 ∧ b.deliverFloor = 0 ∧ ((env fireAndForget).snap.matchTable 1).any fun mt =>
      decide (recipient b i ∈ (env fireAndForget).matching mt (entry 1)) := by
    rcases i with _ | _ | _ | _ | i
    all_goals cases hb
    all_goals cases fireAndForget <;> decide +kernel
  have hsnap : (env fireAndForget).snap.bindings = bindings fireAndForget := by cases fireAndForget <;> decide +kernel
  obtain ⟨hconn, hfloor, hmatch⟩ := hconn
  obtain ⟨mt, hmt, hmem⟩ := (Option.any_eq_true _ _).1 hmatch
  exact ⟨rfl, rfl, ⟨mt, hmt, of_decide_eq_true hmem⟩, hconn, rfl,
    ⟨i, rfl, (congrArg (·[i]?) hsnap).trans hb⟩, hfloor.trans_lt Nat.zero_lt_one, fun _ => rfl⟩

/-- The two subscriptions share a copy and have a delivery each, the queue has one copy. -/
theorem delivered_once :
    let copies := (env false).copiesOf (reads 1) start (entry 1)
    let deliveries := copies.filterMap (Copy.delivery wh)
    copies.countP (fun x => x.recipient.queueId = 0 ∧ x.collapsed = false ∧ x.binding.group = (7, 1)) = 1 ∧
      deliveries.countP (fun d => some d.bindingIdx = some 0) = 1 ∧
      deliveries.countP (fun d => some d.bindingIdx = some 1) = 1 ∧ copies.countP (fun x => x.recipient.queueId = 5) = 1 := by
  intro copies deliveries
  have hroom : (env false).pinsOf (reads 1) start (entry 1) = [] := by decide +kernel
  have hall := (CycleEnv.dispatched_once (published false) (w := start) (Recalls.empty [entry 1])
    (mem_singleton_self _) (by decide) hroom).2
  obtain ⟨hcopy, hfirst⟩ := (hall _ _ (owed false (i := 0) _ rfl)).1 rfl
  exact ⟨hcopy, hfirst, ((hall _ _ (owed false (i := 1) _ rfl)).1 rfl).2,
    ((hall _ _ (owed false (i := 2) _ rfl)).2 (by decide)).1⟩

/-- **A fire-and-forget subscription is sent its copy and opens no delivery.** -/
theorem copy_without_delivery :
    CommandTask.From Worker.Tidy (env true).snap ∧
      (env true).Owed (reads 1) (entry 1) ⟨1, 0, 1, 7, some 0⟩ ⟨1, 7, 1, 1, 0, 1, 1, 0, 10, true, 0, 0⟩ ∧
      (env true).pinsOf (reads 1) start (entry 1) = [] ∧
      ((env true).processDrainEntry (reads 1) start (entry 1)).acc.Carries 7 1 1 1 ∧
      ((env true).processDrainEntry (reads 1) start (entry 1)).deliveries = [] :=
  ⟨published true, owed true (i := 0) _ rfl, by decide +kernel,
    by unfold Accumulator.Carries; decide +kernel, by decide +kernel⟩

end Unacked

end Arbitro
