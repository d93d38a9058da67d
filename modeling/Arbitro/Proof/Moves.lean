import Arbitro.Proof.Books
import Arbitro.Shard.Task

/-!
# What the handlers move

Every handler takes some deliveries out of the engine and tells the drain about
each of them. `Moves w r op gone` says that a handler with outcome `r` took out
exactly `gone` and emitted exactly one event with operation `op` for each.

* `exec_moves`: what each command moves, given that it takes over no pendings.
* `delivered_gone`, `delivered_recorded`: the same for
  a notification of the drain.
-/

namespace Arbitro

open Engine Effect List

/-- Consumer, subject hash and seq of a delivery. -/
abbrev Row := ConsumerId × SubjectHash × ℕ

def AckEvent.row (e : AckEvent) : Row := (e.consumerId, e.subjectHash, e.seq)

namespace Effect

/-- The `Ack` event an effect sends: whom it is about and what it does. -/
def event : Effect → List (Row × SuppressOp)
  | .ackEvent e => [(e.row, e.op)]
  | _ => []

end Effect

/-- What the drain learns of released deliveries: an `Ack` event, a seq to walk again
from, a consumer that is gone. -/
inductive Mark where
  | event (e : AckEvent)
  | rewind (m : ℕ)
  | removed (c : ConsumerId)
  deriving DecidableEq

/-- What an effect is to tell the drain. -/
def Effect.marks : Effect → List Mark
  | .ackEvent e => [.event e]
  | .rewindReleased m => [.rewind m]
  | .rewindAll => [.rewind 1]
  | .consumerRemoved c => [.removed c]
  | .removeConsumer c => [.removed c]
  | _ => []

/-- There is a `Released` event for the delivery. -/
def Speaks (l : List Mark) (h : Held) : Prop := ∃ e : AckEvent, e.row = h.row ∧ e.op = .released ∧ .event e ∈ l

/-- There is a `Released` event for the delivery, and after it a rewind to its seq or
below. -/
def Frees (l : List Mark) (h : Held) : Prop :=
  ∃ e m, e.row = h.row ∧ e.op = .released ∧ 0 < m ∧ m ≤ h.pending.seq ∧ [.event e, .rewind m] <+ l

section Marks

variable {l l' : List Mark} {h : Held} {m : ℕ}

theorem Speaks.mono (hl : l <+ l') : Speaks l h → Speaks l' h := fun ⟨e, hrow, hop, he⟩ => ⟨e, hrow, hop, hl.subset he⟩

theorem Frees.mono (hl : l <+ l') : Frees l h → Frees l' h :=
  fun ⟨e, m, hrow, hop, hpos, hle, hs⟩ => ⟨e, m, hrow, hop, hpos, hle, hs.trans hl⟩

theorem Speaks.frees (hs : Speaks l h) (hm : .rewind m ∈ l') (hpos : 0 < m) (hle : m ≤ h.pending.seq) :
    Frees (l ++ l') h := by
  obtain ⟨e, hrow, hop, he⟩ := hs
  exact ⟨e, m, hrow, hop, hpos, hle, (singleton_sublist.2 he).append (singleton_sublist.2 hm)⟩

theorem Speaks.split {mid r : List Mark} (hs : Speaks (l ++ (mid ++ r)) h) : Speaks (l ++ r) h ∨ Speaks mid h := by
  obtain ⟨e, hrow, hop, he⟩ := hs
  simp only [mem_append] at he
  rcases he with he | he | he
  · exact .inl ⟨e, hrow, hop, mem_append_left _ he⟩
  · exact .inr ⟨e, hrow, hop, he⟩
  · exact .inl ⟨e, hrow, hop, mem_append_right _ he⟩

/-- What a stretch in the middle contributes: nothing, the event, or the rewind. -/
theorem Frees.split {mid r : List Mark} (hf : Frees (l ++ (mid ++ r)) h) :
    Frees (l ++ r) h ∨ Speaks mid h ∨ Speaks l h ∧ ∃ m, .rewind m ∈ mid ∧ 0 < m ∧ m ≤ h.pending.seq := by
  obtain ⟨e, m, hrow, hop, hpos, hle, hs⟩ := hf
  obtain ⟨l₁, l', heq, h₁, h'⟩ := sublist_append_iff.1 hs
  obtain ⟨l₂, l₃, rfl, h₂, h₃⟩ := sublist_append_iff.1 h'
  match l₁, l₂, heq with
  | l₁, [], heq => exact .inl ⟨e, m, hrow, hop, hpos, hle, heq ▸ h₁.append h₃⟩
  | [], k :: l₂, heq =>
    injection heq with hk
    exact .inr (.inl ⟨e, hrow, hop, hk ▸ h₂.subset mem_cons_self⟩)
  | [a], k :: l₂, heq =>
    injection heq with ha heq
    injection heq with hk
    exact .inr (.inr ⟨⟨e, hrow, hop, ha ▸ h₁.subset mem_cons_self⟩, m, hk ▸ h₂.subset mem_cons_self, hpos, hle⟩)
  | a :: b :: l₁, k :: l₂, heq => simp at heq

theorem speaks_of_event {es : List Effect} (he : (h.row, SuppressOp.released) ∈ es.flatMap event) :
    Speaks (es.flatMap marks) h := by
  obtain ⟨x, hx, hev⟩ := mem_flatMap.1 he
  cases x with
  | ackEvent e =>
    have heq := mem_singleton.1 hev
    exact ⟨e, (congrArg Prod.fst heq).symm, (congrArg Prod.snd heq).symm, mem_flatMap.2 ⟨_, hx, mem_singleton_self _⟩⟩
  | _ => cases hev

/-- Effects that send the event, and after them effects that rewind. -/
theorem frees_of_effects {pre es es' post : List Effect} (he : (h.row, SuppressOp.released) ∈ es.flatMap event)
    (hm : .rewind m ∈ es'.flatMap marks) (hle : 0 < m ∧ m ≤ h.pending.seq) :
    Frees ((pre ++ (es ++ (es' ++ post))).flatMap marks) h := by
  simp only [flatMap_append]
  refine ((speaks_of_event he).frees hm hle.1 hle.2).mono (Sublist.trans ?_ (sublist_append_right _ _))
  exact (sublist_append_left _ _).append_left _

end Marks

namespace Worker

variable {w : Worker} {es : List Effect} {r : Out} {f : Worker → Out} {g : List Held} {e : Engine} {d : DeltaEvents}
  {c : ConsumerId} {sid : SubscriptionId} {x : Expired} {seq : ℕ}

/-- The unsettled deliveries of the engine. -/
def held (w : Worker) : Multiset Held := w.engine.catalog.held

/-! ## Applying a delta -/

theorem flatMap_none {α β : Type} (l : List β) : (l.flatMap fun _ => ([] : List α)) = [] :=
  flatMap_eq_nil_iff.2 fun _ _ => rfl

section Projections

variable {α : Type} {f : Effect → List α}

theorem flatMap_releaseGateIf (hf : f .releaseGate = []) (p : Bool) : (releaseGateIf p).flatMap f = [] := by
  cases p <;> simp [releaseGateIf, hf]

theorem flatMap_rewindToLeast (seqs : List ℕ) :
    (rewindToLeast seqs).flatMap f = seqs.min?.toList.flatMap fun m => f (.rewindReleased m) := by
  unfold rewindToLeast
  cases seqs.min? <;> simp

/-- What a projection that ignores the gate and the snapshot sees of
`apply_delta_and_sync`. -/
theorem flatMap_applyDelta (hgate : f .releaseGate = []) (hpub : ∀ s, f (.publish s) = []) (w : Worker)
    (d : DeltaEvents) (acks : Bool) :
    (w.applyDeltaAndSync d acks).2.flatMap f =
      (w.ackEvents d (deltaOp acks)).flatMap f ++
      d.pendingSeqsReleased.min?.toList.flatMap (fun m => f (.rewindReleased m)) ++
      d.inflightReleased.flatMap (fun r => f (.decInflight r.1 r.2.1 r.2.2)) ++
      d.consumersRemoved.flatMap fun c => f (.removeConsumer c) := by
  unfold applyDeltaAndSync
  simp only [flatMap_append, flatMap_releaseGateIf hgate, flatMap_rewindToLeast, flatMap_map, append_nil, nil_append]
  split <;> simp [hpub]

end Projections

variable {op : SuppressOp} (hb : w.engine.Balanced) (acks : Bool) {conn : ConnectionId} {g' : List Held} (wh : WireHash)

theorem applyDelta_event : (w.applyDeltaAndSync d acks).2.flatMap event =
      d.subjectHashesAcked.map fun r => (r, deltaOp acks) := by
  rw [flatMap_applyDelta rfl fun _ => rfl]
  unfold ackEvents
  simp [event, AckEvent.row, flatMap_map, flatMap_none, ← map_eq_flatMap]

/-! ## Handlers -/

/-- Every unsettled delivery has a seq the store could have assigned. -/
def Positive (w : Worker) : Prop := ∀ h ∈ w.held, 0 < h.pending.seq

/-- A timer is armed that will ask for a rewind to `h`. -/
def Armed (w : Worker) (h : Held) : Prop :=
  ∃ t ∈ w.wheel, t.kind = .nackDelay ∧ t.consumerId = h.consumerId ∧ t.seq = h.pending.seq

/-- **A handler with outcome `r` took the deliveries `gone` out of the engine and
sent one event for each**, and sees to it that what it released is walked again after
its event. -/
structure Moves (w : Worker) (r : Out) (op : SuppressOp) (gone : List Held) : Prop where
  held : r.1.held + (gone : Multiset Held) = w.held
  balanced : r.1.engine.Balanced
  event : r.2.flatMap event = gone.map fun h => (h.row, op)
  freed : op = .released → ∀ h ∈ gone, Frees (r.2.flatMap marks) h ∨ r.1.Armed h

/-- Effects that send no `Ack` event. -/
def Silent (es : List Effect) : Prop := es.flatMap event = []

theorem Silent.append {es' : List Effect} (h : Silent es) (h' : Silent es') : Silent (es ++ es') := by
  unfold Silent at *
  rw [flatMap_append, h, h', append_nil]

theorem silent_releaseGateIf (p : Bool) : Silent (releaseGateIf p) := flatMap_releaseGateIf rfl p

theorem silent_rewindToLeast (seqs : List ℕ) : Silent (rewindToLeast seqs) := by
  unfold Silent
  rw [flatMap_rewindToLeast]
  exact flatMap_none _

theorem Moves.idle (op : SuppressOp) (hheld : r.1.held = w.held) (hb : r.1.engine.Balanced)
    (hs : Silent r.2) : Moves w r op [] where
  held := by rw [hheld]; simp
  balanced := hb
  event := hs
  freed _ h hh := by cases hh

theorem Moves.andThen (h : Moves w r op g) (h' : Moves r.1 (f r.1) op g')
    (hwheel : ∀ t ∈ r.1.wheel, t ∈ (f r.1).1.wheel) : Moves w (r.andThen f) op (g ++ g') where
  held := by
    show (f r.1).1.held + _ = _
    rw [← h.held, ← h'.held, ← Multiset.coe_add, add_assoc, add_comm (g : Multiset Held)]
  balanced := h'.balanced
  event := by
    show (r.2 ++ (f r.1).2).flatMap _ = _
    rw [flatMap_append, h.event, h'.event, map_append]
  freed hop t ht := by
    show Frees ((r.2 ++ (f r.1).2).flatMap _) t ∨ _
    rw [flatMap_append]
    rcases mem_append.1 ht with ht | ht
    · exact (h.freed hop t ht).imp (Frees.mono (sublist_append_left _ _)) fun ⟨x, hx, hxt⟩ => ⟨x, hwheel x hx, hxt⟩
    · exact (h'.freed hop t ht).imp_left (Frees.mono (sublist_append_right _ _))

theorem Moves.after (h : Moves w r op g) (hs : Silent es) : Moves w (r.1, es ++ r.2) op g where
  held := h.held
  balanced := h.balanced
  event := by rw [flatMap_append, hs, nil_append]; exact h.event
  freed hop t ht := by
    rw [flatMap_append]
    exact (h.freed hop t ht).imp_left (Frees.mono (sublist_append_right _ _))

theorem Moves.andSilent (h : Moves w r op g)
    (hengine : (f r.1).1.engine = r.1.engine) (hwheel : ∀ t ∈ r.1.wheel, t ∈ (f r.1).1.wheel)
    (hs : Silent (f r.1).2) : Moves w (r.andThen f) op g := by
  have hidle : Moves r.1 (f r.1) op [] := by
    refine .idle op ?_ ?_ hs
    · unfold Worker.held; rw [hengine]
    · rw [hengine]; exact h.balanced
  have hall := h.andThen hidle hwheel
  rwa [append_nil] at hall

/-- A rewind to the least of some positive seqs covers each of them. -/
theorem exists_rewind {seqs : List ℕ} {s : ℕ} (hs : s ∈ seqs) (hpos : ∀ x ∈ seqs, 0 < x) :
    ∃ m, .rewind m ∈ (rewindToLeast seqs).flatMap marks ∧ 0 < m ∧ m ≤ s := by
  obtain ⟨m, hmin⟩ := Option.isSome_iff_exists.1 (isSome_min?_of_mem hs)
  obtain ⟨hm, hle⟩ := min?_eq_some_iff.1 hmin
  exact ⟨m, by simp [rewindToLeast, hmin, marks], hpos m hm, hle s hs⟩

theorem Moves.mem_held (h : Moves w r op g) {t : Held} (ht : t ∈ g) : t ∈ w.held := by
  rw [← h.held]
  exact Multiset.mem_add.2 (.inr ht)

theorem Moves.positive (h : Moves w r op g) (hpos : w.Positive) : r.1.Positive := by
  intro t ht
  apply hpos
  rw [← h.held]
  exact Multiset.mem_add.2 (.inl ht)

include hb in
/-- **Applying the delta of a retirement.** -/
theorem applyDelta_moves {gone : List Held} (hpos : w.Positive) (h : Released w.engine {} e d gone) :
    Moves w ({ w with engine := e }.applyDeltaAndSync d false) .released gone where
  held := h.held
  balanced := hb.released h
  event := by
    rw [applyDelta_event, h.rows, nil_append, map_map]
    rfl
  freed _ t ht := by
    -- the events come before the rewind
    have hev : (t.row, SuppressOp.released) ∈ (ackEvents { w with engine := e } d .released).flatMap event := by
      unfold ackEvents
      rw [h.rows, nil_append]
      simp only [flatMap_map, event, AckEvent.row]
      exact mem_flatMap.2 ⟨t, ht, mem_singleton_self _⟩
    obtain ⟨m, hm, hmpos, hle⟩ := exists_rewind
      (show t.pending.seq ∈ d.pendingSeqsReleased by rw [h.seqs]; exact mem_map_of_mem ht) (by
        rw [h.seqs]
        refine forall_mem_map.2 fun t' ht' => hpos t' ?_
        show t' ∈ w.engine.catalog.held
        rw [← h.held]
        exact Multiset.mem_add.2 (.inr ht'))
    have hall := flatMap_applyDelta (f := marks) rfl (fun _ => rfl) { w with engine := e } d false
    rw [flatMap_rewindToLeast] at hm
    rw [hall, append_assoc]
    exact .inl (((speaks_of_event hev).frees hm hmpos hle).mono (sublist_append_left _ _))

include hb in
/-- The shape the retiring handlers share: silent effects, the delta, silent effects. -/
theorem retire_moves {gone : List Held} {pre : List Effect} (hpos : w.Positive) (h : Released w.engine {} e d gone)
    (hpre : Silent pre) (hf : ∀ w', (f w').1.engine = w'.engine ∧ (f w').1.wheel = w'.wheel ∧ Silent (f w').2) :
    Moves w (Out.andThen ({ w with engine := e }, pre) fun w' =>
      Out.andThen (w'.applyDeltaAndSync d false) f) .released gone := by
  have hd := applyDelta_moves hb hpos h
  obtain ⟨he, hw, hs⟩ := hf ({ w with engine := e }.applyDeltaAndSync d false).1
  exact (hd.andSilent he (fun t ht => by rw [hw]; exact ht) hs).after hpre

theorem silent_decDemand {α : Type} {l : List α} {f : α → StreamId} : Silent (l.map fun a => decDemand (f a)) := by
  unfold Silent
  rw [flatMap_map]
  exact flatMap_none _

theorem silent_publish {snap : DrainSnapshot} : Silent [.publish snap] := rfl

/-! ### Unsubscribe -/

theorem unsubscribes_moves {as : List ActiveBinding} {r : Out} {g : List Held} (h : Moves w r .released g)
    (hpos : r.1.Positive) :
    ∃ gone, Moves w (as.foldl unsubscribeOne r) .released gone := by
  induction as generalizing r g with
  | nil => exact ⟨g, h⟩
  | cons a as ih =>
    obtain ⟨g', hg'⟩ := unsubscribe_released h.balanced.wf
    have hdemand : Silent [.decDemand a.streamId] := rfl
    have hone := (applyDelta_moves h.balanced hpos hg').after hdemand
    exact ih (h.andThen hone fun t ht => ht) (hone.positive hpos)

include hb in
theorem unsubscribe_moves (hpos : w.Positive) (sid : SubscriptionId) :
    ∃ gone, Moves w (w.handleUnsubscribe sid) .released gone := by
  have hnil : Moves w (w, []) .released [] := .idle _ rfl hb rfl
  obtain ⟨g, hg⟩ := unsubscribes_moves hnil hpos
  exact ⟨g, hg.andSilent rfl (fun _ ht => ht) silent_publish⟩

/-! ### Ack and nack -/

theorem decMatched_silent : Silent (w.decMatched c d) := by
  unfold decMatched
  split
  · split <;> rfl
  · rfl

include hb in
/-- **What an ack and a nack share**: the delta, with silent effects around it. -/
theorem settled_moves {mid tail : List Effect} (w' : Worker) (acks : Bool) (hg : Settled c w.engine {} w'.engine d g)
    (hengine : r.1.engine = w'.engine) (hmid : Silent mid) (htail : Silent tail)
    (hout : r.2 = w'.decMatched c d ++ mid ++ ((w'.applyDeltaAndSync d acks).2 ++ tail))
    (hre : deltaOp acks = .released → ∀ h ∈ g, Frees (r.2.flatMap marks) h ∨ r.1.Armed h) :
    Moves w r (deltaOp acks) g := by
  refine ⟨?_, ?_, ?_, hre⟩
  · unfold Worker.held
    rw [hengine]
    exact hg.held
  · rw [hengine]
    exact hb.settled hg
  · have hmatched : (w'.decMatched c d).flatMap event = [] := decMatched_silent
    unfold Silent at hmid htail
    simp only [hout, flatMap_append, hmatched, hmid, htail, nil_append, append_nil]
    rw [applyDelta_event, hg.events, nil_append, map_map]
    rfl

theorem silent_nil : Silent [] := rfl

include hb in
theorem ack_moves {cmd : AckCmd} (hn : ∀ a ∈ cmd.entries, w.engine.NamedOwned cmd.connId cmd.consumerId a) :
    ∃ gone, Moves w (w.ackBody cmd) .acked gone ∧
      ∀ t ∈ gone, t.consumerId = cmd.consumerId ∧ ∃ a ∈ cmd.entries, t.pending.seq = a.seq := by
  obtain ⟨g, hg, hseq⟩ := settle_settled hb.wf hn
  refine ⟨g, ?_, fun t ht => ⟨hg.owner t ht, hseq t ht⟩⟩
  set w' : Worker := { w with
    engine := (w.engine.settle cmd.connId cmd.consumerId cmd.entries).1
    ackFloors := w.recordAcks cmd.connId cmd.consumerId cmd.entries
    dlqNackCounts := cmd.entries.foldl (fun m a => m.erase (cmd.consumerId, a.seq)) w.dlqNackCounts
    consumerCursor := bumpCursor w.consumerCursor cmd.consumerId cmd.entries }
  exact settled_moves hb w' true hg rfl (silent_releaseGateIf _) silent_nil (by rw [append_nil]; rfl) nofun

include hb in
theorem nack_moves {cmd : NackCmd} (hn : ∀ a ∈ cmd.entries, w.engine.NamedOwned cmd.connId cmd.consumerId a)
    (hseq : ∀ a ∈ cmd.entries, 0 < a.seq) : ∃ gone, Moves w (w.nackBody cmd) .released gone := by
  obtain ⟨g, hg, hfrom⟩ := settle_settled hb.wf hn
  refine ⟨g, ?_⟩
  set w' : Worker := { w with engine := (w.engine.settle cmd.connId cmd.consumerId cmd.entries).1 }
  unfold nackBody Out.andThen
  simp only
  split
  · refine settled_moves hb w' false hg rfl silent_nil silent_nil (by simp [w']) fun _ t ht => ?_
    obtain ⟨a, ha, hs⟩ := hfrom t ht
    refine .inr ⟨⟨a.seq, cmd.consumerId, 0, .nackDelay⟩, ?_, rfl, (hg.owner t ht).symm, hs.symm⟩
    exact mem_append_right _ (mem_map.2 ⟨a, ha, rfl⟩)
  refine settled_moves hb w' false hg rfl silent_nil
    ((silent_rewindToLeast (cmd.entries.map (·.seq))).append (silent_releaseGateIf (!cmd.entries.isEmpty)))
    (by simp [w']) fun _ t ht => ?_
  obtain ⟨a, ha, hs⟩ := hfrom t ht
  have hmem : a.seq ∈ cmd.entries.map (·.seq) := mem_map.2 ⟨a, ha, rfl⟩
  obtain ⟨m, hm, hpos, hle⟩ := exists_rewind hmem (forall_mem_map.2 hseq)
  have hev : (t.row, SuppressOp.released) ∈ (w'.applyDeltaAndSync (w.engine.settle cmd.connId cmd.consumerId
      cmd.entries).2 false).2.flatMap event := by
    rw [applyDelta_event, hg.events]
    simp only [nil_append, map_map]
    exact mem_map_of_mem ht
  exact .inl (frees_of_effects hev hm ⟨hpos, by rw [hs]; exact hle⟩)

/-! ### Subscribe and bind -/

theorem addBinding_silent {id : BindingId} {floor : ℕ} (hasWriter : Bool) :
    (w.addBinding id conn c sid floor hasWriter).1.engine = w.engine ∧
      (w.addBinding id conn c sid floor hasWriter).1.wheel = w.wheel ∧
      Silent (w.addBinding id conn c sid floor hasWriter).2 :=
  ⟨rfl, rfl, rfl⟩

/-- No pendings are taken over, and the binding id is fresh. -/
def CleanSubscribe (cat : Catalog) (sid : SubscriptionId) : Prop :=
  cat.displaced sid = 0 ∧ (cat.binding cat.nextBindingId).isNone

theorem CleanSubscribe.same {cat cat' : Catalog} (h : CleanSubscribe cat sid)
    (hs : cat.SameBindings cat') : CleanSubscribe cat' sid := by
  unfold CleanSubscribe Catalog.displaced at *
  rw [hs.bySubscription, hs.nextBindingId, hs.binding]
  refine ⟨?_, h.2⟩
  have hbind : cat'.binding = cat.binding := funext hs.binding
  rw [hbind]
  exact h.1

theorem subscribe_held (hb : e.Balanced) (hc : CleanSubscribe e.catalog sid) :
    (e.subscribe conn sid).2.1.Balanced ∧ (e.subscribe conn sid).2.1.catalog.held = e.catalog.held := by
  have hfresh := Option.isNone_iff_eq_none.1 hc.2
  refine ⟨hb.subscribe conn sid hc.1 hfresh, ?_⟩
  rcases Catalog.subscribe_spec hb.wf conn sid {} hfresh with ⟨x, hx⟩ | ⟨hheld, -⟩
  · unfold subscribe; rw [hx]
  · rw [hc.1, add_zero] at hheld
    exact hheld

theorem same_createConsumer (config : ConsumerConfig) :
    e.catalog.SameBindings (e.createConsumer config).1.catalog ∧ (e.createConsumer config).1.inflight = e.inflight := by
  exact same_withCatalog e fun _ => Catalog.ensureConsumer_entities

/-- The engine once `handle_subscribe` has made sure its entities exist. -/
def ensured (wh : WireHash) (w : Worker) (cmd : SubscribeCmd) : Engine :=
  (((w.engine.createStream cmd.streamConfig).1.createConsumer cmd.consumerConfig).1.createSubscription wh
    cmd.subscriptionConfig).1

theorem same_ensured (cmd : SubscribeCmd) : w.engine.catalog.SameBindings (w.ensured wh cmd).catalog ∧
      (w.ensured wh cmd).inflight = w.engine.inflight := by
  obtain ⟨h₁, i₁⟩ := same_withCatalog w.engine (r := w.engine.catalog.ensureStream cmd.streamConfig)
    fun _ => Catalog.ensureStream_entities
  obtain ⟨h₂, i₂⟩ := same_createConsumer cmd.consumerConfig
  obtain ⟨h₃, i₃⟩ := same_withCatalog
    ((w.engine.createStream cmd.streamConfig).1.createConsumer cmd.consumerConfig).1
    (r := Catalog.ensureSubscription wh _ cmd.subscriptionConfig) fun _ => Catalog.ensureSubscription_entities
  exact ⟨(h₁.trans h₂).trans h₃, i₃.trans (i₂.trans i₁)⟩

/-- What `handle_subscribe` does to the engine, and that its effects are silent. -/
theorem handleSubscribe_eq (w : Worker) (cmd : SubscribeCmd) :
    ((w.handleSubscribe wh cmd).1.engine = w.ensured wh cmd ∨
      (w.handleSubscribe wh cmd).1.engine =
        ((w.ensured wh cmd).subscribe cmd.connectionId cmd.subscriptionConfig.id).2.1) ∧
      (w.handleSubscribe wh cmd).1.wheel = w.wheel ∧ Silent (w.handleSubscribe wh cmd).2 := by
  unfold handleSubscribe
  simp only
  split
  · refine ⟨.inr ?_, ?_, ?_⟩
    · split <;> rfl
    · split <;> rfl
    have htail : ∀ m snap, Silent [.rewindReleased m, .publish snap, .releaseGate] :=
      fun _ _ => rfl
    split
    · exact (addBinding_silent _).2.2.append (htail _ _)
    · exact htail _ _
  · exact ⟨.inl rfl, rfl, rfl⟩

include hb in
theorem subscribe_moves {cmd : SubscribeCmd}
    (hc : CleanSubscribe w.engine.catalog cmd.subscriptionConfig.id) (op : SuppressOp) :
    Moves w (w.handleSubscribe wh cmd) op [] := by
  obtain ⟨hs, hi⟩ := same_ensured wh cmd
  have hb' : (w.ensured wh cmd).Balanced := hb.same hs hi
  obtain ⟨he, -, hsilent⟩ := handleSubscribe_eq wh w cmd
  obtain ⟨hbal, hheld⟩ := subscribe_held hb' (hc.same hs)
  refine .idle op ?_ ?_ hsilent
  · unfold Worker.held
    rcases he with he | he
    · rw [he]; exact hs.held
    · rw [he, hheld]; exact hs.held
  · rcases he with he | he
    · rw [he]; exact hb'
    · rw [he]; exact hbal

theorem handleBind_eq (cmd : BindCmd) :
    (w.handleBind cmd).1.engine = (w.engine.subscribe cmd.connectionId cmd.subscriptionId).2.1 ∧
      (w.handleBind cmd).1.wheel = w.wheel ∧ Silent (w.handleBind cmd).2 := by
  have htail : ∀ snap, Silent [.publish snap, .releaseGate] := fun _ => rfl
  unfold handleBind Out.andThen
  simp only [dropBindings]
  split
  · refine ⟨rfl, rfl, Silent.append ?_ (htail _)⟩
    exact (addBinding_silent _).2.2.append rfl
  · exact ⟨rfl, rfl, htail _⟩

include hb in
theorem bind_moves {cmd : BindCmd} (hc : CleanSubscribe w.engine.catalog cmd.subscriptionId) (op : SuppressOp) :
    Moves w (w.handleBind cmd) op [] := by
  obtain ⟨he, -, hsilent⟩ := handleBind_eq cmd
  obtain ⟨hbal, hheld⟩ := subscribe_held hb hc
  exact .idle op (by unfold Worker.held; rw [he, hheld]) (by rw [he]; exact hbal) hsilent

/-! ### Commands that move nothing -/

theorem handleCreateStream_eq (w : Worker) (config : StreamConfig) (maxAge last : ℕ) :
    (w.handleCreateStream config maxAge last).1.engine = (w.engine.createStream config).1 ∧
      (w.handleCreateStream config maxAge last).1.wheel = w.wheel := by
  unfold handleCreateStream rebuildAndSwapSnapshot
  simp only
  split <;> exact ⟨rfl, rfl⟩

include hb in
theorem createStream_moves (config : StreamConfig) (maxAge last : ℕ)
    : Moves w (w.handleCreateStream config maxAge last) op [] := by
  obtain ⟨hs, hi⟩ := same_withCatalog w.engine (r := w.engine.catalog.ensureStream config)
    fun _ => Catalog.ensureStream_entities
  have hengine := (handleCreateStream_eq w config maxAge last).1
  refine .idle op ?_ ?_ ?_
  · unfold Worker.held; rw [hengine]; exact hs.held
  · rw [hengine]; exact hb.same hs hi
  unfold handleCreateStream
  simp only
  split
  · exact silent_publish
  · exact rfl

theorem same_setLimits (id : StreamId) (limits : List (Bytes × ℕ)) :
    e.catalog.SameBindings (limits.foldl (fun e l => e.setMaxSubjectInflight wh id l.1 l.2) e).catalog ∧
      (limits.foldl (fun e l => e.setMaxSubjectInflight wh id l.1 l.2) e).inflight = e.inflight := by
  refine foldlRecOn limits _ (motive := fun x : Engine => e.catalog.SameBindings x.catalog ∧ x.inflight = e.inflight)
    ⟨.refl _, rfl⟩ fun x ⟨h₁, i₁⟩ l _ => ?_
  obtain ⟨h₂, i₂⟩ := same_withCatalog x (r := x.catalog.setMaxSubjectInflight wh id l.1 l.2)
    fun _ => Catalog.setMaxSubjectInflight_entities
  exact ⟨h₁.trans h₂, i₂.trans i₁⟩

theorem same_handleCreateConsumer (w : Worker) (config : ConsumerConfig) (limits : List (Bytes × ℕ)) :
    w.engine.catalog.SameBindings (w.handleCreateConsumer wh config limits).1.engine.catalog ∧
      (w.handleCreateConsumer wh config limits).1.engine.inflight = w.engine.inflight := by
  obtain ⟨h₁, i₁⟩ := same_createConsumer config
  unfold handleCreateConsumer
  simp only
  split
  · obtain ⟨h₂, i₂⟩ := same_setLimits wh config.streamId limits
    exact ⟨h₁.trans h₂, i₂.trans i₁⟩
  · exact ⟨h₁, i₁⟩

include hb in
theorem createConsumer_moves (config : ConsumerConfig) (limits : List (Bytes × ℕ)) :
    Moves w (w.handleCreateConsumer wh config limits) op [] := by
  obtain ⟨hs, hi⟩ := same_handleCreateConsumer wh w config limits
  exact .idle op hs.held (hb.same hs hi) rfl

include hb in
theorem setPaused_moves (c : ConsumerId) (paused : Bool) : Moves w (w.handleSetPaused c paused) op [] := by
  refine .idle op rfl (hb.same ⟨rfl, rfl, rfl, rfl, rfl⟩ rfl) ?_
  unfold handleSetPaused
  simp only
  split
  · exact Silent.append rfl (silent_releaseGateIf _)
  · exact rfl

/-! ### Timers -/

/-- **The timers `ts` expired**: the deliveries `g` timed out, one row of the delta and one
seq to rewind to for each. -/
structure Expires (x x' : Expired) (ts : List WheelEntry) (g : List Held) : Prop where
  held : x'.worker.held + (g : Multiset Held) = x.worker.held
  balanced : x'.worker.engine.Balanced
  rest : x'.worker = { x.worker with engine := x'.worker.engine }
  delta : x'.delta = { x.delta with subjectHashesAcked := x.delta.subjectHashesAcked ++ g.map Held.row }
  decs : ∃ ds, x'.decs = x.decs ++ ds ∧ Silent ds
  rewinds : ∃ rs, x'.rewinds = x.rewinds ++ rs ∧ (∀ h ∈ g, h.pending.seq ∈ rs) ∧
    (∀ t ∈ ts, t.kind = .nackDelay → t.seq ∈ rs) ∧
    ∀ s ∈ rs, (∃ t ∈ ts, t.kind = .nackDelay ∧ t.seq = s) ∨ ∃ h ∈ x.worker.held, h.pending.seq = s

theorem Expires.refl (hb : x.worker.engine.Balanced) : Expires x x [] [] where
  held := by simp
  balanced := hb
  rest := rfl
  delta := by simp
  decs := ⟨[], by simp, rfl⟩
  rewinds := ⟨[], by simp, by simp, by simp, by simp⟩

theorem Expires.trans {y z : Expired} {ts ts' : List WheelEntry}
    (h : Expires x y ts g) (h' : Expires y z ts' g') : Expires x z (ts ++ ts') (g ++ g') where
  held := by rw [← h.held, ← h'.held, ← Multiset.coe_add, add_assoc, add_comm (g : Multiset Held)]
  balanced := h'.balanced
  rest := by rw [h'.rest, h.rest]
  delta := by rw [h'.delta, h.delta]; simp
  decs := by
    obtain ⟨ds, hds, he⟩ := h.decs
    obtain ⟨ds', hds', he'⟩ := h'.decs
    exact ⟨ds ++ ds', by rw [hds', hds, append_assoc], he.append he'⟩
  rewinds := by
    obtain ⟨rs, hrs, hg, hown, hfrom⟩ := h.rewinds
    obtain ⟨rs', hrs', hg', hown', hfrom'⟩ := h'.rewinds
    refine ⟨rs ++ rs', by rw [hrs', hrs, append_assoc], fun t ht => ?_, fun t ht hk => ?_, fun s hs => ?_⟩
    · exact mem_append.2 ((mem_append.1 ht).imp (hg t) (hg' t))
    · exact mem_append.2 ((mem_append.1 ht).imp (hown t · hk) (hown' t · hk))
    rcases mem_append.1 hs with hs | hs
    · rcases hfrom s hs with ⟨t, ht, hk⟩ | hheld
      · exact .inl ⟨t, mem_append_left _ ht, hk⟩
      · exact .inr hheld
    rcases hfrom' s hs with ⟨t, ht, hk⟩ | ⟨t, ht, hseq⟩
    · exact .inl ⟨t, mem_append_right _ ht, hk⟩
    · refine .inr ⟨t, ?_, hseq⟩
      rw [← h.held]
      exact Multiset.mem_add.2 (.inl ht)

theorem held_of_stillPending (hw : w.engine.catalog.WF) (h : w.stillPending c seq) :
    ∃ t ∈ w.held, t.pending.seq = seq := by
  obtain ⟨id, -, hp⟩ := any_eq_true.1 h
  cases hb : w.engine.catalog.binding id with
  | none => rw [hb] at hp; cases hp
  | some b =>
    rw [hb] at hp
    obtain ⟨p, hp⟩ := Option.isSome_iff_exists.1 hp
    exact ⟨b.hold p, Catalog.mem_held.2 ⟨id, b, seq, p, hb, hp, rfl⟩, hw.pendingOK id b seq p hb hp⟩

theorem expireEntry_decs (x : Expired) (t : WheelEntry) :
    ∃ ds, (expireEntry x t).decs = x.decs ++ ds ∧ Silent ds := by
  have hsame : ∃ ds, x.decs = x.decs ++ ds ∧ Silent ds := ⟨[], (append_nil _).symm, rfl⟩
  unfold expireEntry
  split
  · exact hsame
  split
  · simp only
    split
    · exact ⟨_, rfl, rfl⟩
    · exact hsame
  · exact hsame

theorem expireEntry_expires (hb : x.worker.engine.Balanced) (t : WheelEntry) :
    ∃ g, Expires x (expireEntry x t) [t] g := by
  have hsame : ∀ rs : List ℕ, (t.kind = .nackDelay → t.seq ∈ rs) →
      (∀ s ∈ rs, (∃ t' ∈ [t], t'.kind = .nackDelay ∧ t'.seq = s) ∨ ∃ h ∈ x.worker.held, h.pending.seq = s) →
      Expires x { x with rewinds := x.rewinds ++ rs } [t] [] := by
    intro rs hown hrs
    exact ⟨by simp, hb, rfl, by simp, ⟨[], by simp, rfl⟩, ⟨rs, rfl, by simp, by simpa using hown, hrs⟩⟩
  have hdecs := expireEntry_decs x t
  unfold expireEntry at hdecs ⊢
  split
  · next hk => exact ⟨[], hsame [t.seq] (by simp) (by simp [hk])⟩
  next hk =>
  rw [hk] at hdecs
  simp only at hdecs
  have hnot : t.kind ≠ .nackDelay := by rw [hk]; decide
  split
  · next hstill =>
    obtain ⟨h₀, hh₀, hseq₀⟩ := held_of_stillPending hb.wf hstill
    have hrewinds : ∀ s ∈ [t.seq], (∃ t' ∈ [t], t'.kind = WheelEntryKind.nackDelay ∧ t'.seq = s) ∨
        ∃ h ∈ x.worker.held, h.pending.seq = s := by
      intro s hs
      rw [mem_singleton.1 hs]
      exact .inr ⟨h₀, hh₀, hseq₀⟩
    rw [if_pos hstill] at hdecs
    simp only at hdecs ⊢
    rcases settle_unnamed hb.wf
      (a := ⟨((x.worker.engine.catalog.consumer t.consumerId).map (·.streamId)).getD 0, t.seq, 0⟩) rfl with
      ⟨heq, -⟩ | ⟨t', hseq, hset⟩
    · rw [heq]
      exact ⟨[], by simp [Worker.held], hb, rfl, by simp [DeltaEvents.merge], hdecs,
        ⟨[t.seq], rfl, by simp, by simp, hrewinds⟩⟩
    refine ⟨[t'], hset.held, hb.settled hset, rfl, ?_, hdecs, ⟨[t.seq], rfl, ?_, by simp, hrewinds⟩⟩
    · rw [hset.events]
      simp [DeltaEvents.merge]
    · intro h hh
      rw [mem_singleton.1 hh, hseq]
      exact mem_cons_self
  · have h := hsame [] (fun h => absurd h hnot) (by simp)
    rw [append_nil] at h
    exact ⟨[], h⟩

theorem expire_expires (ts : List WheelEntry) {x : Expired} (hb : x.worker.engine.Balanced) :
    ∃ g, Expires x (ts.foldl expireEntry x) ts g := by
  induction ts generalizing x with
  | nil => exact ⟨[], .refl hb⟩
  | cons t ts ih =>
    obtain ⟨g, hg⟩ := expireEntry_expires hb t
    obtain ⟨g', hg'⟩ := ih hg.balanced
    exact ⟨g ++ g', hg.trans hg'⟩

/-- Every delayed nack has a seq a store could have assigned. -/
def WheelPositive (w : Worker) : Prop := ∀ t ∈ w.wheel, t.kind = .nackDelay → 0 < t.seq

theorem syncExpired_spec (hd : d = { subjectHashesAcked := g.map Held.row }) :
    (w.syncExpired d).1.engine = w.engine ∧
      (w.syncExpired d).2.flatMap event = g.map fun h => (h.row, SuppressOp.released) := by
  unfold syncExpired
  split
  · next hempty =>
    have hnil : g = [] := by
      rw [hd] at hempty
      cases g with
      | nil => rfl
      | cons t g => cases hempty
    subst hnil
    exact ⟨rfl, rfl⟩
  · refine ⟨rfl, ?_⟩
    rw [applyDelta_event, hd, map_map]
    rfl

section Timers

variable (hpos : w.Positive) (hwheel : w.WheelPositive) (due : List WheelEntry)

/-- What the timers that fire leave, before their delta is applied. -/
theorem expireAll_expires (hb : w.engine.Balanced) {fired : List WheelEntry} :
    ∃ g, Expires { worker := { w with wheel := w.wheel.diff fired } } (w.expireAll fired) fired g :=
  expire_expires fired hb

include hpos hwheel in
/-- A rewind to a seq that the fired timers release, or below it, is asked for. -/
theorem wheelAdvance_rewind {fired : List WheelEntry} (hf : fired = due.bagInter w.wheel)
    (hg : Expires { worker := { w with wheel := w.wheel.diff fired } } (w.expireAll fired) fired g)
    (hs : seq ∈ (w.expireAll fired).rewinds) :
    ∃ m, .rewind m ∈ (rewindToLeast (w.expireAll fired).rewinds).flatMap marks ∧ 0 < m ∧ m ≤ seq := by
  obtain ⟨rs, hrs, -, -, hfrom⟩ := hg.rewinds
  refine exists_rewind hs fun s hs => ?_
  rw [hrs] at hs
  rcases hfrom s hs with ⟨t', ht', hk, rfl⟩ | ⟨h, hh, rfl⟩
  · rw [hf] at ht'
    exact hwheel t' (mem_bagInter.1 ht').2 hk
  · exact hpos h hh

include hb hpos hwheel in
theorem timers_moves : ∃ gone, Moves w (w.wheelAdvance due) .released gone := by
  obtain ⟨g, hg⟩ := expireAll_expires hb
  set x := w.expireAll (due.bagInter w.wheel) with hx
  obtain ⟨ds, hds, hde⟩ := hg.decs
  obtain ⟨heng, hev⟩ := syncExpired_spec hg.delta
  have htail : _ = _ := (silent_rewindToLeast x.rewinds).append (silent_releaseGateIf (!x.rewinds.isEmpty))
  have hout : (w.wheelAdvance due).2 = ds ++ ((x.worker.syncExpired x.delta).2 ++
      (rewindToLeast x.rewinds ++ releaseGateIf (!x.rewinds.isEmpty))) := by
    have h1 : x.decs = ds := hds
    rw [← h1]
    rfl
  refine ⟨g, ?_, ?_, ?_, fun _ t ht => .inl ?_⟩
  · show (x.worker.syncExpired x.delta).1.engine.catalog.held + _ = _
    rw [heng]; exact hg.held
  · show (x.worker.syncExpired x.delta).1.engine.Balanced
    rw [heng]; exact hg.balanced
  · rw [hout, flatMap_append, flatMap_append, hde, hev, htail, append_nil, nil_append]
  · obtain ⟨rs, hrs, hgone, -⟩ := hg.rewinds
    obtain ⟨m, hm, hle⟩ := wheelAdvance_rewind hpos hwheel due rfl hg (by rw [← hx, hrs]; exact hgone t ht)
    rw [hout]
    exact frees_of_effects (by rw [hev]; exact mem_map_of_mem ht) hm hle

end Timers

/-! ### Every command -/

end Worker

/-- What the body of a command relies on: the ownership check of `handle_ack` and
`handle_nack` still holds, nacked seqs are real, and a new binding takes over
nothing. -/
def Job.Ready (w : Worker) : Job → Prop
  | .ack cmd => ∀ a ∈ cmd.entries, w.engine.NamedOwned cmd.connId cmd.consumerId a
  | .nack cmd => ∀ a ∈ cmd.entries, w.engine.NamedOwned cmd.connId cmd.consumerId a ∧ 0 < a.seq
  | .subscribe cmd => Worker.CleanSubscribe w.engine.catalog cmd.subscriptionConfig.id
  | .bind cmd => Worker.CleanSubscribe w.engine.catalog cmd.subscriptionId
  | _ => True

/-- What a command's events do to the seqs it settles. -/
def Job.op : Job → SuppressOp
  | .ack _ => .acked
  | _ => .released

namespace Worker

variable {w : Worker} {id : BindingId} (wh : WireHash) {j : Job}

/-- **Every command sends one event for each delivery it takes out.** -/
theorem exec_moves (hb : w.engine.Balanced) (hpos : w.Positive) (hwheel : w.WheelPositive)
    (hj : j.Ready w) : ∃ gone, Moves w (w.exec wh j) j.op gone := by
  cases j with
  | ack cmd =>
    obtain ⟨g, hg, -⟩ := ack_moves hb hj
    exact ⟨g, hg⟩
  | nack cmd => exact nack_moves hb (fun a ha => (hj a ha).1) fun a ha => (hj a ha).2
  | subscribe cmd => exact ⟨[], subscribe_moves hb wh hj _⟩
  | unsubscribe sid => exact unsubscribe_moves hb hpos sid
  | bind cmd => exact ⟨[], bind_moves hb hj _⟩
  | createStream config maxAgeMs lastSeq => exact ⟨[], createStream_moves hb config maxAgeMs _⟩
  | deleteStream id =>
    obtain ⟨g, hg⟩ := deleteStream_released hb.wf id
    exact ⟨g, retire_moves hb hpos hg silent_decDemand fun w' => ⟨rfl, rfl, silent_publish⟩⟩
  | createConsumer config limits => exact ⟨[], createConsumer_moves hb wh config _⟩
  | deleteConsumer c =>
    obtain ⟨g, hg⟩ := deleteConsumer_released hb.wf c
    exact ⟨g, retire_moves hb hpos hg silent_decDemand fun w' => ⟨rfl, rfl, rfl⟩⟩
  | openConnection conn node => exact ⟨[], .idle _ rfl (hb.same ⟨rfl, rfl, rfl, rfl, rfl⟩ rfl) rfl⟩
  | drainConnection conn =>
    obtain ⟨g, hg⟩ := markConnectionDead_released hb.wf conn
    exact ⟨g, retire_moves hb hpos hg silent_decDemand fun w' => ⟨rfl, rfl, silent_publish⟩⟩
  | setPaused c paused => exact ⟨[], setPaused_moves hb c _⟩
  | loadStreamLifecycle births => exact ⟨[], .idle _ rfl hb silent_publish⟩
  | timers due => exact timers_moves hb hpos hwheel due

/-! ### The armed timers -/

/-- Delayed nacks stay armed until they ask for their rewind. -/
structure Timed (w : Worker) (r : Out) : Prop where
  kept : ∀ t ∈ w.wheel, t.kind = .nackDelay →
    t ∈ r.1.wheel ∨ ∃ m, .rewind m ∈ r.2.flatMap marks ∧ 0 < m ∧ m ≤ t.seq
  positive : r.1.WheelPositive

theorem Timed.of_eq {r : Out} (hw : w.WheelPositive) (h : r.1.wheel = w.wheel) : Timed w r where
  kept t ht _ := .inl (by rw [h]; exact ht)
  positive := by unfold WheelPositive; rw [h]; exact hw

theorem unsubscribes_wheel (as : List ActiveBinding) (r : Out) : (as.foldl unsubscribeOne r).1.wheel = r.1.wheel :=
  foldlRecOn as unsubscribeOne (motive := fun x : Out => x.1.wheel = r.1.wheel) rfl fun _ h _ _ => h

theorem syncExpired_wheel (d : DeltaEvents) : (w.syncExpired d).1.wheel = w.wheel := by
  unfold syncExpired
  split <;> rfl

theorem timers_timed (hb : w.engine.Balanced) (hpos : w.Positive) (hwheel : w.WheelPositive)
    (due : List WheelEntry) : Timed w (w.wheelAdvance due) := by
  set fired := due.bagInter w.wheel with hfired
  obtain ⟨g, hg⟩ := expireAll_expires hb
  have hafter : (w.wheelAdvance due).1.wheel = w.wheel.diff fired := by
    show ((w.expireAll fired).worker.syncExpired _).1.wheel = _
    rw [syncExpired_wheel, hg.rest]
  refine ⟨fun t ht hk => ?_, fun t ht hk => ?_⟩
  · by_cases hf : t ∈ fired
    · -- the timer fired: its seq is among those the rewind is the least of
      obtain ⟨rs, hrs, -, hown, -⟩ := hg.rewinds
      obtain ⟨m, hm, hle⟩ := wheelAdvance_rewind hpos hwheel due hfired hg (by rw [hrs]; exact hown t hf hk)
      refine .inr ⟨m, ?_, hle⟩
      unfold wheelAdvance Out.andThen
      simp only [flatMap_append, mem_append, ← hfired]
      exact .inr (.inr (.inl hm))
    · left
      rw [hafter]
      exact mem_diff_of_mem ht hf
  · rw [hafter] at ht
    exact hwheel t ((diff_sublist _ _).mem ht) hk

theorem exec_timed (hb : w.engine.Balanced) (hpos : w.Positive) (hwheel : w.WheelPositive)
    (hj : j.Ready w) : Timed w (w.exec wh j) := by
  cases j with
  | nack cmd =>
    unfold exec nackBody Out.andThen
    simp only
    split
    · refine ⟨fun t ht _ => .inl (mem_append_left _ ht), fun t ht hk => ?_⟩
      rcases mem_append.1 ht with ht | ht
      · exact hwheel t ht hk
      · obtain ⟨a, ha, rfl⟩ := mem_map.1 ht
        exact (hj a ha).2
    · exact .of_eq hwheel rfl
  | subscribe cmd => exact .of_eq hwheel (handleSubscribe_eq wh w cmd).2.1
  | unsubscribe sid => exact .of_eq hwheel (unsubscribes_wheel _ _)
  | bind cmd => exact .of_eq hwheel (handleBind_eq cmd).2.1
  | createStream config maxAgeMs lastSeq => exact .of_eq hwheel (handleCreateStream_eq w config maxAgeMs lastSeq).2
  | timers due => exact timers_timed hb hpos hwheel due
  | _ => exact .of_eq hwheel rfl

/-! ## Notifications -/

/-- **A `Delivered` for a binding that is gone is taken back**: one `Released` event
for each entry. -/
theorem delivered_gone (hid : w.engine.catalog.binding id = none) (c : ConsumerId) (q : QueueId)
    (es : List DeliveredEntry) : let r := w.handleNotification (.delivered id c q es)
    r.1 = w ∧ r.2.flatMap event = es.map fun e => ((c, e.subjectHash, e.seq), .released) := by
  have hr : w.handleNotification (.delivered id c q es) = w.reverseDelivered c q es := by
    simp only [handleNotification, hid]
  have htail : _ = _ := silent_rewindToLeast (es.map (·.seq))
  rw [hr]
  unfold reverseDelivered
  refine ⟨rfl, ?_⟩
  simp only [flatMap_append, htail]
  simp [event, AckEvent.row, flatMap_map, ← map_eq_flatMap]

theorem wheelInsertDelivered_spec (c : ConsumerId) (es : List DeliveredEntry) :
    (w.wheelInsertDelivered c es).engine = w.engine ∧
      ∃ ts, (w.wheelInsertDelivered c es).wheel = w.wheel ++ ts ∧ ∀ t ∈ ts, t.kind = .ackTimeout := by
  unfold wheelInsertDelivered
  split
  · exact ⟨rfl, [], by simp, by simp⟩
  · refine ⟨rfl, _, rfl, fun t ht => ?_⟩
    obtain ⟨e, -, rfl⟩ := mem_map.1 ht
    rfl

/-- **A `Delivered` for a live binding** records what was not pending there. -/
theorem delivered_recorded (hw : w.engine.catalog.WF) {b : Binding}
    (hid : w.engine.catalog.binding id = some b) (c : ConsumerId) (q : QueueId) (es : List DeliveredEntry) :
    let r := w.handleNotification (.delivered id c q es)
    Recorded w.engine r.1.engine (w.engine.freshHeld id es) ∧ Silent r.2 := by
  have hr : w.handleNotification (.delivered id c q es) =
      ({ w with engine := w.engine.applyDelivered id es }.wheelInsertDelivered c es,
        w.reconcileDups c q (dupHashes b es)) := by
    simp only [handleNotification, hid]
  rw [hr]
  refine ⟨?_, ?_⟩
  · rw [(wheelInsertDelivered_spec c es).1]
    exact applyDelivered_recorded hw es
  unfold reconcileDups Silent
  split
  · rfl
  · simp [event, flatMap_map, flatMap_none]

end Worker

end Arbitro
