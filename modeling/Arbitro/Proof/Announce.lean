import Arbitro.Proof.Moves

/-!
# Released deliveries are announced

Whenever the command task drops an unsettled delivery that was not acked, the
drain hears of it: a `Released` event for its consumer and seq and after it a rewind to
its seq or below, or the removal of the consumer.

* `Inv`: what every state of an allowed run satisfies.
* `Due`: the announcement of a delivery, sent or still queued; no step loses one
  (`keeps_step`).
* `clears_loop`: a turn of the loop with room in the ring sends what is queued.
* `released_announced`: the run theorem.
-/

namespace Arbitro

open Worker List

/-! ## Jobs that wait for the notifications -/

/-- What a command that waits in the queue keeps until its body runs. -/
def Job.Waiting (w : Worker) : Job → Prop
  | .ack cmd => ∀ a ∈ cmd.entries, w.engine.NamedOwned cmd.connId cmd.consumerId a
  | .nack cmd => ∀ a ∈ cmd.entries, w.engine.NamedOwned cmd.connId cmd.consumerId a
  | _ => True

/-- A command that takes over no pendings, gets a fresh binding id and names only
real seqs when it nacks. -/
def Job.Clean (w : Worker) : Job → Prop
  | .nack cmd => ∀ a ∈ cmd.entries, 0 < a.seq
  | .subscribe cmd => CleanSubscribe w.engine.catalog cmd.subscriptionConfig.id
  | .bind cmd => CleanSubscribe w.engine.catalog cmd.subscriptionId
  | _ => True

theorem Job.Waiting.ready {w : Worker} {j : Job} (h : j.Waiting w) (hc : j.Clean w) : j.Ready w := by
  cases j with
  | ack cmd => exact h
  | nack cmd => exact fun a ha => ⟨h a ha, hc a ha⟩
  | subscribe cmd => exact hc
  | bind cmd => exact hc
  | _ => trivial

/-- The seqs a notification reports are real. -/
def DrainNotification.Positive : DrainNotification → Prop
  | .delivered _ _ _ es => ∀ e ∈ es, 0 < e.seq
  | .connectionDead _ => True

namespace Worker

variable {w : Worker} {h : Held} {gone : List Held} {op : SuppressOp} {r : Out} {es : List AckEntry} {c : ConsumerId}

/-- The ownership check covers every binding a named entry resolves to. -/
theorem namedOwned_of_connectionOwns {conn : ConnectionId}
    (h : w.connectionOwns conn c es) : ∀ a ∈ es, w.engine.NamedOwned conn c a := by
  intro a ha hne b hb
  unfold connectionOwns at h
  simp only [Bool.and_eq_true] at h
  have hall := all_eq_true.1 h.1 a (mem_filter.2 ⟨ha, by simpa using hne⟩)
  rw [Option.mem_def.1 hb] at hall
  simpa using hall

theorem countNack_entries {maxNack : ℕ} {m : Map (ConsumerId × ℕ) ℕ}
    {a : AckEntry} (h : a ∈ (es.foldl (countNack c maxNack) (m, [], [])).2.1 ∨
      a ∈ (es.foldl (countNack c maxNack) (m, [], [])).2.2) : a ∈ es := by
  refine foldlRecOn (motive := fun s : Map (ConsumerId × ℕ) ℕ × List AckEntry × List AckEntry =>
    a ∈ s.2.1 ∨ a ∈ s.2.2 → a ∈ es) es (countNack c maxNack) (by simp) (fun s ih e he h => ?_) h
  unfold countNack at h
  simp only at h
  split at h <;> simp only [mem_append, mem_singleton] at h
  · rcases h with h | h | rfl
    exacts [ih (.inl h), ih (.inr h), he]
  · rcases h with (h | rfl) | h
    exacts [ih (.inl h), he, ih (.inr h)]

/-- The dead-letter check only reorders the batch and counts. -/
theorem nackCheck_spec (w : Worker) {cmd : NackCmd} :
    (w.nackCheck cmd).1.engine = w.engine ∧ (w.nackCheck cmd).1.wheel = w.wheel ∧
      (w.nackCheck cmd).2.consumerId = cmd.consumerId ∧ (w.nackCheck cmd).2.connId = cmd.connId ∧
      ∀ a ∈ (w.nackCheck cmd).2.entries, a ∈ cmd.entries := by
  unfold nackCheck
  simp only
  split
  · exact ⟨rfl, rfl, rfl, rfl, fun a ha => countNack_entries (mem_append.1 ha)⟩
  · exact ⟨rfl, rfl, rfl, rfl, fun a ha => ha⟩

theorem Moves.mem_gone (hm : Moves w r op gone) (hin : h ∈ w.held) (hout : h ∉ r.1.held) : h ∈ gone := by
  rw [← hm.held] at hin
  exact Multiset.mem_coe.1 ((Multiset.mem_add.1 hin).resolve_left hout)

theorem Moves.speaks (hm : Moves w r .released gone) (hh : h ∈ gone) : Speaks (r.2.flatMap Effect.marks) h :=
  speaks_of_event (by rw [hm.event]; exact mem_map_of_mem hh)

theorem Moves.real (hm : Moves w r op gone) (hpos : w.Positive) : ∀ x ∈ r.2.flatMap Effect.event, 0 < x.1.2.2 := by
  rw [hm.event]
  exact forall_mem_map.2 fun t ht => hpos t (hm.mem_held ht)

theorem mem_freshEntries {e : DeliveredEntry} (es : List DeliveredEntry) (m : Map ℕ Pending)
    (h : e ∈ Engine.freshEntries m es) : e ∈ es := by
  induction es generalizing m with
  | nil => exact h
  | cons x xs ih =>
    unfold Engine.freshEntries at h
    split at h
    · exact mem_cons_of_mem _ (ih m h)
    · rcases mem_cons.1 h with rfl | h
      · exact mem_cons_self
      · exact mem_cons_of_mem _ (ih _ h)

theorem mem_freshHeld {e : Engine} {id : BindingId} {es : List DeliveredEntry}
    (hh : h ∈ e.freshHeld id es) : ∃ x ∈ es, h.pending = Engine.pendingOf x := by
  unfold Engine.freshHeld at hh
  split at hh
  · cases hh
  · split at hh
    · cases hh
    · obtain ⟨x, hx, rfl⟩ := mem_map.1 hh
      exact ⟨x, mem_freshEntries es _ hx, rfl⟩

/-- What handling a notification keeps, and what it says of a delivery it drops. -/
structure Notified (w : Worker) (r : Out) : Prop where
  balanced : r.1.engine.Balanced
  positive : r.1.Positive
  wheelPositive : r.1.WheelPositive
  named : ∀ conn c a, w.engine.NamedOwned conn c a → r.1.engine.NamedOwned conn c a
  wheel : ∀ t ∈ w.wheel, t ∈ r.1.wheel
  real : ∀ x ∈ r.2.flatMap Effect.event, 0 < x.1.2.2
  gone : ∀ h ∈ w.held, h ∉ r.1.held → Speaks (r.2.flatMap Effect.marks) h ∧
    (Frees (r.2.flatMap Effect.marks) h ∨ r.1.Armed h)

theorem handleNotification_notified (hb : w.engine.Balanced) (hpos : w.Positive) (hwheel : w.WheelPositive)
    {n : DrainNotification} (hn : n.Positive) : Notified w (w.handleNotification n) := by
  cases n with
  | connectionDead conn =>
    obtain ⟨g, hg⟩ := Engine.markConnectionDead_released hb.wf conn
    have hm := applyDelta_moves hb hpos hg
    exact ⟨hm.balanced, hm.positive hpos, hwheel, fun _ _ _ ho => ho.shrinks hg.shrinks, fun t ht => ht, hm.real hpos,
      fun h hin hout => ⟨hm.speaks (hm.mem_gone hin hout), hm.freed rfl h (hm.mem_gone hin hout)⟩⟩
  | delivered id c q es =>
    cases hid : w.engine.catalog.binding id with
    | none =>
      obtain ⟨hsame, hev⟩ := delivered_gone hid c q es
      generalize w.handleNotification _ = r at hsame hev
      subst hsame
      exact ⟨hb, hpos, hwheel, fun _ _ _ ho => ho, fun t ht => ht, by rw [hev]; exact forall_mem_map.2 hn,
        fun h hin hout => absurd hin hout⟩
    | some b =>
      obtain ⟨hrec, hev⟩ := delivered_recorded hb.wf hid c q es
      set r := w.handleNotification (.delivered id c q es) with hr
      obtain ⟨ts, hts, hkind⟩ : ∃ ts, r.1.wheel = w.wheel ++ ts ∧ ∀ t ∈ ts, t.kind = .ackTimeout := by
        have h : r.1 = { w with engine := w.engine.applyDelivered id es }.wheelInsertDelivered c es := by
          simp only [hr, handleNotification, hid]
        rw [h]
        exact (wheelInsertDelivered_spec c es).2
      refine ⟨hb.recorded hrec, ?_, ?_, fun _ _ _ ho => ho.frame hrec.frame hrec.rest, ?_,
        by rw [hev]; exact forall_mem_nil _, ?_⟩
      · intro h hh
        have hh' : h ∈ ((w.engine.freshHeld id es : List Held) : Multiset Held) + w.held := by
          unfold held at hh ⊢
          rw [← hrec.held]; exact hh
        rcases Multiset.mem_add.1 hh' with hf | hold
        · obtain ⟨x, hx, hp⟩ := mem_freshHeld (Multiset.mem_coe.1 hf)
          rw [hp]
          exact hn x hx
        · exact hpos h hold
      · intro t ht hk
        rw [hts] at ht
        rcases mem_append.1 ht with ht | ht
        · exact hwheel t ht hk
        · rw [hkind t ht] at hk; cases hk
      · intro t ht
        rw [hts]
        exact mem_append_left _ ht
      · intro h hin hout
        refine absurd ?_ hout
        unfold held at hin ⊢
        rw [hrec.held]
        exact Multiset.mem_add.2 (.inr hin)

end Worker

theorem Job.Waiting.notified {w : Worker} {r : Out} (hn : w.Notified r) {j : Job} (h : j.Waiting w) :
    j.Waiting r.1 := by
  cases j with
  | ack | nack => exact fun a ha => hn.named _ _ a (h a ha)
  | _ => trivial

/-! ## The task -/

theorem swapRemove_or {α : Type} {l : List α} {i : ℕ} {y z : α} (hi : l[i]? = some y) (hz : z ∈ l) :
    z ∈ swapRemove l i ∨ z = y := by
  rcases eq_nil_or_concat' l with rfl | ⟨front, x, rfl⟩
  · cases hz
  obtain ⟨k, hk, rfl⟩ := mem_iff_getElem.1 hz
  by_cases hki : k = i
  · subst hki
    exact .inr (Option.some.inj ((getElem?_eq_getElem hk).symm.trans hi))
  have hlt : i < (front ++ [x]).length := (List.getElem?_eq_some_iff.1 hi).1
  rw [length_append, length_singleton] at hk hlt
  left
  unfold swapRemove
  simp only [getLast?_concat]
  by_cases hlast : i = front.length
  · rw [if_pos (by simp [hlast]), dropLast_concat, getElem_append_left (by omega)]
    exact getElem_mem _
  rw [if_neg (by simpa using hlast), set_append_left _ _ (by omega), dropLast_concat]
  by_cases hkx : k = front.length
  · subst hkx
    rw [getElem_concat_length rfl]
    exact mem_set (by omega) _
  · rw [getElem_append_left (by omega)]
    exact mem_iff_getElem.2 ⟨k, by rw [length_set]; omega, by rw [getElem_set_ne (Ne.symm hki)]⟩

theorem of_mem_swapRemove {α : Type} {l : List α} {i : ℕ} {z : α} (hz : z ∈ swapRemove l i) : z ∈ l := by
  rcases eq_nil_or_concat' l with rfl | ⟨front, x, rfl⟩
  · exact hz
  unfold swapRemove at hz
  simp only [getLast?_concat] at hz
  split at hz
  · exact mem_of_mem_dropLast hz
  · rcases mem_or_eq_of_mem_set (mem_of_mem_dropLast hz) with hz | rfl
    · exact hz
    · exact mem_append_right _ (mem_singleton_self _)

theorem length_swapRemove {α : Type} {l : List α} {i : ℕ} (hl : l ≠ []) : (swapRemove l i).length + 1 = l.length := by
  rcases eq_nil_or_concat' l with rfl | ⟨front, x, rfl⟩
  · exact absurd rfl hl
  unfold swapRemove
  simp only [getLast?_concat]
  split <;> simp

/-- What a step has told the drain. -/
def Signal.marks : Signal → List Mark
  | .ring (.ack e) => [.event e]
  | .ring (.consumerRemoved c) => [.removed c]
  | .shared (.rewindReleased m) => [.rewind m]
  | .shared .rewindAll => [.rewind 1]
  | .shared _ => []

/-- What a piece of work is to tell the drain; the retry loop ends with a rewind to the
least of its seqs. -/
def Work.marks : Work → List Mark
  | .effect e => e.marks
  | .retryAcks released _ => released.map .rewind
  | _ => []

namespace Outbox

variable (ob : Outbox) (room : Bool) {c : ConsumerId} {x : AckEvent}

/-- The event of a mark is in a retry queue. -/
def Queues (ob : Outbox) : Mark → Prop
  | .event e => e ∈ ob.pendingDrainAcks
  | .removed c => c ∈ ob.pendingConsumerRemove
  | .rewind _ => False

/-- What an effect is to tell the drain is told, or its event is queued. -/
theorem emit_marks (e : Effect) :
    e.marks <+ ((ob.emit room e).2.toList.map Signal.ring ++ [Signal.shared e]).flatMap Signal.marks ∨
      ∃ k, e.marks = [k] ∧ (ob.emit room e).1.Queues k := by
  cases e with
  | ackEvent e =>
    cases room with
    | true => exact .inl (Sublist.refl _)
    | false => exact .inr ⟨_, rfl, mem_append_right _ (mem_singleton_self e)⟩
  | consumerRemoved c | removeConsumer c =>
    cases room with
    | true => exact .inl (Sublist.refl _)
    | false => exact .inr ⟨_, rfl, mem_append_right _ (mem_singleton_self c)⟩
  | reconcile e => exact .inl (nil_sublist _)
  | _ => exact .inl (Sublist.refl _)

theorem mem_emit_acks (hx : x ∈ ob.pendingDrainAcks) (e : Effect) :
    x ∈ (ob.emit room e).1.pendingDrainAcks ∨ .removed x.consumerId ∈ e.marks := by
  cases e with
  | ackEvent e =>
    left
    cases room with
    | true => exact hx
    | false => exact mem_append_left _ hx
  | consumerRemoved c => left; cases room <;> exact hx
  | removeConsumer c =>
    by_cases hc : x.consumerId = c
    · exact .inr (by rw [hc]; exact mem_singleton_self _)
    · left
      have hmem : x ∈ ob.pendingDrainAcks.filter (·.consumerId != c) := mem_filter.2 ⟨hx, by simpa using hc⟩
      cases room <;> exact hmem
  | _ => exact .inl hx

theorem of_mem_emit_acks {e : Effect} (hx : x ∈ (ob.emit room e).1.pendingDrainAcks) :
    x ∈ ob.pendingDrainAcks ∨ e = .ackEvent x := by
  cases e with
  | ackEvent e =>
    cases room with
    | true => exact .inl hx
    | false => exact (mem_append.1 hx).imp_right fun h => by rw [mem_singleton.1 h]
  | consumerRemoved c => cases room <;> exact .inl hx
  | removeConsumer c => cases room <;> exact .inl (mem_filter.1 hx).1
  | _ => exact .inl hx

theorem mem_emit_removes (hc : c ∈ ob.pendingConsumerRemove) (e : Effect) :
    c ∈ (ob.emit room e).1.pendingConsumerRemove := by
  cases e with
  | ackEvent e => cases room <;> exact hc
  | consumerRemoved c' | removeConsumer c' =>
    cases room with
    | true => exact hc
    | false => exact mem_append_left _ hc
  | _ => exact hc

end Outbox

/-- The seq of a `Released` event is real, as are the seqs a retry loop has collected. -/
def Work.Real : Work → Prop
  | .effect (.ackEvent e) => e.op = .released → 0 < e.seq
  | .retryAcks released _ => ∀ s ∈ released, 0 < s
  | _ => True

namespace CommandTask

variable {wh : WireHash} {t t' : CommandTask} {room : Bool} {popped : Option DrainNotification} {rest : List Work}
  {x : Work} {es : List Effect} {sent sent' : List Signal} {h : Held} {new : List Signal} {e : Effect}
  {todo : List Work} {j : Job} {i : ℕ} {outbox : Outbox} {released : List ℕ} {sentAny : Bool} {w : Worker}

/-- A command's body is the last thing in the queue. -/
def JobLast : List Work → Prop
  | [] => True
  | .job _ :: rest => rest = []
  | _ :: rest => JobLast rest

/-- A command is clean when its body runs, and notifications report real seqs. -/
def Allowed (t : CommandTask) : CommandAction → Prop
  | .work _ popped =>
    match t.todo with
    | .job j :: _ => j.Clean t.worker
    | .popNotifications :: _ => ∀ n ∈ popped, n.Positive
    | _ => True
  | _ => True

/-- The invariant of allowed runs. -/
structure Inv (t : CommandTask) : Prop where
  balanced : t.worker.engine.Balanced
  positive : t.worker.Positive
  wheel : t.worker.WheelPositive
  jobLast : JobLast t.todo
  waiting : ∀ j, .job j ∈ t.todo → j.Waiting t.worker
  real : ∀ x ∈ t.todo, x.Real
  queued : ∀ e ∈ t.outbox.pendingDrainAcks, e.op = .released → 0 < e.seq

/-- What the drain has been told and what it is to be told, in order. -/
def marks (t : CommandTask) (sent : List Signal) : List Mark :=
  sent.flatMap Signal.marks ++ t.todo.flatMap Work.marks

/-- **The drain has been or will be told that a delivery is released**: its event waits
in the retry queue; or is sent or about to be, with a rewind behind it or a timer armed
that asks for one; or the same holds of the removal of its consumer. -/
inductive Due (t : CommandTask) (sent : List Signal) (h : Held) : Prop where
  | queued (e : AckEvent) (hrow : e.row = h.row) (hop : e.op = .released) (he : e ∈ t.outbox.pendingDrainAcks)
  | freed (hf : Frees (t.marks sent) h)
  | armed (hs : Speaks (t.marks sent) h) (ha : t.worker.Armed h)
  | removed (hr : .removed h.consumerId ∈ t.marks sent)
  | removing (hr : h.consumerId ∈ t.outbox.pendingConsumerRemove)

/-- **What is due stays due over a step** that replaces the work `old` by `front` and sends
`new`, if what `old` was to tell the drain is told or is to be told by `front`. Otherwise
what it was to say must be due in another way, and its rewinds be covered. -/
theorem Due.next (hd : t.Due sent h) (old front : List Work) (ht : t.todo = old ++ rest) (ht' : t'.todo = front ++ rest)
    (hacks : ∀ e ∈ t.outbox.pendingDrainAcks, e.row = h.row → e.op = .released → t'.Due (sent ++ new) h)
    (hrem : h.consumerId ∈ t.outbox.pendingConsumerRemove → t'.Due (sent ++ new) h)
    (harmed : Speaks (t.marks sent) h → t.worker.Armed h → t'.worker.Armed h ∨ t'.Due (sent ++ new) h)
    (hold : old.flatMap Work.marks <+ new.flatMap Signal.marks ++ front.flatMap Work.marks ∨
      (Speaks (old.flatMap Work.marks) h → t'.Due (sent ++ new) h) ∧
      (.removed h.consumerId ∈ old.flatMap Work.marks → t'.Due (sent ++ new) h) ∧
      ∀ m, .rewind m ∈ old.flatMap Work.marks → 0 < m → m ≤ h.pending.seq →
        ∃ m', .rewind m' ∈ new.flatMap Signal.marks ++ front.flatMap Work.marks ∧ 0 < m' ∧ m' ≤ h.pending.seq) :
    t'.Due (sent ++ new) h := by
  have hl : t.marks sent = sent.flatMap Signal.marks ++ (old.flatMap Work.marks ++ rest.flatMap Work.marks) := by
    rw [marks, ht, flatMap_append]
  have hl' : t'.marks (sent ++ new) = sent.flatMap Signal.marks ++
      ((new.flatMap Signal.marks ++ front.flatMap Work.marks) ++ rest.flatMap Work.marks) := by
    rw [marks, ht', flatMap_append, flatMap_append]
    simp only [append_assoc]
  have hrest : sent.flatMap Signal.marks ++ rest.flatMap Work.marks <+ t'.marks (sent ++ new) := by
    rw [hl']
    exact (sublist_append_right _ _).append_left _
  rcases hold with hsub | ⟨hspeaks, hremoved, hrewind⟩
  · have hmarks : t.marks sent <+ t'.marks (sent ++ new) := by
      rw [hl, hl']
      exact (hsub.append_right _).append_left _
    cases hd with
    | queued e hrow hop he => exact hacks e he hrow hop
    | freed hf => exact .freed (hf.mono hmarks)
    | armed hs ha => exact (harmed hs ha).elim (.armed (hs.mono hmarks)) id
    | removed hr => exact .removed (hmarks.subset hr)
    | removing hr => exact hrem hr
  cases hd with
  | queued e hrow hop he => exact hacks e he hrow hop
  | freed hf =>
    rw [hl] at hf
    rcases hf.split with hf | hs | ⟨hs, m, hm, hpos, hle⟩
    · exact .freed (hf.mono hrest)
    · exact hspeaks hs
    · obtain ⟨m', hm', hpos', hle'⟩ := hrewind m hm hpos hle
      refine .freed ((hs.frees hm' hpos' hle').mono ?_)
      rw [hl']
      exact (sublist_append_left _ _).append_left _
  | armed hs ha =>
    rcases harmed hs ha with ha | hd
    · rw [hl] at hs
      exact hs.split.elim (fun hs => .armed (hs.mono hrest) ha) hspeaks
    · exact hd
  | removed hr =>
    rw [hl, mem_append, mem_append] at hr
    rcases hr with hr | hr | hr
    · exact .removed (hrest.subset (mem_append_left _ hr))
    · exact hremoved hr
    · exact .removed (hrest.subset (mem_append_right _ hr))
  | removing hr => exact hrem hr

theorem Due.idle (hd : t.Due sent h) (old front : List Work) (ht : t.todo = old ++ rest) (ht' : t'.todo = front ++ rest)
    (hold : old.flatMap Work.marks = []) (hob : t'.outbox = t.outbox) (harmed : t.worker.Armed h → t'.worker.Armed h) :
    t'.Due (sent ++ new) h := by
  refine hd.next old front ht ht' (fun x hx hrow hop => .queued x hrow hop ?_) (fun hr => .removing ?_)
    (fun _ ha => .inl (harmed ha)) (.inl ?_)
  · rw [hob]; exact hx
  · rw [hob]; exact hr
  · rw [hold]; exact nil_sublist _

/-- The next thing the task does is to run an ack batch that names the delivery. -/
def Acks (t : CommandTask) (h : Held) : Prop :=
  ∃ cmd rest, t.todo = .job (.ack cmd) :: rest ∧ cmd.consumerId = h.consumerId ∧
    ∃ a ∈ cmd.entries, a.seq = h.pending.seq

/-- What a step owes: the invariant, the announcements still due, and new ones for
what it drops. -/
structure Keeps (t t' : CommandTask) (new : List Signal) : Prop where
  inv : t'.Inv
  due : ∀ sent h, 0 < h.pending.seq → t.Due sent h → t'.Due (sent ++ new) h
  dropped : ∀ h ∈ t.worker.held, h ∉ t'.worker.held → t.Acks h ∨ t'.Due new h

/-! ### The queue -/

theorem jobLast_effects (h : JobLast rest) (es : List Effect) : JobLast (es.map .effect ++ rest) := by
  induction es with
  | nil => exact h
  | cons e es ih => exact ih

theorem JobLast.tail (h : JobLast (x :: rest)) : JobLast rest := by
  cases x with
  | job j => rw [show rest = [] from h]; trivial
  | _ => exact h

theorem job_of_effects (h : .job j ∈ es.map Work.effect ++ rest) : .job j ∈ rest := by
  rcases mem_append.1 h with h | h
  · obtain ⟨e, -, he⟩ := mem_map.1 h
    cases he
  · exact h

theorem real_effects (hes : ∀ x ∈ es.flatMap Effect.event, 0 < x.1.2.2) (hrest : ∀ x ∈ rest, x.Real) :
    ∀ x ∈ es.map Work.effect ++ rest, x.Real := by
  refine forall_mem_append.2 ⟨forall_mem_map.2 fun e he => ?_, hrest⟩
  cases e with
  | ackEvent x => exact fun _ => hes (x.row, x.op) (mem_flatMap.2 ⟨_, he, mem_singleton_self _⟩)
  | _ => trivial

/-! ### One piece of work -/

theorem Inv.tail (hi : t.Inv) (ht : t.todo = x :: rest) (hlast : JobLast rest → JobLast todo)
    (hjob : ∀ j, .job j ∈ todo → .job j ∈ rest) (hreal : (∀ y ∈ rest, y.Real) → ∀ y ∈ todo, y.Real)
    (hq : ∀ e ∈ outbox.pendingDrainAcks, e.op = .released → 0 < e.seq) :
    Inv { t with outbox := outbox, todo := todo } where
  balanced := hi.balanced
  positive := hi.positive
  wheel := hi.wheel
  jobLast := hlast (JobLast.tail (by rw [← ht]; exact hi.jobLast))
  waiting j hj := hi.waiting j (by rw [ht]; exact mem_cons_of_mem _ (hjob j hj))
  real := hreal fun y hy => hi.real y (by rw [ht]; exact mem_cons_of_mem _ hy)
  queued := hq

/-- A step that leaves the worker alone drops no delivery. -/
theorem keeps_of_due (hinv : Inv { t with outbox := outbox, todo := todo })
    (hdue : ∀ sent h, 0 < h.pending.seq → t.Due sent h → Due { t with outbox := outbox, todo := todo } (sent ++ new) h) :
    Keeps t { t with outbox := outbox, todo := todo } new :=
  ⟨hinv, hdue, fun _ hin hout => absurd hin hout⟩

theorem keeps_effect (hi : t.Inv) (ht : t.todo = .effect e :: rest) :
    Keeps t (t.perform wh rest room popped (.effect e)).1 (t.perform wh rest room popped (.effect e)).2 := by
  refine keeps_of_due (hi.tail ht (fun h => h) (fun _ h => h) (fun h => h) fun x hx => ?_) fun sent h _ hd => ?_
  · rcases t.outbox.of_mem_emit_acks room hx with hx | rfl
    · exact hi.queued x hx
    · exact hi.real _ (by rw [ht]; exact mem_cons_self)
  have hmarks := t.outbox.emit_marks room e
  have hsingle : [Work.effect e].flatMap Work.marks = e.marks := by simp [Work.marks]
  refine hd.next [.effect e] [] ht rfl (fun x hx hrow hop => ?_)
    (fun hr => .removing (t.outbox.mem_emit_removes room hr e)) (fun _ ha => .inl ha) ?_
  · rcases t.outbox.mem_emit_acks room hx e with hx | hc
    · exact .queued x hrow hop hx
    rw [show x.consumerId = h.consumerId from congrArg Prod.fst hrow] at hc
    rcases hmarks with hsub | ⟨k, hk, hq⟩
    · refine .removed (mem_append_left _ ?_)
      rw [flatMap_append]
      exact mem_append_right _ (hsub.subset hc)
    · rw [hk] at hc
      rw [← mem_singleton.1 hc] at hq
      exact .removing hq
  · rw [hsingle, flatMap_nil, append_nil]
    refine hmarks.imp_right ?_
    rintro ⟨k, hk, hq⟩
    rw [hk]
    refine ⟨fun ⟨x, hrow, hop, hx⟩ => ?_, fun hr => ?_, fun m hm => ?_⟩
    · rw [← mem_singleton.1 hx] at hq
      exact .queued x hrow hop hq
    · rw [← mem_singleton.1 hr] at hq
      exact .removing hq
    · rw [← mem_singleton.1 hm] at hq
      exact hq.elim

theorem marks_effects (es : List Effect) : (es.map Work.effect).flatMap Work.marks = es.flatMap Effect.marks :=
  flatMap_map _ _ _

theorem due_of_freed (hs : Speaks (es.flatMap Effect.marks) h)
    (hf : Frees (es.flatMap Effect.marks) h ∨ w.Armed h) : Due ⟨w, outbox, es.map .effect ++ rest⟩ sent h := by
  have hsub : es.flatMap Effect.marks <+ marks ⟨w, outbox, es.map .effect ++ rest⟩ sent := by
    rw [marks, flatMap_append, marks_effects]
    exact (sublist_append_left _ _).trans (sublist_append_right _ _)
  exact hf.elim (fun hf => .freed (hf.mono hsub)) fun ha => .armed (hs.mono hsub) ha

theorem keeps_pop (hi : t.Inv) (ht : t.todo = .popNotifications :: rest) (hpop : ∀ n ∈ popped, n.Positive) :
    Keeps t (t.perform wh rest room popped .popNotifications).1
      (t.perform wh rest room popped .popNotifications).2 := by
  cases popped with
  | none =>
    refine keeps_of_due (hi.tail ht (fun h => h) (fun _ h => h) (fun h => h) hi.queued) fun sent h _ hd => ?_
    exact hd.idle [.popNotifications] [] ht rfl rfl rfl id
  | some n =>
    have hn := handleNotification_notified hi.balanced hi.positive hi.wheel (hpop n rfl)
    refine ⟨⟨hn.balanced, hn.positive, hn.wheelPositive, ?_, fun j hj => ?_, real_effects hn.real ?_, hi.queued⟩,
      fun sent h _ hd => ?_, fun h hin hout => ?_⟩
    · refine jobLast_effects ?_ _
      rw [← ht]; exact hi.jobLast
    · have hj' := job_of_effects hj
      rw [← ht] at hj'
      exact (hi.waiting j hj').notified hn
    · rw [← ht]; exact hi.real
    · exact hd.idle [] _ ht rfl rfl rfl fun ⟨y, hy, hyt⟩ => ⟨y, hn.wheel y hy, hyt⟩
    · obtain ⟨hs, hf⟩ := hn.gone h hin hout
      exact .inr (due_of_freed hs hf)

/-- **A command's body announces what it drops**, unless it is an ack of it. -/
theorem keeps_job (hi : t.Inv) (ht : t.todo = .job j :: rest) (hc : j.Clean t.worker) :
    Keeps t (t.perform wh rest room popped (.job j)).1 (t.perform wh rest room popped (.job j)).2 := by
  have hready : j.Ready t.worker := (hi.waiting j (by rw [ht]; exact mem_cons_self)).ready hc
  have hnil : rest = [] := by
    have h := hi.jobLast
    rw [ht] at h
    exact h
  subst hnil
  obtain ⟨g, hm⟩ := exec_moves wh hi.balanced hi.positive hi.wheel hready
  have htimed := exec_timed wh hi.balanced hi.positive hi.wheel hready
  refine ⟨⟨hm.balanced, hm.positive hi.positive, htimed.positive, jobLast_effects (show JobLast [] from trivial) _, fun j' hj' => ?_,
    real_effects (hm.real hi.positive) nofun, hi.queued⟩, fun sent h _ hd => ?_, fun h hin hout => ?_⟩
  · cases job_of_effects hj'
  · refine hd.next [.job j] _ ht rfl (fun x hx hrow hop => .queued x hrow hop hx) (fun hr => .removing hr) ?_
      (.inl (nil_sublist _))
    rintro hs ⟨y, hy, hk, hyt⟩
    rcases htimed.kept y hy hk with hy | ⟨m, hm', hpos, hle⟩
    · exact .inl ⟨y, hy, hk, hyt⟩
    -- the body is the last work: the event of a timer that fires is out
    have hsent : Speaks (sent.flatMap Signal.marks) h := by
      rw [marks, ht] at hs
      simpa [Work.marks] using hs
    refine .inr (.freed ?_)
    show Frees ((sent ++ []).flatMap Signal.marks ++ (_ ++ []).flatMap Work.marks) h
    rw [append_nil, append_nil, marks_effects]
    exact hsent.frees hm' hpos (by rw [← hyt.2]; exact hle)
  · by_cases hack : j.op = .released
    · have hg := hm.mem_gone hin hout
      rw [hack] at hm
      exact .inr (due_of_freed (hm.speaks hg) (hm.freed rfl h hg))
    cases j with
    | ack cmd =>
      obtain ⟨g, hm, hg⟩ := ack_moves hi.balanced hready
      obtain ⟨hcons, a, ha, hseq⟩ := hg h (hm.mem_gone hin hout)
      exact .inl ⟨cmd, _, ht, hcons.symm, a, ha, hseq.symm⟩
    | _ => exact absurd rfl hack

/-- The retry loop ends with a rewind for the events it has sent. -/
theorem keeps_retryEnd (hi : t.Inv)
    (ht : t.todo = .retryAcks released sentAny :: rest) :
    Keeps t { t with todo := (perform.retryEnd released sentAny).map .effect ++ rest } [] := by
  have hevent : (perform.retryEnd released sentAny).flatMap Effect.event = [] := by
    exact (silent_rewindToLeast released).append (silent_releaseGateIf sentAny)
  have hold : [Work.retryAcks released sentAny].flatMap Work.marks = released.map .rewind := by simp [Work.marks]
  refine keeps_of_due (hi.tail ht (jobLast_effects · _) (fun _ => job_of_effects)
    (real_effects (by rw [hevent]; exact nofun)) hi.queued) fun sent h _ hd => ?_
  refine hd.next [.retryAcks released sentAny] _ ht rfl (fun x hx hrow hop => .queued x hrow hop hx)
    (fun hr => .removing hr) (fun _ ha => .inl ha) (.inr ?_)
  rw [hold]
  refine ⟨fun ⟨e, _, _, he⟩ => ?_, fun hr => ?_, fun m hm hpos hle => ?_⟩
  · obtain ⟨s, -, hs⟩ := mem_map.1 he
    cases hs
  · obtain ⟨s, -, hs⟩ := mem_map.1 hr
    cases hs
  · obtain ⟨s, hs, heq⟩ := mem_map.1 hm
    cases heq
    obtain ⟨m', hm', hpos', hle'⟩ := exists_rewind hs (hi.real (.retryAcks released sentAny) (by rw [ht]; exact mem_cons_self))
    refine ⟨m', ?_, hpos', hle'.trans hle⟩
    rw [marks_effects, perform.retryEnd, flatMap_append]
    exact mem_append_right _ (mem_append_left _ hm')

theorem keeps_retryAcks (hi : t.Inv)
    (ht : t.todo = .retryAcks released sentAny :: rest) :
    Keeps t (t.perform wh rest room popped (.retryAcks released sentAny)).1
      (t.perform wh rest room popped (.retryAcks released sentAny)).2 := by
  unfold perform
  simp only
  split
  swap
  · exact keeps_retryEnd hi ht
  next e q hq =>
  split
  swap
  · exact keeps_retryEnd hi ht
  have hreal : ∀ s ∈ released, 0 < s := hi.real (.retryAcks released sentAny) (by rw [ht]; exact mem_cons_self)
  refine keeps_of_due (hi.tail ht (fun h => h) (fun j hj => (mem_cons.1 hj).resolve_left nofun) (fun h => ?_)
    fun x hx => hi.queued x ?_) fun sent h hpos hd => ?_
  · refine forall_mem_cons.2 ⟨forall_mem_append.2 ⟨hreal, fun s hs => ?_⟩, h⟩
    unfold releasedSeq at hs
    split at hs
    · next hop =>
      rw [mem_singleton.1 hs]
      exact hi.queued e (by rw [hq]; exact mem_cons_self) hop
    · cases hs
  · rw [hq]
    exact of_mem_swapRemove hx
  refine hd.next [.retryAcks released sentAny] [.retryAcks (released ++ releasedSeq e) true] ht rfl
    (fun x hx hrow hop => ?_) (fun hr => .removing hr) (fun _ ha => .inl ha) (.inl ?_)
  · rw [hq] at hx
    rcases swapRemove_or (i := 0) (y := e) rfl hx with hx | rfl
    · exact .queued x hrow hop hx
    have hseq : x.seq = h.pending.seq := congrArg (·.2.2) hrow
    refine .freed ?_
    have hs : Speaks ((sent ++ [Signal.ring (.ack x)]).flatMap Signal.marks) h := by
      refine ⟨x, hrow, hop, ?_⟩
      rw [flatMap_append]
      exact mem_append_right _ (mem_singleton_self _)
    refine hs.frees ?_ (hseq ▸ hpos) hseq.le
    simp [Work.marks, releasedSeq, hop]
  · simp [Work.marks]

theorem keeps_retryRemoves (hi : t.Inv) (ht : t.todo = .retryRemoves i :: rest) :
    Keeps t (t.perform wh rest room popped (.retryRemoves i)).1
      (t.perform wh rest room popped (.retryRemoves i)).2 := by
  have hinv : ∀ k q, Inv { t with outbox := ⟨t.outbox.pendingDrainAcks, q⟩, todo := .retryRemoves k :: rest } := fun k q =>
    hi.tail ht (fun h => h) (fun j hj => (mem_cons.1 hj).resolve_left nofun) (fun h => forall_mem_cons.2 ⟨trivial, h⟩)
      hi.queued
  unfold perform
  simp only
  split
  · refine keeps_of_due (hi.tail ht (fun h => h) (fun _ h => h) (fun h => h) hi.queued) fun sent h _ hd => ?_
    exact hd.idle [.retryRemoves i] [] ht rfl rfl rfl id
  next c hc =>
  split
  · refine keeps_of_due (hinv i _) fun sent h _ hd => ?_
    refine hd.next [.retryRemoves i] [.retryRemoves i] ht rfl
      (fun x hx hrow hop => .queued x hrow hop hx) (fun hr => ?_) (fun _ ha => .inl ha) (.inl (nil_sublist _))
    rcases swapRemove_or hc hr with hr | hr
    · exact .removing hr
    · refine .removed (mem_append_left _ ?_)
      rw [flatMap_append, hr]
      exact mem_append_right _ (mem_singleton_self _)
  · refine keeps_of_due (hinv (i + 1) _) fun sent h _ hd => ?_
    exact hd.idle [.retryRemoves i] [.retryRemoves (i + 1)] ht rfl rfl rfl id

/-! ### Steps and runs -/

theorem plan_spec (j : Job) :
    (plan w j).1.engine = w.engine ∧ (plan w j).1.wheel = w.wheel ∧ JobLast (plan w j).2 ∧
      (∀ j', .job j' ∈ (plan w j).2 → j'.Waiting (plan w j).1) ∧ ∀ x ∈ (plan w j).2, x.Real := by
  have hreal : ∀ j : Job, ∀ x ∈ [Work.popNotifications, .job j], x.Real := by simp [Work.Real]
  have hpopped : ∀ (j j' : Job), .job j' ∈ [Work.popNotifications, .job j] → j' = j := by
    intro j j' hmem
    simpa using hmem
  cases j with
  | ack cmd =>
    simp only [plan]
    split
    · next hown =>
      refine ⟨rfl, rfl, rfl, fun j' hj' => ?_, hreal _⟩
      rw [hpopped _ _ hj']
      exact namedOwned_of_connectionOwns hown
    · exact ⟨rfl, rfl, trivial, nofun, nofun⟩
  | nack cmd =>
    simp only [plan]
    split
    · next hown =>
      obtain ⟨heng, hwheel, hc, hconn, hsub⟩ := w.nackCheck_spec
      refine ⟨heng, hwheel, rfl, fun j' hj' => ?_, hreal _⟩
      rw [hpopped _ _ hj']
      intro a ha
      rw [heng, hc, hconn]
      exact namedOwned_of_connectionOwns hown a (hsub a ha)
    · exact ⟨rfl, rfl, trivial, nofun, nofun⟩
  | drainConnection conn =>
    refine ⟨rfl, rfl, rfl, fun j' hj' => ?_, hreal _⟩
    rw [hpopped _ _ hj']
    trivial
  | _ =>
    refine ⟨rfl, rfl, rfl, fun j' hj' => ?_, forall_mem_singleton.2 trivial⟩
    cases mem_singleton.1 hj'
    trivial

theorem keeps_idle (hi : t.Inv) (ht : t.todo = [])
    (hengine : w.engine = t.worker.engine) (hwheel : w.wheel = t.worker.wheel) (hlast : JobLast todo)
    (hwait : ∀ j, .job j ∈ todo → j.Waiting w) (hreal : ∀ x ∈ todo, x.Real) : Keeps t { t with worker := w, todo := todo } [] := by
  have hheld : w.held = t.worker.held := by unfold held; rw [hengine]
  refine ⟨⟨?_, ?_, ?_, hlast, hwait, hreal, hi.queued⟩, fun sent h _ hd => ?_,
    fun h hin hout => absurd (by rw [hheld]; exact hin) hout⟩
  · rw [hengine]; exact hi.balanced
  · unfold Positive; rw [hheld]; exact hi.positive
  · unfold WheelPositive; rw [hwheel]; exact hi.wheel
  · exact hd.idle [] _ (by exact ht) (append_nil _).symm rfl rfl
      fun ⟨y, hy, hyt⟩ => ⟨y, by rw [hwheel]; exact hy, hyt⟩

theorem Keeps.refl (hi : t.Inv) : Keeps t t [] where
  inv := hi
  due sent h _ hd := by rw [append_nil]; exact hd
  dropped h hin hout := absurd hin hout

/-- **No step loses an announcement or drops a delivery without one.** -/
theorem keeps_step (wh : WireHash) (hi : t.Inv) {a : CommandAction} (ha : t.Allowed a) :
    Keeps t (t.next wh a) (t.step wh a).2 := by
  unfold next
  cases a with
  | start j =>
    unfold step
    cases ht : t.todo with
    | nil =>
      obtain ⟨heng, hwheel, hlast, hwait, hreal⟩ := plan_spec j
      exact keeps_idle hi ht heng hwheel hlast hwait hreal
    | cons x rest => exact .refl hi
  | loopTop =>
    unfold step
    cases ht : t.todo with
    | nil =>
      exact keeps_idle hi ht rfl rfl trivial (by simp) (by simp [Work.Real])
    | cons x rest => exact .refl hi
  | work room popped =>
    unfold step Allowed at *
    cases ht : t.todo with
    | nil => exact .refl hi
    | cons x rest =>
      rw [ht] at ha
      cases x with
      | effect e => exact keeps_effect hi ht
      | popNotifications => exact keeps_pop hi ht ha
      | job j => exact keeps_job hi ht ha
      | retryAcks released sentAny => exact keeps_retryAcks hi ht
      | retryRemoves i => exact keeps_retryRemoves hi ht

/-- **Announcements survive every allowed run.** -/
theorem keeps_run (wh : WireHash) {as : List CommandAction} {sent : List Signal} (hi : t.Inv)
    (hg : Run.Guarded (next wh) Allowed t as) (hpos : 0 < h.pending.seq) (hd : t.Due sent h) :
    (as.foldl (next wh) t).Due (sent ++ t.signals wh as) h := by
  induction as generalizing t sent with
  | nil =>
    unfold signals
    rw [append_nil]
    exact hd
  | cons a as ih =>
    have hk := keeps_step wh hi hg.1
    have hrest := ih hk.inv hg.2 (hk.due sent h hpos hd)
    rw [append_assoc] at hrest
    exact hrest

theorem inv_empty : Inv {} where
  balanced := Engine.balanced_new
  positive h hh := by cases hh
  wheel t ht := by cases ht
  jobLast := trivial
  waiting j hj := by cases hj
  real := nofun
  queued := nofun

/-! ### A turn of the loop -/

/-- With room in the ring and nothing to pop, the task becomes idle with empty retry
queues. -/
def Clears (wh : WireHash) (t : CommandTask) : Prop :=
  ∃ n, Run.Guarded (next wh) Allowed t (replicate n (.work true none)) ∧
    ((replicate n (.work true none)).foldl (next wh) t).todo = [] ∧
    ((replicate n (.work true none)).foldl (next wh) t).outbox = {}

theorem Clears.step (ht : t.todo = x :: rest) (hx : ∀ j, x ≠ .job j)
    (h : Clears wh (t.perform wh rest true none x).1) : Clears wh t := by
  have hnext : t.next wh (.work true none) = (t.perform wh rest true none x).1 := by simp only [next, CommandTask.step, ht]
  have hallowed : t.Allowed (.work true none) := by
    unfold Allowed
    rw [ht]
    cases x with
    | job j => exact absurd rfl (hx j)
    | popNotifications => exact nofun
    | _ => trivial
  rw [← hnext] at h
  obtain ⟨n, hg, hdone⟩ := h
  exact ⟨n + 1, ⟨hallowed, hg⟩, hdone⟩

theorem clears_removes {n : ℕ} (ht : t.todo = [.retryRemoves 0]) (hacks : t.outbox.pendingDrainAcks = [])
    (hn : t.outbox.pendingConsumerRemove.length = n) : Clears wh t := by
  induction n generalizing t with
  | zero =>
    have hnil := length_eq_zero_iff.1 hn
    refine .step ht nofun ⟨0, trivial, ?_⟩
    simp only [perform, hnil, replicate_zero, foldl_nil, getElem?_nil]
    exact ⟨trivial, by rw [← hacks, ← hnil]⟩
  | succ n ih =>
    cases hq : t.outbox.pendingConsumerRemove with
    | nil => rw [hq] at hn; cases hn
    | cons c q =>
    refine .step ht nofun (ih ?_ ?_ ?_)
    all_goals simp only [perform, hq, getElem?_cons_zero, if_true]
    · exact hacks
    · have hlen := length_swapRemove (l := c :: q) (i := 0) (cons_ne_nil c q)
      rw [hq] at hn
      omega

theorem emit_room {ob : Outbox} (h : ob.pendingDrainAcks = []) (e : Effect) : (ob.emit true e).1 = ob := by
  cases ob
  cases e <;> simp_all [Outbox.emit, Outbox.announce]

theorem clears_effects (es : List Effect) (ht : t.todo = es.map .effect ++ [.retryRemoves 0])
    (hacks : t.outbox.pendingDrainAcks = []) : Clears wh t := by
  induction es generalizing t with
  | nil => exact clears_removes ht hacks rfl
  | cons e es ih =>
    refine .step ht nofun (ih rfl ?_)
    show (t.outbox.emit true e).1.pendingDrainAcks = []
    rw [emit_room hacks]
    exact hacks

theorem clears_acks {n : ℕ}
    (ht : t.todo = [.retryAcks released sentAny, .retryRemoves 0]) (hn : t.outbox.pendingDrainAcks.length = n) :
    Clears wh t := by
  induction n generalizing t released sentAny with
  | zero =>
    have hnil := length_eq_zero_iff.1 hn
    refine .step ht nofun (clears_effects (perform.retryEnd released sentAny) ?_ ?_)
    all_goals simp only [perform, hnil]
  | succ n ih =>
    cases hq : t.outbox.pendingDrainAcks with
    | nil => rw [hq] at hn; cases hn
    | cons e q =>
    refine .step ht nofun (@ih _ (released ++ releasedSeq e) true ?_ ?_)
    all_goals simp only [perform, hq, if_true]
    have hlen := length_swapRemove (l := e :: q) (i := 0) (cons_ne_nil e q)
    rw [hq] at hn
    omega

/-- **A turn of the loop with room in the ring sends everything that is queued.** -/
theorem clears_loop (ht : t.todo = []) : Clears wh (t.next wh .loopTop) := by
  have hnext : t.next wh .loopTop = { t with todo := [.popNotifications, .retryAcks [] false, .retryRemoves 0] } := by
    simp only [next, step, ht]
  rw [hnext]
  exact .step rfl nofun (clears_acks rfl rfl)

/-- **What the drain has been told of a released delivery**: a `Released` event for its
consumer and seq entered the ring, and after it a rewind to its seq or below was
signalled, or a timer is armed that will signal one; or it was told that the consumer is
gone. -/
def Told (t : CommandTask) (sent : List Signal) (h : Held) : Prop :=
  Frees (sent.flatMap Signal.marks) h ∨ (Speaks (sent.flatMap Signal.marks) h ∧ t.worker.Armed h) ∨
    .removed h.consumerId ∈ sent.flatMap Signal.marks

/-- Once the task is idle with empty retry queues nothing is left to tell. -/
theorem told_of_idle (ht : t.todo = []) (hob : t.outbox = {}) (hd : t.Due sent h) : t.Told sent h := by
  have hl : t.marks sent = sent.flatMap Signal.marks := by
    rw [marks, ht]
    exact append_nil _
  cases hd with
  | queued e hrow hop he => rw [hob] at he; cases he
  | freed hf => exact .inl (hl ▸ hf)
  | armed hs ha => exact .inr (.inl ⟨hl ▸ hs, ha⟩)
  | removed hr => exact .inr (.inr (hl ▸ hr))
  | removing hr => rw [hob] at hr; cases hr

/-- **Every delivery that leaves the engine unacked is announced to the drain**, in every
allowed run, from the step that drops it on: whenever the task is idle and its retry
queues are empty the drain has been told, and when it is idle one turn of the loop with
room in the ring brings it there. -/
theorem released_announced (wh : WireHash) (as : List CommandAction) (a : CommandAction)
    (bs : List CommandAction) (hrun : Run.Guarded (next wh) Allowed {} (as ++ a :: bs)) (h : Held) :
    let t := as.foldl (next wh) {}
    let t' := (a :: bs).foldl (next wh) t
    h ∈ t.worker.held → h ∉ (t.next wh a).worker.held → ¬ t.Acks h → t'.todo = [] →
      (t'.outbox = {} → t'.Told (t.signals wh (a :: bs)) h) ∧
      ∃ n, let turn := .loopTop :: replicate n (.work true none)
        let t'' := turn.foldl (next wh) t'
        t''.todo = [] ∧ t''.outbox = {} ∧ t''.Told (t.signals wh (a :: bs ++ turn)) h := by
  intro t t' hin hout hack hidle
  obtain ⟨has, hrest⟩ := Run.guarded_append.1 hrun
  have hi : t.Inv :=
    Run.invariant (fun s x hs hx => (keeps_step (t := s) wh hs hx).inv) as ({} : CommandTask) inv_empty has
  have hpos := hi.positive h hin
  have hk := keeps_step wh hi hrest.1
  have hd := (hk.dropped h hin hout).resolve_left hack
  refine ⟨fun hob => told_of_idle hidle hob (keeps_run wh hk.inv hrest.2 hpos hd), ?_⟩
  obtain ⟨n, hg, htodo, hob⟩ := (clears_loop hidle : Clears wh _)
  refine ⟨n, htodo, hob, ?_⟩
  have hturn : Run.Guarded (next wh) Allowed (bs.foldl (next wh) (t.next wh a))
      (.loopTop :: replicate n (.work true none)) := ⟨trivial, hg⟩
  have hall := keeps_run wh hk.inv
    (Run.guarded_append.2 ⟨hrest.2, hturn⟩) hpos hd
  rw [foldl_append] at hall
  exact told_of_idle htodo hob hall

instance (w : Worker) (j : Job) : Decidable (j.Clean w) := by
  unfold Job.Clean CleanSubscribe
  split <;> infer_instance

instance (n : DrainNotification) : Decidable n.Positive := by
  unfold DrainNotification.Positive
  split <;> infer_instance

instance (t : CommandTask) (a : CommandAction) : Decidable (t.Allowed a) := by
  unfold Allowed
  split
  · split <;> infer_instance
  · infer_instance

/-- Subscribe connection 7 to a stream with an explicit-ack consumer. -/
def subscribeSeven : SubscribeCmd where
  streamConfig := ⟨1, []⟩
  consumerConfig := { id := 1, queueId := 5, streamId := 1, durable := false, ackPolicy := .explicit,
                      maxInflight := 10, ackWaitMs := 0, maxNack := 0, filter := [] }
  subscriptionConfig := ⟨1, 1, 1, 1, []⟩
  connectionId := 7
  deliverPolicy := 0
  startSeq := 0
  hasWriter := true

/-- The subscribe, then the top of the loop with seq 1 reported as delivered. -/
def deliverOne : List CommandAction :=
  .start (.subscribe subscribeSeven) :: replicate 5 (.work true none) ++
    .loopTop :: .work true (some (.delivered 1 1 5 [⟨1, 0⟩])) :: replicate 3 (.work true none)

/-- The delivery that is then pending. -/
def firstHeld : Held := ⟨1, 1, 5, ⟨1, 0, 1⟩⟩

/-- The connection dies: the drain hears of it. -/
theorem released_announced_drainConnection :
    let as := deliverOne ++ [.start (.drainConnection 7), .work true none]
    let t := as.foldl (next fun _ => 0) {}
    let bs := replicate 9 (CommandAction.work true none)
    firstHeld ∈ t.worker.held ∧
      ((.work true none :: bs).foldl (next fun _ => 0) t).Told
        (t.signals (fun _ => 0) (.work true none :: bs)) firstHeld := by
  intro as t bs
  have hin : firstHeld ∈ t.worker.held := by decide
  refine ⟨hin, (released_announced (fun _ => 0) as (.work true none) bs (by decide) firstHeld hin (by decide) ?_ rfl).1
    rfl⟩
  rintro ⟨cmd, rest, ht, -⟩
  cases ht

/-- **A takeover is silent.** The same client subscribes again with its message
still pending: the delivery is gone, and when the task is idle again it has sent
the drain no event at all. -/
theorem takeover_not_announced :
    let as := deliverOne ++ [.start (.subscribe subscribeSeven)]
    let t := as.foldl (next fun _ => 0) {}
    let bs := replicate 4 (CommandAction.work true none)
    let t' := (.work true none :: bs).foldl (next fun _ => 0) t
    firstHeld ∈ t.worker.held ∧ firstHeld ∉ (t.next (fun _ => 0) (.work true none)).worker.held ∧
      ¬ t.Acks firstHeld ∧ t'.todo = [] ∧ t'.outbox = {} ∧
      ¬ t'.Told (t.signals (fun _ => 0) (.work true none :: bs)) firstHeld := by
  intro as t bs t'
  -- all the drain is told is to walk from the start
  have hmarks : (t.signals (fun _ => 0) (.work true none :: bs)).flatMap Signal.marks = [.rewind 1] := by decide
  refine ⟨by decide, by decide, ?_, rfl, rfl, ?_⟩
  · rintro ⟨cmd, rest, ht, -⟩
    cases ht
  unfold Told
  rw [hmarks]
  rintro (⟨e, m, -, -, -, -, hs⟩ | ⟨⟨e, -, -, he⟩, -⟩ | hr)
  · cases mem_singleton.1 (hs.subset mem_cons_self)
  · cases mem_singleton.1 he
  · cases mem_singleton.1 hr

end CommandTask

end Arbitro
