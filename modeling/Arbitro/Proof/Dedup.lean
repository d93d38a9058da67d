import Arbitro.Lib.Run
import Arbitro.Client.Session

/-!
# What the dedup store discards

A slot holds what handlers acked, whichever of the consumer's subscriptions they belong to.

* `Session.slots_step`: what one action does to one slot.
* `discards_agreed`: a delivered entry is withheld from a subscription that did not ack it
  only when a sibling did. `Siblings` shows that this happens.
-/

namespace Arbitro

open List

/-! ## One slot -/

namespace Slot

variable {s : Slot} {q : ℕ} {p : ℕ × ℕ → Bool}

theorem has_iff : s.has q = true ↔ q ∈ s.keys := by
  rw [has, contains_iff_mem]

theorem mem_keys_retain : q ∈ (s.retain p).keys ↔ ∃ x ∈ s.set, p x = true ∧ x.1 = q := by
  simp [keys, retain, mem_filter, and_assoc]

theorem mem_keys : q ∈ s.keys ↔ ∃ x ∈ s.set, x.1 = q := by
  simp [keys]

theorem keys_retain_sub (h : q ∈ (s.retain p).keys) : q ∈ s.keys := by
  obtain ⟨x, hx, -, hq⟩ := mem_keys_retain.1 h
  exact mem_keys.2 ⟨x, hx, hq⟩

@[simp] theorem compactFifo_set : s.compactFifo.set = s.set := by
  unfold compactFifo
  split <;> rfl

/-- A recording adds the seq, if it is new; the oldest may go. -/
theorem record_sublist (now seq : ℕ) :
    (s.record now seq).set <+ s.set ∨ seq ∉ s.keys ∧ (s.record now seq).set <+ s.set ++ [(seq, now)] := by
  unfold record
  split
  · exact .inl (.refl _)
  case isFalse hnew =>
    rw [Bool.or_eq_true, not_or, has_iff] at hnew
    exact .inr ⟨hnew.2, filter_sublist⟩

theorem keys_record_sub {now seq : ℕ} (h : q ∈ (s.record now seq).keys) : q = seq ∨ q ∈ s.keys := by
  obtain ⟨x, hx, rfl⟩ := mem_keys.1 h
  rcases s.record_sublist now seq with hsub | ⟨-, hsub⟩
  · exact .inr (mem_keys.2 ⟨x, hsub.subset hx, rfl⟩)
  · grind [hsub.subset hx, mem_keys]

theorem confirmUpTo_set (k : ℕ) : (s.confirmUpTo k).set = s.set.filter fun x => k < x.1 := by
  unfold confirmUpTo
  simp only
  split
  case isTrue hlen => exact (filter_sublist.eq_of_length hlen).symm
  · split
    · rfl
    · exact compactFifo_set

theorem keys_confirmUpTo_sub {k : ℕ} (h : q ∈ (s.confirmUpTo k).keys) : q ∈ s.keys := by
  rw [keys, confirmUpTo_set] at h
  exact keys_retain_sub h

theorem sweep_set (hkind : s.kind = .wal) (cutoff : ℕ) : (s.sweep cutoff).set = s.set.filter fun x => cutoff ≤ x.2 := by
  unfold sweep
  simp only [hkind, reduceCtorEq, false_or]
  split
  case isTrue hlen => exact (filter_sublist.eq_of_length hlen).symm
  · exact compactFifo_set

theorem keys_sweep_sub {cutoff : ℕ} (h : q ∈ (s.sweep cutoff).keys) : q ∈ s.keys := by
  cases hkind : s.kind with
  | memory => simpa [sweep, hkind] using h
  | wal =>
    rw [keys, sweep_set hkind] at h
    exact keys_retain_sub h

end Slot

namespace Client

/-! ## One action -/

/-- The cursor that a reply makes the client confirm. -/
def Action.reports : Action → Option (ConsumerId × ℕ)
  | .ackStateRep rep => if rep.ok then some (rep.consumerId, rep.cursor) else none
  | .ackBatchResp c newCursor => some (c, newCursor)
  | _ => none

namespace Session

variable {s : Session} (room : Bool) (cmd : AckCmd)

theorem updateSlot_slots (s : Session) (i j : SlotId) (f : Slot → Slot) :
    (s.updateSlot i f).slots j = if j = i then f (s.slots j) else s.slots j := by
  unfold updateSlot
  by_cases h : j = i
  · subst h; simp
  · simp [h]

@[simp] theorem sendAck_slots : (s.sendAck room cmd).slots = s.slots := by
  unfold sendAck
  split <;> rfl

@[simp] theorem sendAck_subscriptions : (s.sendAck room cmd).subscriptions = s.subscriptions := by
  unfold sendAck
  split <;> rfl

theorem confirm_slots {c : ConsumerId} {k : ℕ} {j : SlotId} : (s.confirm c k).slots j =
      if s.subscriptions.dedupOf c = some j then (s.slots j).confirmUpTo k else s.slots j := by
  unfold confirm
  split
  case h_1 i hi =>
    rw [updateSlot_slots, hi]
    by_cases h : j = i
    · simp [h]
    · simp [h, Ne.symm h]
  case h_2 hi => simp [hi]

theorem ackStateRep_slots {rep : AckStateRep} :
    (s.ackStateRep rep).1.slots = (if rep.ok then s.confirm rep.consumerId rep.cursor else s).slots := by
  unfold ackStateRep
  generalize (if rep.ok then s.confirm rep.consumerId rep.cursor else s) = s'
  simp only
  split <;> rfl

theorem ack_slots (s : Session) (m : Message) (now : ℕ) (room : Bool) (j : SlotId) :
    (s.ack m now room).slots j = if m.slot = some j then (s.slots j).record now m.seq else s.slots j := by
  have hrec : (s.ack m now room).slots j = (s.recordAck m now).slots j := by
    unfold ack
    split
    · rw [sendAck_slots]
    · rfl
  rw [hrec]
  unfold recordAck
  split
  case h_1 i hi =>
    rw [updateSlot_slots, hi]
    by_cases h : j = i
    · simp [h]
    · simp [h, Ne.symm h]
  case h_2 hi => simp [hi]

@[simp] theorem afterDeliver_slots (s : Session) (e : Entry) (room : Bool) : (s.afterDeliver e room).slots = s.slots := by
  unfold afterDeliver
  split
  · rw [sendAck_slots]
  · rfl

/-- **What one action does to one slot**: nothing, or one of the four operations of the
store. -/
theorem slots_step (s : Session) (a : Action) (i : SlotId) : (s.step a).slots i = s.slots i ∨
    (∃ m now room, a = .ack m now room ∧ m.slot = some i ∧ (s.step a).slots i = (s.slots i).record now m.seq) ∨
    (∃ c k, a.reports = some (c, k) ∧ s.subscriptions.dedupOf c = some i ∧
      (s.step a).slots i = (s.slots i).confirmUpTo k) ∨
    (∃ cutoff, a = .sweep i cutoff ∧ (s.step a).slots i = (s.slots i).sweep cutoff) ∨
    a = .deleteSlot i ∧ (s.step a).slots i = (s.slots i).delete := by
  cases a with
  | ack m now room =>
    have h : (s.step (.ack m now room)).slots i = _ := ack_slots s m now room i
    by_cases hi : m.slot = some i
    · rw [if_pos hi] at h
      exact .inr (.inl ⟨m, now, room, rfl, hi, h⟩)
    · rw [if_neg hi] at h
      exact .inl h
  | ackStateRep rep =>
    have h : (s.step (.ackStateRep rep)).slots i = _ := congrFun ackStateRep_slots i
    by_cases hok : rep.ok = true
    · rw [if_pos hok, confirm_slots] at h
      by_cases hi : s.subscriptions.dedupOf rep.consumerId = some i
      · rw [if_pos hi] at h
        exact .inr (.inr (.inl ⟨rep.consumerId, rep.cursor, by simp [Action.reports, hok], hi, h⟩))
      · rw [if_neg hi] at h
        exact .inl h
    · rw [if_neg hok] at h
      exact .inl h
  | ackBatchResp c k =>
    have h : (s.step (.ackBatchResp c k)).slots i = _ := confirm_slots
    by_cases hi : s.subscriptions.dedupOf c = some i
    · exact .inr (.inr (.inl ⟨c, k, rfl, hi, h.trans (if_pos hi)⟩))
    · exact .inl (h.trans (if_neg hi))
  | sweep j cutoff =>
    have h := updateSlot_slots s j i (·.sweep cutoff)
    by_cases hij : i = j
    · subst hij
      exact .inr (.inr (.inr (.inl ⟨cutoff, rfl, h.trans (if_pos rfl)⟩)))
    · exact .inl (h.trans (if_neg hij))
  | deleteSlot j =>
    have h := updateSlot_slots s j i Slot.delete
    by_cases hij : i = j
    · subst hij
      exact .inr (.inr (.inr (.inr ⟨rfl, h.trans (if_pos rfl)⟩)))
    · exact .inl (h.trans (if_neg hij))
  | deliver e room => exact .inl (congrFun (afterDeliver_slots s e room) i)
  | nack m delayMs room =>
    left
    show (s.nack m delayMs room).slots i = s.slots i
    unfold nack
    split <;> rfl
  | _ => exact .inl rfl

theorem keys_step {a : Action} {i : SlotId} {q : ℕ} (h : q ∈ ((s.step a).slots i).keys) :
    q ∈ (s.slots i).keys ∨ ∃ m now room, a = .ack m now room ∧ m.slot = some i ∧ m.seq = q := by
  rcases slots_step s a i with he | ⟨m, now, room, ha, hm, he⟩ | ⟨c, k, -, -, he⟩ | ⟨cutoff, -, he⟩ | ⟨-, he⟩ <;>
    rw [he] at h
  · exact .inl h
  · rcases Slot.keys_record_sub h with hq | hq
    · exact .inr ⟨m, now, room, ha, hm, hq.symm⟩
    · exact .inl hq
  · exact .inl (Slot.keys_confirmUpTo_sub h)
  · exact .inl (Slot.keys_sweep_sub h)
  · exact absurd h (not_mem_nil)

end Session

/-! ## The ledger -/

namespace Ledger

variable {l : Ledger} {s : Session}

/-- The handler of a subscription acked its copy of a seq. -/
def AckedBy (l : Ledger) (i : SlotId) (seq sub : ℕ) : Prop :=
  ∃ m ∈ l.acked, m.slot = some i ∧ m.seq = seq ∧ m.subId = sub

/-- Nothing was recorded yet. -/
structure Blank (l : Ledger) : Prop where
  slots : ∀ i, (l.session.slots i).keys = []
  acked : l.acked = []

/-- **A delivered entry reaches every subscription it is routed to**, those apart that acked
it before. -/
def Fair (l : Ledger) : Action → Prop
  | .deliver e _ => ∀ r, l.session.subscriptions.bySub.lookup e.subId = some r →
      ∀ sub ∈ Subscriptions.targets r e.subject,
        (∃ m ∈ (l.session.deliver e).messages, m.subId = sub ∧ m.seq = e.seq) ∨
        ∃ i, r.dedup = some i ∧ l.AckedBy i e.seq sub
  | _ => True

/-- When an entry is delivered, of the consumer's subscriptions none acked its seq yet or all
that it is routed to did. -/
def Agreed (l : Ledger) : Action → Prop
  | .deliver e _ => ∀ r i, l.session.subscriptions.bySub.lookup e.subId = some r → r.dedup = some i →
      (∀ m ∈ l.acked, m.slot = some i → m.seq ≠ e.seq) ∨
      ∀ sub ∈ Subscriptions.targets r e.subject, l.AckedBy i e.seq sub
  | _ => True

/-- Every live seq was acked by some handler. -/
def Backed (l : Ledger) : Prop :=
  ∀ i, ∀ q ∈ (l.session.slots i).keys, ∃ m ∈ l.acked, m.slot = some i ∧ m.seq = q

theorem acked_step {a : Action} : l.acked ⊆ (l.step a).acked := by
  intro m hm
  cases a <;> simp [step, hm]

theorem Backed.step (h : l.Backed) (a : Action) : (l.step a).Backed := by
  intro i q hq
  rcases Session.keys_step hq with hold | ⟨m, now, room, rfl, hslot, hseq⟩
  · obtain ⟨m, hm, hmi⟩ := h i q hold
    exact ⟨m, acked_step hm, hmi⟩
  · exact ⟨m, mem_append_right _ (mem_singleton.2 rfl), hslot, hseq⟩

theorem Blank.backed (h : l.Blank) : l.Backed := by
  intro i q hq
  rw [h.slots] at hq
  exact absurd hq not_mem_nil

theorem messages_of_route {e : Entry} {r : Route} {sub : ℕ}
    (hr : s.subscriptions.bySub.lookup e.subId = some r) (hsub : sub ∈ Subscriptions.targets r e.subject) :
    (∃ m ∈ (s.deliver e).messages, m.subId = sub ∧ m.seq = e.seq) ∨ s.probe r.dedup e.seq = true := by
  unfold Session.deliver
  simp only [hr]
  split
  case isTrue h => exact .inr h
  case isFalse h => exact .inl ⟨_, mem_map.2 ⟨sub, hsub, rfl⟩, rfl, rfl⟩

theorem probe_spec {d : Option SlotId} {q : ℕ} (h : s.probe d q = true) : ∃ i, d = some i ∧ q ∈ (s.slots i).keys := by
  unfold Session.probe at h
  split at h
  · rw [Slot.seen, Bool.and_eq_true] at h
    exact ⟨_, rfl, Slot.has_iff.1 h.2⟩
  · exact absurd h (by decide)

/-- With agreement at this delivery, only those miss it that acked it. -/
theorem Backed.fair (hb : l.Backed) {a : Action} (ha : l.Agreed a) : l.Fair a := by
  cases a with
  | deliver e room =>
    intro r hr sub hsub
    rcases messages_of_route hr hsub with hm | hprobe
    · exact .inl hm
    obtain ⟨i, hi, hq⟩ := probe_spec hprobe
    obtain ⟨m, hm, hslot, hseq⟩ := hb i e.seq hq
    rcases ha r i hr hi with hnone | hall
    · exact absurd hseq (hnone m hm hslot)
    · exact .inr ⟨i, hi, hall sub hsub⟩
  | _ => trivial

/-- **A subscription misses a delivered entry only if it acked that seq itself**, along every
run in which no entry is delivered that some but not all of its subscriptions acked. -/
theorem discards_agreed {l : Ledger} (hl : l.Blank) (as : List Action) (hrun : Run.Guarded step Agreed l as) :
    Run.Guarded step Fair l as := by
  exact Run.guarded_of_invariant (fun _ a hb _ => hb.step a) (fun _ _ hb ha => hb.fair ha) as l hl.backed hrun

/-! ## Two subscriptions of one consumer -/

namespace Siblings

/-- An in-memory store, nothing recorded. -/
def start : Ledger where
  session := { slots := fun _ => { kind := .memory, cap := 1000000 } }

theorem start_blank : start.Blank where
  slots _ := rfl
  acked := rfl

/-- Subscriptions 1 and 2 of consumer 1, both unfiltered, in fan-out. -/
def opens : List Action :=
  [.register ⟨1, 1, true, some 0, 1, []⟩, .register ⟨1, 1, true, some 0, 2, []⟩]

def entry : Entry := ⟨1, 5, 1, [97], [], [120]⟩

/-- The copy of one subscription. -/
def copy (sub : ℕ) : Message := ⟨5, 1, 1, sub, [97], [], [120], some 0⟩

/-- What the entry is routed by. -/
def route : Route := ⟨1, 1, true, 0, some 0, [⟨1, .all⟩, ⟨2, .all⟩]⟩

theorem mem_targets {sub : ℕ} (h : sub ∈ Subscriptions.targets route entry.subject) : sub = 1 ∨ sub = 2 := by
  have htargets : Subscriptions.targets route entry.subject = [1, 2] := by decide
  rw [htargets] at h
  simpa using h

/-- Both acked before the entry comes again. -/
def agreeing : List Action :=
  opens ++ [.deliver entry true, .ack (copy 1) 10 true, .ack (copy 2) 11 true, .deliver entry true]

/-- The first acked, the second asked for a redelivery. -/
def disagreeing : List Action :=
  opens ++ [.deliver entry true, .ack (copy 1) 10 true, .nack (copy 2) 0 true, .deliver entry true]

theorem agreeing_fair : Run.Guarded step Agreed start agreeing ∧ Run.Guarded step Fair start agreeing := by
  have h : Run.Guarded step Agreed start agreeing := by
    refine ⟨trivial, trivial, ?_, trivial, trivial, ?_, trivial⟩
    · intro r i _ _
      exact .inl fun m hm => absurd hm not_mem_nil
    intro r i hr hi
    obtain rfl : route = r := Option.some.inj ((by decide : some route = _).trans hr)
    obtain rfl : 0 = i := Option.some.inj hi
    right
    intro sub hsub
    rcases mem_targets hsub with rfl | rfl
    · exact ⟨copy 1, by decide, rfl, rfl, rfl⟩
    · exact ⟨copy 2, by decide, rfl, rfl, rfl⟩
  exact ⟨h, discards_agreed start_blank agreeing h⟩

/-- **A redelivery that one subscription asked for is discarded for it**, and acked in its
name, because its sibling acked. -/
theorem nacked_copy_discarded :
    let l := disagreeing.dropLast.foldl step start
    copy 2 ∈ l.handed ∧ l.acked = [copy 1] ∧ l.session.nackTx = [⟨5, 1, 2, 0⟩] ∧
      l.session.deliver entry = .duplicate ⟨5, 1, 1⟩ ∧ ¬ Run.Guarded step Fair start disagreeing := by
  refine ⟨by decide, by decide, by decide, by decide, ?_⟩
  rintro ⟨-, -, -, -, -, hfair, -⟩
  rcases hfair route (by decide) 2 (by decide) with ⟨m, hm, -⟩ | ⟨i, -, m, hm, -, -, hsub⟩
  · exact absurd hm not_mem_nil
  · obtain rfl : m = copy 1 := mem_singleton.1 hm
    exact absurd hsub (by decide)

end Siblings

end Ledger

end Client

end Arbitro
