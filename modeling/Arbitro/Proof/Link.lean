import Arbitro.Client.Link
import Arbitro.Proof.Dedup

/-!
# What the client forgets and what the broker still owes

The client drops from its dedup slot everything at or below a cursor that the broker reports.
The broker's cursor is the highest acked seq, and says nothing about those below it.

* `Slot.Bounded`: the range that `fresh` checks first hides no live seq.
* `Clear`: of what is on the connection ahead of a reply, nothing at or below its cursor
  follows it.
* `recorded_discarded`: with cursors that cover only acked seqs, a recorded seq is never
  handed over again. `Overtaken` is a run in which it is.
-/

namespace Arbitro

open List

/-! ## The bounds of a slot -/

namespace Slot

variable {s : Slot} {q : ℕ} {now : ℕ}

/-- The bounds hold for every live seq, and the queue has them all. -/
structure Bounded (s : Slot) : Prop where
  fifo : ∀ q ∈ s.keys, q ∈ s.fifo
  pos : ∀ q ∈ s.keys, 0 < q
  low : ∀ q ∈ s.keys, s.minSeq ≤ q ∧ s.minSeq ≠ 0
  high : ∀ q ∈ s.keys, q ≤ s.maxSeq

theorem Bounded.seen (h : s.Bounded) (hq : q ∈ s.keys) : s.seen q = true := by
  have hpos := h.pos q hq
  have hlow := (h.low q hq).1
  have hhigh := h.high q hq
  have hfresh : s.fresh q = false := by
    simp only [fresh, Bool.or_eq_false_iff, decide_eq_false_iff_not]
    omega
  rw [Slot.seen, hfresh, has_iff.2 hq]
  rfl

theorem least_fold {qs : List ℕ} : ∀ m : ℕ, (∀ q ∈ qs, 0 < q) →
    let r := qs.foldl (fun m q => if m = 0 ∨ q < m then q else m) m
    (m ≠ 0 → r ≠ 0 ∧ r ≤ m) ∧ ∀ q ∈ qs, r ≤ q ∧ r ≠ 0 := by
  induction qs with
  | nil => intro m _; exact ⟨fun h => ⟨h, le_rfl⟩, fun q hq => absurd hq not_mem_nil⟩
  | cons x qs ih =>
    intro m hpos
    have hx : 0 < x := hpos x mem_cons_self
    have hstep := ih (if m = 0 ∨ x < m then x else m) fun q hq => hpos q (mem_cons_of_mem _ hq)
    obtain ⟨hacc, hall⟩ := hstep
    have hne : (if m = 0 ∨ x < m then x else m) ≠ 0 ∧ (if m = 0 ∨ x < m then x else m) ≤ x ∧
        (m ≠ 0 → (if m = 0 ∨ x < m then x else m) ≤ m) := by
      split <;> omega
    obtain ⟨hr0, hr⟩ := hacc hne.1
    exact ⟨fun hm => ⟨hr0, hr.trans (hne.2.2 hm)⟩, forall_mem_cons.2 ⟨⟨hr.trans hne.2.1, hr0⟩, hall⟩⟩

theorem least_spec {qs : List ℕ} (hpos : ∀ q ∈ qs, 0 < q) (hq : q ∈ qs) : least qs ≤ q ∧ least qs ≠ 0 :=
  (least_fold 0 hpos).2 q hq

theorem compactFifo_bounded (hfifo : ∀ q ∈ s.keys, q ∈ s.fifo) (hpos : ∀ q ∈ s.keys, 0 < q)
    (hhigh : ∀ q ∈ s.keys, q ≤ s.maxSeq) : s.compactFifo.Bounded := by
  unfold compactFifo
  split
  case isTrue hempty =>
    have hnil : s.fifo = [] := isEmpty_iff.1 hempty
    refine ⟨hfifo, hpos, fun q hq => ?_, hhigh⟩
    have := hfifo q hq
    rw [hnil] at this
    exact absurd this not_mem_nil
  case isFalse =>
    have hkept : ∀ q ∈ s.keys, q ∈ s.fifo.filter s.has := fun q hq => mem_filter.2 ⟨hfifo q hq, has_iff.2 hq⟩
    have hkpos : ∀ q ∈ s.fifo.filter s.has, 0 < q := fun q hq => hpos q (has_iff.1 (mem_filter.1 hq).2)
    exact ⟨hkept, hpos, fun q hq => least_spec hkpos (hkept q hq), hhigh⟩

theorem Bounded.confirmUpTo (h : s.Bounded) (k : ℕ) : (s.confirmUpTo k).Bounded := by
  unfold Slot.confirmUpTo
  simp only
  split
  · exact h
  have hsub : ∀ q ∈ (s.retain fun x => k < x.1).keys, q ∈ s.keys := fun q hq => keys_retain_sub hq
  have hfifo : ∀ q ∈ (s.retain fun x => k < x.1).keys, q ∈ s.fifo := fun q hq => h.fifo q (hsub q hq)
  have hpos : ∀ q ∈ (s.retain fun x => k < x.1).keys, 0 < q := fun q hq => h.pos q (hsub q hq)
  have hhigh : ∀ q ∈ (s.retain fun x => k < x.1).keys, q ≤ s.maxSeq := fun q hq => h.high q (hsub q hq)
  split
  · exact ⟨hfifo, hpos, fun q hq => least_spec hpos hq, hhigh⟩
  · exact compactFifo_bounded hfifo hpos hhigh

theorem keys_confirmUpTo {k : ℕ} (hq : q ∈ s.keys) (hk : k < q) : q ∈ (s.confirmUpTo k).keys := by
  obtain ⟨x, hx, rfl⟩ := mem_keys.1 hq
  rw [keys, confirmUpTo_set]
  exact mem_map_of_mem (mem_filter.2 ⟨hx, decide_eq_true hk⟩)

theorem confirmUpTo_tombed {k : ℕ} : (s.confirmUpTo k).tombed = s.tombed := by
  unfold confirmUpTo
  simp only
  split
  · rfl
  · split
    · rfl
    · unfold compactFifo
      split <;> rfl

theorem record_eq (htomb : s.tombed = false) (hroom : s.fifo.length < s.cap) (hnew : q ∉ s.keys) :
    s.record now q = { s with
      set := s.set ++ [(q, now)]
      fifo := s.fifo ++ [q]
      maxSeq := max s.maxSeq q
      minSeq := if s.minSeq = 0 ∨ q < s.minSeq then q else s.minSeq } := by
  have hhas : s.has q = false := by
    rw [← Bool.not_eq_true, has_iff]
    exact hnew
  have hover : (s.fifo ++ [q]).length - s.cap = 0 := by
    rw [length_append, length_singleton]
    omega
  unfold record evict retain
  simp only [htomb, hhas, Bool.or_self, Bool.false_eq_true, if_false, hover, take_zero, drop_zero,
    contains_nil, Bool.not_false, filter_true]

theorem record_of_mem (hq : q ∈ s.keys) : s.record now q = s := by
  unfold record
  rw [has_iff.2 hq, Bool.or_true]
  rfl

theorem mem_record (htomb : s.tombed = false) (hroom : s.fifo.length < s.cap) {x : ℕ} :
    x ∈ (s.record now q).keys ↔ x = q ∨ x ∈ s.keys := by
  by_cases hq : q ∈ s.keys
  · rw [record_of_mem hq]
    refine ⟨.inr, ?_⟩
    rintro (rfl | hx)
    · exact hq
    · exact hx
  · rw [record_eq htomb hroom hq]
    simp [keys, or_comm]

theorem Bounded.record (h : s.Bounded) (hpos : 0 < q) : (s.record now q).Bounded := by
  have hsub : ∀ x ∈ (s.record now q).keys, x = q ∨ x ∈ s.keys := fun x => keys_record_sub
  unfold Slot.record at hsub ⊢
  split at hsub
  case isTrue hskip => rwa [if_pos hskip]
  case isFalse hnew =>
    rw [if_neg hnew]
    refine ⟨fun x hx => ?_, fun x hx => ?_, fun x hx => ?_, fun x hx => ?_⟩
    · -- what leaves the queue has left the set
      obtain ⟨y, hy, hkept, rfl⟩ := mem_keys_retain.1 hx
      have hall : y.1 ∈ s.fifo ++ [q] := by
        rcases hsub _ hx with hq | hold
        · exact mem_append_right _ (mem_singleton.2 hq)
        · exact mem_append_left _ (h.fifo _ hold)
      rw [← take_append_drop ((s.fifo ++ [q]).length - s.cap) (s.fifo ++ [q]), mem_append] at hall
      exact hall.resolve_left (by simpa using hkept)
    all_goals
      rcases hsub x hx with rfl | hold
    · exact hpos
    · exact h.pos x hold
    · simp only
      split <;> omega
    · have := h.low x hold
      simp only
      split <;> omega
    · exact le_max_right _ _
    · exact (h.high x hold).trans (le_max_left _ _)

theorem record_tombed : (s.record now q).tombed = s.tombed := by
  unfold record
  split <;> rfl

theorem sweep_eq {cutoff : ℕ} (h : ∀ x ∈ s.set, cutoff ≤ x.2) : s.sweep cutoff = s := by
  have hall : s.set.filter (fun x => cutoff ≤ x.2) = s.set := filter_eq_self.2 fun x hx => by simpa using h x hx
  unfold sweep retain
  simp only [hall, or_true, if_true]

end Slot

namespace Client

/-! ## What the routing table says of slots -/

namespace Subscriptions

variable {P : ConsumerId → Option SlotId → Prop} {g : Subscriptions} {c : ConsumerId}

/-- A property of every consumer and its dedup slot, in both maps. -/
structure All (P : ConsumerId → Option SlotId → Prop) (g : Subscriptions) : Prop where
  route : ∀ sub r, g.bySub.lookup sub = some r → P r.consumerId r.dedup
  consumer : ∀ c con, g.byConsumer.lookup c = some con → P c con.dedup

theorem lookup_erases {subs : List Subscription} {m : Map ℕ Route} {sub : ℕ} {r : Route} :
    (subs.foldl (fun m s => m.erase s.id) m).lookup sub = some r → m.lookup sub = some r :=
  foldlRecOn subs _ (motive := fun m' : Map ℕ Route => m'.lookup sub = some r → m.lookup sub = some r) id
    fun _ ih _ _ h => ih (Map.of_lookup_erase h).2

theorem lookup_inserts {f : Subscription × ℕ → Route} {subs : List (Subscription × ℕ)} (m : Map ℕ Route) (sub : ℕ)
    (r : Route) (h : (subs.foldl (fun m s => m.insert s.1.id (f s)) m).lookup sub = some r) :
    m.lookup sub = some r ∨ ∃ s, r = f s := by
  induction subs generalizing m sub r with
  | nil => exact .inl h
  | cons s subs ih =>
    rcases ih _ sub r h with h' | h'
    · rcases Map.of_lookup_insert h' with ⟨-, rfl⟩ | ⟨-, h'⟩
      · exact .inr ⟨s, rfl⟩
      · exact .inl h'
    · exact .inr h'

theorem All.rebuild (h : g.All P) {d : Option SlotId} (hc : P c d) (stream : StreamId)
    (fanout : Bool) (subs : List Subscription) : (g.rebuild c stream fanout d subs).All P := by
  refine ⟨fun sub r hr => ?_, fun c' con hcon => ?_⟩
  · rcases lookup_inserts _ sub r hr with hold | ⟨si, rfl⟩
    · exact h.route sub r (lookup_erases hold)
    · exact hc
  rcases Map.of_lookup_insert hcon with ⟨rfl, rfl⟩ | ⟨-, hcon⟩
  · exact hc
  · exact h.consumer c' con hcon

theorem All.dropConsumer (h : g.All P) (c : ConsumerId) : (g.dropConsumer c).All P := by
  refine ⟨fun sub r hr => h.route sub r (lookup_erases hr), fun c' con hcon => ?_⟩
  exact h.consumer c' con (Map.of_lookup_erase hcon).2

theorem All.setFanout (h : g.All P) (c : ConsumerId) (fanout : Bool) : (g.setFanout c fanout).All P := by
  unfold Subscriptions.setFanout
  split
  · exact h
  case h_2 con hcon =>
    split
    · exact h
    · exact h.rebuild (h.consumer c con hcon) _ _ _

theorem All.eraseSub (h : g.All P) {sub : ℕ} : ({ g with bySub := g.bySub.erase sub } : Subscriptions).All P := by
  refine ⟨fun sub' r hr => ?_, h.consumer⟩
  exact h.route sub' r (Map.of_lookup_erase hr).2

theorem All.remove (h : g.All P) (sub : ℕ) : (g.remove sub).All P := by
  unfold Subscriptions.remove
  split
  · exact h
  case h_2 r _ =>
  split
  · exact h.eraseSub
  case h_2 con hcon =>
  simp only
  split
  · exact h.dropConsumer _
  · exact (h.rebuild (h.consumer _ con hcon) _ _ _).eraseSub

end Subscriptions

namespace Session

variable {P : ConsumerId → Option SlotId → Prop} {s : Session}

/-- Only the routing actions touch the routing table. -/
theorem subscriptions_step {a : Action} : (s.step a).subscriptions = match a with
      | .register reg => s.subscriptions.register reg
      | .setFanout c fanout => s.subscriptions.setFanout c fanout
      | .remove sub => s.subscriptions.remove sub
      | .removeConsumer c => s.subscriptions.dropConsumer c
      | _ => s.subscriptions := by
  have hconfirm : ∀ (s : Session) c k, (s.confirm c k).subscriptions = s.subscriptions := by
    intro s c k
    unfold confirm
    split <;> rfl
  cases a with
  | deliver e room =>
    show (s.afterDeliver e room).subscriptions = s.subscriptions
    unfold afterDeliver
    split
    · rw [sendAck_subscriptions]
    · rfl
  | ack m now room =>
    show (s.ack m now room).subscriptions = s.subscriptions
    have hrec : (s.recordAck m now).subscriptions = s.subscriptions := by
      unfold recordAck
      split <;> rfl
    unfold ack
    split
    · rw [sendAck_subscriptions, hrec]
    · exact hrec
  | nack m delayMs room =>
    show (s.nack m delayMs room).subscriptions = s.subscriptions
    unfold nack
    split <;> rfl
  | ackStateRep rep =>
    have hif : (if rep.ok then s.confirm rep.consumerId rep.cursor else s).subscriptions = s.subscriptions := by
      split
      · exact hconfirm _ _ _
      · rfl
    show (s.ackStateRep rep).1.subscriptions = s.subscriptions
    unfold ackStateRep
    generalize (if rep.ok then s.confirm rep.consumerId rep.cursor else s) = s' at hif ⊢
    simp only
    split <;> exact hif
  | ackBatchResp c k => exact hconfirm _ _ _
  | _ => rfl

theorem all_step (h : s.subscriptions.All P) {a : Action}
    (hreg : ∀ reg, a = .register reg → P reg.consumerId reg.dedup) : (s.step a).subscriptions.All P := by
  rw [subscriptions_step]
  cases a with
  | register reg => exact h.rebuild (hreg reg rfl) _ _ _
  | setFanout c fanout => exact h.setFanout c fanout
  | remove sub => exact h.remove sub
  | removeConsumer c => exact h.dropConsumer c
  | _ => exact h

end Session

open Session

/-! ## The connection -/

/-- The consumer and seq of an entry. -/
def Entry.key (e : Entry) : ConsumerId × ℕ := (e.consumerId, e.seq)

def Message.key (m : Message) : ConsumerId × ℕ := (m.consumerId, m.seq)

/-- Acked at the broker, and no copy is under way. -/
def Gone (settled : List (ConsumerId × ℕ)) (ds : List Down) (p : ConsumerId × ℕ) : Prop :=
  p ∈ settled ∧ ∀ e, .entry e ∈ ds → e.key ≠ p

/-- **Nothing that reached the client ahead of a reply and lies at or below its cursor is
still owed when the reply arrives.** `got` is what reached the client so far. -/
def Clear (settled : List (ConsumerId × ℕ)) : Set (ConsumerId × ℕ) → List Down → Prop
  | _, [] => True
  | got, .entry e :: ds => Clear settled (insert e.key got) ds
  | got, .ackStateRep rep :: ds => Confirms got ds (Action.ackStateRep rep) ∧ Clear settled got ds
  | got, .ackBatchResp c k :: ds => Confirms got ds (Action.ackBatchResp c k) ∧ Clear settled got ds
where
  /-- The same for one reply. -/
  Confirms (got : Set (ConsumerId × ℕ)) (ds : List Down) (a : Action) : Prop :=
    ∀ c k, a.reports = some (c, k) → ∀ q, 0 < q → q ≤ k → (c, q) ∈ got → Gone settled ds (c, q)

section Clear

variable {settled settled' : List (ConsumerId × ℕ)} {ds : List Down} {p : ConsumerId × ℕ} {got : Set (ConsumerId × ℕ)}
  {e : Entry} {d : Down}

theorem Gone.settle (h : Gone settled ds p) (hs : settled ⊆ settled') : Gone settled' ds p :=
  ⟨hs h.1, h.2⟩

theorem Gone.drop {ds' : List Down} (h : Gone settled ds p) (hsub : ds' ⊆ ds) : Gone settled ds' p :=
  ⟨h.1, fun e he => h.2 e (hsub he)⟩

theorem Gone.send (h : Gone settled ds p) (he : e.key ∉ settled) : Gone settled (ds ++ [.entry e]) p := by
  refine ⟨h.1, fun e' he' => ?_⟩
  rcases mem_append.1 he' with hold | hnew
  · exact h.2 e' hold
  · obtain rfl : e' = e := by simpa using hnew
    rintro rfl
    exact he h.1

theorem Gone.reply (h : Gone settled ds p) (hd : ∀ e, d ≠ .entry e) : Gone settled (ds ++ [d]) p := by
  refine ⟨h.1, fun e' he' => ?_⟩
  rcases mem_append.1 he' with hold | hnew
  · exact h.2 e' hold
  · exact absurd (mem_singleton.1 hnew).symm (hd e')

theorem Clear.mono {got' : Set (ConsumerId × ℕ)} (hs : settled ⊆ settled') (hg : got' ⊆ got)
    (h : Clear settled got ds) : Clear settled' got' ds := by
  induction ds generalizing got got' with
  | nil => trivial
  | cons d ds ih =>
    cases d with
    | entry e => exact ih (Set.insert_subset_insert hg) h
    | _ => exact ⟨fun c k hr q h0 hk hq => (h.1 c k hr q h0 hk (hg hq)).settle hs, ih hg h.2⟩

theorem Clear.append {tail : List Down} (h : Clear settled got ds)
    (hgone : ∀ {ds p}, Gone settled ds p → Gone settled (ds ++ tail) p)
    (htail : Clear settled (got ∪ {p | ∃ e, .entry e ∈ ds ∧ e.key = p}) tail) : Clear settled got (ds ++ tail) := by
  induction ds generalizing got with
  | nil => simpa using htail
  | cons d ds ih =>
    cases d with
    | entry e =>
      refine ih h (htail.mono (Subset.refl _) ?_)
      rintro p ((rfl | hp) | ⟨e', he', rfl⟩)
      · exact .inr ⟨e, mem_cons_self, rfl⟩
      · exact .inl hp
      · exact .inr ⟨e', mem_cons_of_mem _ he', rfl⟩
    | _ => exact ⟨fun c k hr q h0 hk hq => hgone (h.1 c k hr q h0 hk hq), ih h.2 (by simpa using htail)⟩

/-- A reply may follow when everything up to its cursor that is ahead of it is acked. -/
theorem Clear.reply (h : Clear settled got ds) (hd : ∀ e, d ≠ .entry e)
    (hlast : ∀ c k, (d.action true).reports = some (c, k) → ∀ q, 0 < q → q ≤ k →
      ((c, q) ∈ got ∨ ∃ e, .entry e ∈ ds ∧ e.key = (c, q)) → (c, q) ∈ settled) :
    Clear settled got (ds ++ [d]) := by
  refine h.append (·.reply hd) ?_
  cases d with
  | entry e => exact absurd rfl (hd e)
  | _ => exact ⟨fun c k hr q h0 hk hq => ⟨hlast c k hr q h0 hk hq, fun e he => absurd he not_mem_nil⟩, trivial⟩

end Clear

/-! ## Runs -/

namespace Link

variable {wh : WireHash} {slotOf : ConsumerId → Option SlotId} {l : Link} {e : Entry} {a : Action} {m : Message}

/-- What the client recorded is handed to nobody again. -/
def Once (l : Link) : LinkAction → Prop
  | .receive _ => ∀ e ds r i, l.down = .entry e :: ds →
      l.ledger.session.subscriptions.bySub.lookup e.subId = some r → r.dedup = some i →
      (∃ m ∈ l.ledger.acked, m.slot = some i ∧ m.seq = e.seq) → (l.ledger.session.deliver e).messages = []
  | _ => True

/-- A consumer's cursor covers nothing that was sent to it and is not acked. -/
def Covers (l : Link) (c : ConsumerId) : Prop := ∀ q ≤ l.cursor c, (c, q) ∈ l.sent → (c, q) ∈ l.settled

/-- Every consumer has its own slot; a handler acks what it was handed; the store neither
overflows nor expires; the drain sends nothing that was acked, and under the consumer of its
subscription; and **a cursor is reported only when everything up to it that was sent is
acked**. -/
def Orderly (slotOf : ConsumerId → Option SlotId) (l : Link) : LinkAction → Prop
  | .broker _ => True
  | .send e => e.key ∉ l.settled ∧ 0 < e.seq
  | .ackStateRep c known _ _ => known = true → l.Covers c
  | .ackBatchResp c known => known = true → l.Covers c
  | .receive _ => ∀ e ds r, l.down = .entry e :: ds →
      l.ledger.session.subscriptions.bySub.lookup e.subId = some r → r.consumerId = e.consumerId
  | .own (.register reg) => reg.dedup = slotOf reg.consumerId
  | .own (.ack m _ _) => m ∈ l.ledger.handed ∧
      ∀ i, m.slot = some i → (l.ledger.session.slots i).fifo.length < (l.ledger.session.slots i).cap
  | .own (.sweep i cutoff) => ∀ x ∈ (l.ledger.session.slots i).set, cutoff ≤ x.2
  | .own (.deleteSlot _) => False
  | .own _ => True
  | .reconnect => True

/-- Nothing has happened yet. -/
structure Blank (l : Link) : Prop where
  slots : ∀ i, (l.ledger.session.slots i).set = [] ∧ (l.ledger.session.slots i).tombed = false
  routes : l.ledger.session.subscriptions = {}
  down : l.down = []
  handed : l.ledger.handed = []
  acked : l.ledger.acked = []

/-- The client's part of the invariant, for a ledger, what is under way and what is acked at
the broker. -/
structure Kept (slotOf : ConsumerId → Option SlotId) (g : Ledger) (ds : List Down)
    (settled : List (ConsumerId × ℕ)) : Prop where
  routes : g.session.subscriptions.All fun c d => d = slotOf c
  messages : ∀ m ∈ g.handed, m.slot = slotOf m.consumerId ∧ 0 < m.seq
  acked : ∀ m ∈ g.acked, m ∈ g.handed
  bounded : ∀ i, (g.session.slots i).Bounded
  untombed : ∀ i, (g.session.slots i).tombed = false
  /-- A recorded seq is live, or gone for good. -/
  held : ∀ m ∈ g.acked, ∀ i, m.slot = some i → m.seq ∈ (g.session.slots i).keys ∨ Gone settled ds m.key
  clear : Clear settled {p | ∃ m ∈ g.handed, m.key = p} ds

/-- The whole invariant: the client's part, and that everything under way or handed over was
sent. -/
structure Good (slotOf : ConsumerId → Option SlotId) (l : Link) : Prop where
  kept : Kept slotOf l.ledger l.down l.settled
  handed : ∀ m ∈ l.ledger.handed, m.key ∈ l.sent
  entries : ∀ e, .entry e ∈ l.down → e.key ∈ l.sent ∧ 0 < e.seq

theorem mem_messages {s : Session} (h : m ∈ (s.deliver e).messages) :
    ∃ r, s.subscriptions.bySub.lookup e.subId = some r ∧ m.key = e.key ∧ m.slot = r.dedup := by
  unfold deliver at h
  split at h
  · exact absurd h not_mem_nil
  case h_2 r hr =>
  split at h
  · exact absurd h not_mem_nil
  · obtain ⟨sub, -, rfl⟩ := mem_map.1 h
    exact ⟨r, hr, rfl, rfl⟩

variable {g : Ledger} {ds : List Down} {settled : List (ConsumerId × ℕ)} {d : Down} {room : Bool}
  (hinj : ∀ c c' i, slotOf c = some i → slotOf c' = some i → c = c')

theorem Kept.settle (h : Kept slotOf g ds settled) {settled' : List (ConsumerId × ℕ)} (hs : settled ⊆ settled') :
    Kept slotOf g ds settled' :=
  { h with
    held := fun m hm i hi => (h.held m hm i hi).imp_right (·.settle hs)
    clear := h.clear.mono hs subset_rfl }

theorem Kept.send (h : Kept slotOf g ds settled) (he : e.key ∉ settled) : Kept slotOf g (ds ++ [.entry e]) settled :=
  { h with
    held := fun m hm i hi => (h.held m hm i hi).imp_right (·.send he)
    clear := h.clear.append (·.send he) trivial }

theorem Kept.deliver (h : Kept slotOf g (.entry e :: ds) settled) (hpos : 0 < e.seq)
    (hroute : ∀ r, g.session.subscriptions.bySub.lookup e.subId = some r → r.consumerId = e.consumerId)
    (room : Bool) : Kept slotOf (g.step (.deliver e room)) ds settled := by
  have hslots : (g.step (.deliver e room)).session.slots = g.session.slots := afterDeliver_slots g.session e room
  have hnew : ∀ m ∈ (g.session.deliver e).messages, m.key = e.key ∧ m.slot = slotOf m.consumerId := by
    intro m hm
    obtain ⟨r, hr, hkey, hslot⟩ := mem_messages hm
    have hc : m.consumerId = e.consumerId := congrArg Prod.fst hkey
    refine ⟨hkey, ?_⟩
    rw [hslot, h.routes.route _ r hr, hroute r hr, hc]
  refine ⟨all_step h.routes (by rintro reg ⟨⟩), fun m hm => ?_,
    fun m hm => mem_append_left _ (h.acked m hm), ?_, ?_, ?_, ?_⟩
  · rcases mem_append.1 hm with hold | hm
    · exact h.messages m hold
    · obtain ⟨hkey, hslot⟩ := hnew m hm
      have hseq : m.seq = e.seq := congrArg Prod.snd hkey
      exact ⟨hslot, hseq ▸ hpos⟩
  · rw [hslots]
    exact h.bounded
  · rw [hslots]
    exact h.untombed
  · rw [hslots]
    intro m hm i hi
    exact (h.held m hm i hi).imp_right (·.drop (subset_cons_self _ _))
  · refine Clear.mono (Subset.refl _) ?_ h.clear
    rintro p ⟨m, hm, rfl⟩
    rcases mem_append.1 hm with hold | hm
    · exact Set.mem_insert_of_mem _ ⟨m, hold, rfl⟩
    · exact Set.mem_insert_iff.2 (.inl (hnew m hm).1)

/-- The slots are touched by a confirmation only. -/
def Confirming (g : Ledger) (a : Action) : Prop :=
  g.session.handed a = [] ∧ (g.step a).acked = g.acked ∧ (∀ reg, a ≠ .register reg) ∧
    ∀ i, (g.step a).session.slots i = g.session.slots i ∨
      ∃ c k, a.reports = some (c, k) ∧ g.session.subscriptions.dedupOf c = some i ∧
        (g.step a).session.slots i = (g.session.slots i).confirmUpTo k

include hinj in
theorem Kept.confirm (h : Kept slotOf g (d :: ds) settled) (ha : Confirming g a)
    (hd : Clear.Confirms settled {p | ∃ m ∈ g.handed, m.key = p} ds a)
    (hclear : Clear settled {p | ∃ m ∈ g.handed, m.key = p} ds) : Kept slotOf (g.step a) ds settled := by
  obtain ⟨hhanded, hacked, hreg, hslots⟩ := ha
  have hh : (g.step a).handed = g.handed := by
    show g.handed ++ g.session.handed a = g.handed
    rw [hhanded, append_nil]
  refine ⟨all_step h.routes fun reg he => absurd he (hreg reg), ?_, ?_, fun i => ?_, fun i => ?_, ?_, ?_⟩
  · rw [hh]
    exact h.messages
  · rw [hh, hacked]
    exact h.acked
  · rcases hslots i with he | ⟨c, k, -, -, he⟩ <;> rw [he]
    · exact h.bounded i
    · exact (h.bounded i).confirmUpTo k
  · rcases hslots i with he | ⟨c, k, -, -, he⟩ <;> rw [he]
    · exact h.untombed i
    · rw [Slot.confirmUpTo_tombed]
      exact h.untombed i
  · rw [hacked]
    intro m hm i hi
    rcases h.held m hm i hi with hlive | hgone
    · rcases hslots i with he | ⟨c, k, hrep, hc, he⟩ <;> rw [he]
      · exact .inl hlive
      by_cases hk : k < m.seq
      · exact .inl (Slot.keys_confirmUpTo hlive hk)
      -- the slot belongs to the consumer of the reply, so the message does
      obtain ⟨con, hcon, hdedup⟩ := Option.bind_eq_some_iff.1 hc
      have hslot : slotOf c = some i := (h.routes.consumer c con hcon).symm.trans hdedup
      have hmsg := h.messages m (h.acked m hm)
      obtain rfl : m.consumerId = c := hinj _ _ i (hmsg.1.symm.trans hi) hslot
      exact .inr (hd m.consumerId k hrep m.seq hmsg.2 (Nat.le_of_not_lt hk) ⟨m, h.acked m hm, rfl⟩)
    · exact .inr (hgone.drop (subset_cons_self _ _))
  · rw [hh]
    exact hclear

theorem confirming_of {a : Action} (hhanded : g.session.handed a = []) (hacked : (g.step a).acked = g.acked)
    (hreg : ∀ reg, a ≠ .register reg) (hack : ∀ m now room, a ≠ .ack m now room) (hsweep : ∀ i cutoff, a ≠ .sweep i cutoff)
    (hdelete : ∀ i, a ≠ .deleteSlot i) : Confirming g a := by
  refine ⟨hhanded, hacked, hreg, fun i => ?_⟩
  rcases slots_step g.session a i with he | ⟨m, now, room, ha, -⟩ | hrep | ⟨cutoff, ha, -⟩ | ⟨ha, -⟩
  · exact .inl he
  · exact absurd ha (hack m now room)
  · exact .inr hrep
  · exact absurd ha (hsweep i cutoff)
  · exact absurd ha (hdelete i)

theorem Kept.ack (h : Kept slotOf g ds settled) {now : ℕ} (hm : m ∈ g.handed)
    (hroom : ∀ i, m.slot = some i → (g.session.slots i).fifo.length < (g.session.slots i).cap) :
    Kept slotOf (g.step (.ack m now room)) ds settled := by
  have hslot : ∀ i, (g.step (.ack m now room)).session.slots i =
      if m.slot = some i then (g.session.slots i).record now m.seq else g.session.slots i :=
    ack_slots g.session m now room
  have hh : (g.step (.ack m now room)).handed = g.handed := append_nil _
  refine ⟨all_step h.routes (by rintro reg ⟨⟩), ?_, ?_, fun i => ?_, fun i => ?_, ?_, ?_⟩
  · rw [hh]
    exact h.messages
  · rw [hh]
    exact forall_mem_append.2 ⟨h.acked, forall_mem_singleton.2 hm⟩
  · rw [hslot]
    split
    case isTrue hi => exact (h.bounded i).record (h.messages m hm).2
    case isFalse => exact h.bounded i
  · rw [hslot]
    split
    · rw [Slot.record_tombed]
      exact h.untombed i
    · exact h.untombed i
  · intro m' hm' i hi
    rw [hslot]
    rcases mem_append.1 hm' with hold | hnew
    · refine (h.held m' hold i hi).imp_left fun hlive => ?_
      split
      case isTrue hmi => exact (Slot.mem_record (h.untombed i) (hroom i hmi)).2 (.inr hlive)
      case isFalse => exact hlive
    · obtain rfl := mem_singleton.1 hnew
      rw [if_pos hi]
      exact .inl ((Slot.mem_record (h.untombed i) (hroom i hi)).2 (.inl rfl))
  · rw [hh]
    exact h.clear

theorem Kept.idle (h : Kept slotOf g ds settled) (hhanded : g.session.handed a = [])
    (hacked : (g.step a).acked = g.acked) (hslots : (g.step a).session.slots = g.session.slots)
    (hreg : ∀ reg, a = .register reg → reg.dedup = slotOf reg.consumerId) : Kept slotOf (g.step a) ds settled := by
  have hh : (g.step a).handed = g.handed := by
    show g.handed ++ g.session.handed a = g.handed
    rw [hhanded, append_nil]
  refine ⟨all_step h.routes hreg, ?_, ?_, ?_, ?_, ?_, ?_⟩
  · rw [hh]; exact h.messages
  · rw [hh, hacked]; exact h.acked
  · rw [hslots]; exact h.bounded
  · rw [hslots]; exact h.untombed
  · rw [hslots, hacked]; exact h.held
  · rw [hh]; exact h.clear

theorem Kept.own (h : Kept slotOf l.ledger l.down l.settled) (hlocal : a.isLocal = true)
    (ha : l.Orderly slotOf (.own a)) : Kept slotOf (l.ledger.step a) l.down l.settled := by
  cases a with
  | register reg => exact h.idle rfl rfl rfl fun reg' he => by cases he; exact ha
  | ack m now room => exact h.ack ha.1 ha.2
  | nack m delayMs room =>
    refine h.idle rfl rfl ?_ (by rintro reg ⟨⟩)
    show (l.ledger.session.nack m delayMs room).slots = l.ledger.session.slots
    unfold nack
    split <;> rfl
  | sweep i cutoff =>
    refine h.idle rfl rfl ?_ (by rintro reg ⟨⟩)
    funext j
    have hj := updateSlot_slots l.ledger.session i j (·.sweep cutoff)
    by_cases hij : j = i
    · subst hij
      rw [if_pos rfl, Slot.sweep_eq ha] at hj
      exact hj
    · rw [if_neg hij] at hj
      exact hj
  | deleteSlot i => exact ha.elim
  | deliver | ackStateRep | ackBatchResp => exact absurd hlocal (by simp [Action.isLocal])
  | _ => exact h.idle rfl rfl rfl (by rintro reg ⟨⟩)

theorem Good.handed_of_none (h : l.Good slotOf) (hnone : l.ledger.session.handed a = [])
    (hm : m ∈ (l.ledger.step a).handed) : m.key ∈ l.sent := by
  have hold : m ∈ l.ledger.handed ++ l.ledger.session.handed a := hm
  rw [hnone, append_nil] at hold
  exact h.handed m hold

include hinj in
theorem Good.receive (h : l.Good slotOf)
    {ds : List Down} (hdown : l.down = d :: ds) (ha : l.Orderly slotOf (.receive room)) :
    Good slotOf { l with down := ds, ledger := l.ledger.step (d.action room) } := by
  have hkept := h.kept
  rw [hdown] at hkept
  have hentries : ∀ e, .entry e ∈ ds → e.key ∈ l.sent ∧ 0 < e.seq := by
    intro e he
    apply h.entries e
    rw [hdown]
    exact mem_cons_of_mem _ he
  cases d with
  | entry e =>
    have he : e.key ∈ l.sent ∧ 0 < e.seq := h.entries e (by rw [hdown]; exact mem_cons_self)
    refine ⟨hkept.deliver he.2 (fun r hr => ha e ds r hdown hr) room, fun m hm => ?_, hentries⟩
    rcases mem_append.1 hm with hold | hnew
    · exact h.handed m hold
    · obtain ⟨r, -, hkey, -⟩ := mem_messages hnew
      rw [hkey]
      exact he.1
  | _ =>
    have hc := hkept.clear
    exact ⟨hkept.confirm hinj (confirming_of rfl rfl nofun nofun nofun nofun) hc.1 hc.2, fun _ => h.handed_of_none rfl, hentries⟩

/-- A reply with a cursor that covers only acked seqs goes on the connection. -/
theorem Good.reply (h : l.Good slotOf) (hd : ∀ e, d ≠ .entry e)
    (hcov : ∀ c k, (d.action true).reports = some (c, k) → ∀ q, 0 < q → q ≤ k → (c, q) ∈ l.sent → (c, q) ∈ l.settled) :
    Good slotOf { l with down := l.down ++ [d] } := by
  refine ⟨{ h.kept with held := fun m hm i hi => (h.kept.held m hm i hi).imp_right (·.reply hd), clear := ?_ },
    h.handed, fun e he => ?_⟩
  · refine h.kept.clear.reply hd fun c k hr q h0 hk hq => hcov c k hr q h0 hk ?_
    rcases hq with ⟨m, hm, hkey⟩ | ⟨e, he, hkey⟩
    · exact hkey ▸ h.handed m hm
    · exact hkey ▸ (h.entries e he).1
  · rcases mem_append.1 he with hold | hnew
    · exact h.entries e hold
    · exact absurd (mem_singleton.1 hnew).symm (hd e)

include hinj in
theorem Good.step (h : l.Good slotOf) {a : LinkAction} (ha : l.Orderly slotOf a) : (l.step wh a).Good slotOf := by
  cases a with
  | broker a => exact ⟨h.kept.settle (subset_append_left _ _), h.handed, h.entries⟩
  | send e =>
    refine ⟨h.kept.send ha.1, fun m hm => mem_append_left _ (h.handed m hm), fun e' he' => ?_⟩
    rcases mem_append.1 he' with hold | hnew
    · exact ⟨mem_append_left _ (h.entries e' hold).1, (h.entries e' hold).2⟩
    · obtain rfl : e' = e := by simpa using hnew
      exact ⟨mem_append_right _ (mem_singleton.2 rfl), ha.2⟩
  | ackStateRep c known generation lowSeq =>
    apply h.reply (by simp)
    intro c' k hr q h0 hk hq
    cases known with
    | true =>
      obtain ⟨rfl, rfl⟩ : c = c' ∧ l.cursor c = k := by simpa [Down.action, Action.reports] using hr
      exact ha rfl q hk hq
    | false => exact absurd hr (by simp [Down.action, Action.reports])
  | ackBatchResp c known =>
    apply h.reply (by simp)
    intro c' k hr q h0 hk hq
    cases known with
    | true =>
      obtain ⟨rfl, rfl⟩ : c = c' ∧ l.cursor c = k := by simpa [Down.action, Action.reports] using hr
      exact ha rfl q hk hq
    | false =>
      obtain ⟨-, rfl⟩ : c = c' ∧ 0 = k := by simpa [Down.action, Action.reports] using hr
      omega
  | receive room =>
    simp only [Link.step]
    split
    · exact h
    case h_2 d ds hdown => exact h.receive hinj hdown ha
  | own a =>
    simp only [Link.step]
    split
    case isFalse => exact h
    case isTrue hlocal =>
    refine ⟨h.kept.own hlocal ha, fun m hm => ?_, h.entries⟩
    have hnone : l.ledger.session.handed a = [] := by
      cases a with
      | deliver e room => exact absurd hlocal (by simp [Action.isLocal])
      | _ => rfl
    exact h.handed_of_none hnone hm
  | reconnect =>
    refine ⟨{ h.kept with held := fun m hm i hi => ?_, clear := trivial }, h.handed, fun e he => ?_⟩
    · exact (h.kept.held m hm i hi).imp_right (·.drop (nil_subset _))
    · exact absurd he not_mem_nil

include hinj in
/-- What is recorded and under way again is still live, so it is discarded. -/
theorem Good.once (h : l.Good slotOf) {a : LinkAction} (ha : l.Orderly slotOf a) : l.Once a := by
  cases a with
  | receive room =>
    rintro e ds r i hdown hr hi ⟨m, hm, hslot, hseq⟩
    have hmsg := h.kept.messages m (h.kept.acked m hm)
    have hroute : slotOf e.consumerId = some i := by
      rw [← ha e ds r hdown hr, ← h.kept.routes.route _ r hr]
      exact hi
    have hkey : m.key = e.key := Prod.ext (hinj _ _ i (hmsg.1.symm.trans hslot) hroute) hseq
    have hlive : e.seq ∈ (l.ledger.session.slots i).keys := by
      rcases h.kept.held m hm i hslot with hlive | hgone
      · exact hseq ▸ hlive
      · exact absurd hkey.symm (hgone.2 e (by rw [hdown]; exact mem_cons_self))
    have hprobe : l.ledger.session.probe r.dedup e.seq = true := by
      rw [hi]
      exact (h.kept.bounded i).seen hlive
    unfold deliver
    simp only [hr, hprobe, if_true]
    rfl
  | _ => trivial

theorem Blank.good (hl : l.Blank) : l.Good slotOf := by
  have hkeys : ∀ i q, q ∉ (l.ledger.session.slots i).keys := by
    intro i q hq
    rw [Slot.keys, (hl.slots i).1] at hq
    exact absurd hq not_mem_nil
  have hnone : ∀ {α : Type} {xs : List α}, xs = [] → ∀ {x}, x ∉ xs := by
    rintro α xs rfl x
    exact not_mem_nil
  refine ⟨⟨⟨?_, ?_⟩, fun m hm => absurd hm (hnone hl.handed), fun m hm => absurd hm (hnone hl.acked), fun i => ?_,
    fun i => (hl.slots i).2, fun m hm => absurd hm (hnone hl.acked), ?_⟩,
    fun m hm => absurd hm (hnone hl.handed), fun e he => absurd he (hnone hl.down)⟩
  · rw [hl.routes]
    rintro sub r ⟨⟩
  · rw [hl.routes]
    rintro c con ⟨⟩
  · exact ⟨fun q hq => absurd hq (hkeys i q), fun q hq => absurd hq (hkeys i q), fun q hq => absurd hq (hkeys i q),
      fun q hq => absurd hq (hkeys i q)⟩
  · rw [hl.down]
    trivial

/-- **A recorded seq is never handed to a handler again**, along every run in which each
reported cursor covers only what its consumer acked. -/
theorem recorded_discarded (hinj : ∀ c c' i, slotOf c = some i → slotOf c' = some i → c = c') (hl : l.Blank)
    (as : List LinkAction) (hrun : Run.Guarded (step wh) (Orderly slotOf) l as) :
    Run.Guarded (step wh) Once l as := by
  exact Run.guarded_of_invariant (fun _ _ hg ha => hg.step hinj ha) (fun _ _ hg ha => hg.once hinj ha) as l
    hl.good hrun

/-! ## Acks that overtake each other -/

namespace Overtaken

/-- Stream 1 with consumer 1, subscribed on connection 7 under the name 3. -/
def setup : List CommandAction :=
  [.start (.createStream ⟨1, [97]⟩ 0 0), .work true none, .work true none,
    .start (.createConsumer ⟨1, 5, 1, true, .explicit, 10, 0, 0, []⟩ []), .work true none,
    .start (.subscribe ⟨⟨1, [97]⟩, ⟨1, 5, 1, true, .explicit, 10, 0, 0, []⟩, ⟨1, 3, 1, 1, []⟩, 7, 0, 0, true⟩),
    .work true none, .work true none, .work true none, .work true none, .work true none]

def start : Link where
  ledger := { session := { slots := fun _ => { kind := .memory, cap := 1000000 } } }

theorem start_blank : start.Blank where
  slots _ := ⟨rfl, rfl⟩
  routes := rfl
  down := rfl
  handed := rfl
  acked := rfl

def opens : List LinkAction := setup.map .broker ++ [.own (.register ⟨1, 1, false, some 0, 3, []⟩)]

def entry (seq : ℕ) : Entry := ⟨1, seq, 3, [97], [], [120]⟩

def copy (seq : ℕ) : Message := ⟨seq, 1, 1, 3, [97], [], [120], some 0⟩

def route : Route := ⟨1, 1, false, 0, some 0, [⟨3, .all⟩]⟩

/-- The broker takes an ack; the drain's report of the deliveries comes first. -/
def acking (delivered : List DeliveredEntry) (seq : ℕ) : List LinkAction :=
  [.broker (.start (.ack ⟨1, 7, [⟨1, seq, 3⟩]⟩)), .broker (.work true (some (.delivered 1 1 5 delivered))),
    .broker (.work true none), .broker (.work true none), .broker (.work true none), .broker (.work true none),
    .broker (.work true none), .broker (.work true none)]

/-- Seq 1 is acked, the ack deferred; the broker sends it again, takes the ack and reports. -/
def inOrder : List LinkAction :=
  opens ++ [.send (entry 1), .receive true, .own (.ack (copy 1) 10 false), .send (entry 1), .receive true] ++
    acking [⟨1, 0⟩] 1 ++ [.ackStateRep 1 true 0 1, .receive true]

/-- Seqs 1 and 2 are acked, the ack of 1 deferred. The broker takes the ack of 2 and reports 2
as the cursor. -/
def overtaking : List LinkAction :=
  opens ++ [.send (entry 1), .send (entry 2), .receive true, .receive true,
      .own (.ack (copy 2) 10 true), .own (.ack (copy 1) 11 false)] ++
    acking [⟨1, 0⟩, ⟨2, 0⟩] 2 ++ [.ackStateRep 1 true 0 1, .receive true]

/-- The connection is lost and the broker sends seq 1 again. -/
def resend : List LinkAction := [.reconnect, .send (entry 1), .receive true]

/-- Consumer 1 has slot 0. -/
def oneSlot (c : ConsumerId) : Option SlotId := if c = 1 then some 0 else none

theorem oneSlot_inj (c c' : ConsumerId) (i : SlotId) (h : oneSlot c = some i) (h' : oneSlot c' = some i) : c = c' := by
  have hone : ∀ {c}, oneSlot c = some i → c = 1 := by
    intro c hc
    unfold oneSlot at hc
    split at hc
    case isTrue h1 => exact h1
    case isFalse => cases hc
  rw [hone h, hone h']

theorem inOrder_once : Run.Guarded (step fun _ => 0) (Orderly oneSlot) start inOrder ∧
    Run.Guarded (step fun _ => 0) Once start inOrder := by
  have hroute : ∀ {r : Route}, some route = some r → r.consumerId = 1 := by
    rintro r ⟨⟩
    rfl
  have h : Run.Guarded (step fun _ => 0) (Orderly oneSlot) start inOrder := by
    refine ⟨trivial, trivial, trivial, trivial, trivial, trivial, trivial, trivial, trivial, trivial, trivial, rfl,
      ⟨not_mem_nil, by decide⟩, ?_, ⟨by decide, ?_⟩, ⟨not_mem_nil, by decide⟩, ?_,
      trivial, trivial, trivial, trivial, trivial, trivial, trivial, trivial, ?_, ?_, trivial⟩
    · rintro e ds r ⟨⟩ hr
      exact hroute hr
    · rintro i ⟨⟩
      decide
    · rintro e ds r ⟨⟩ hr
      exact hroute hr
    · rintro - q - hq
      obtain rfl : q = 1 := by
        have hsent : (1, q) ∈ [((1 : ConsumerId), 1), (1, 1)] := hq
        simpa using hsent
      exact mem_singleton.2 rfl
    · rintro e ds r ⟨⟩
  exact ⟨h, recorded_discarded oneSlot_inj start_blank inOrder h⟩

/-- **The client forgets a seq that the broker still owes.** Seq 1 is pending when the broker
reports cursor 2; the lost connection releases it, and its handler gets it a second time. -/
theorem owed_seq_handed_twice :
    let l := overtaking.foldl (step fun _ => 0) start
    copy 1 ∈ l.ledger.acked ∧ l.cursor 1 = 2 ∧ l.task.worker.stillPending 1 1 = true ∧
      (l.task.worker.engine.markConnectionDead 7).2.pendingSeqsReleased = [1] ∧ (1, 1) ∉ l.settled ∧
      (l.ledger.session.slots 0).set = [] ∧ (l.ledger.session.ackrel.lookup 1).map (·.pending) = some ∅ ∧
      l.ledger.session.deliver (entry 1) = .handed [copy 1] ∧
      ¬ Run.Guarded (step fun _ => 0) Once start (overtaking ++ resend) := by
  refine ⟨by decide, rfl, rfl, rfl, ?_, rfl, by decide, by decide, ?_⟩
  · have hsettled : (overtaking.foldl (step fun _ => 0) start).settled = [(1, 2)] := rfl
    decide
  · rw [Run.guarded_append]
    rintro ⟨-, -, -, honce, -⟩
    have hnone := honce (entry 1) [] route 0 rfl (by decide) rfl ⟨copy 1, by decide, rfl, rfl⟩
    exact absurd hnone (by decide)

end Overtaken

end Link

end Client

end Arbitro
