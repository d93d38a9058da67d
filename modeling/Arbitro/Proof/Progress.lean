import Arbitro.Proof.Cycle

/-!
# Progress of one consumer

All consumers of a shard share one cursor, and a cycle looks at `max_feed` seqs
from it. Whoever makes a cycle skip an entry holds the cursor before that entry;
what lies `max_feed` or more above it is out of reach for everybody.

* `Willing`: the consumer takes whatever it is offered, and is owed the entry until
  it is sent.
* `InReach`: from some cycle on, nobody who is paused or at a limit, no refused frame and
  no rewind is `max_feed` or more below the entry.
* `eventually_sent`: under both the entry is sent.
-/

namespace Arbitro

section Progress

variable (wh : WireHash) (cfg : DrainConfig) (snaps : ℕ → DrainSnapshot) (cs : ℕ → Cycle)

/-- The loop before cycle `n` of an infinite run. -/
def historyAt : ℕ → History
  | 0 => {}
  | n + 1 => (historyAt n).next wh cfg snaps (cs n)

/-- The outcome of cycle `n`, if it walks. -/
def resultAt (n : ℕ) : Option CycleResult := (historyAt wh cfg snaps cs n).memory.cycle wh cfg snaps (cs n)

/-- Where cycle `n` leaves the cursor. -/
def cursorAfter (n : ℕ) : ℕ := ((resultAt wh cfg snaps cs n).map (·.cursor)).getD (cs n).cursor

/-- The recipients that cycle `n` passes over as paused or at a limit, with the entries
they are owed. -/
def pinsAt (n : ℕ) : List (StoreEntry × MatchEntry) := (historyAt wh cfg snaps cs n).memory.pins wh cfg snaps (cs n)

/-- Cycle `n` sends the entry to the consumer, or to another member of its queue. -/
def SentAt (k : ConsumerId) (e : StoreEntry) (n : ℕ) : Prop :=
  ∃ r me b, resultAt wh cfg snaps cs n = some r ∧ me.consumerId = k ∧
    ((cs n).env wh cfg snaps).Owed ((cs n).reads e.seq) e me b ∧ (cs n).SentFor wh cfg snaps r e me b

/-- From cycle `n₀` on the consumer is never paused and always has credit, its writer
accepts every frame, and it is owed the entry until it is sent. -/
structure Willing (k : ConsumerId) (e : StoreEntry) (n₀ : ℕ) : Prop where
  demand : ∀ n, n₀ ≤ n → (cs n).anyDemand = true
  stored : ∀ n, n₀ ≤ n → e ∈ (cs n).store.entries
  owed : ∀ n, n₀ ≤ n → (∀ i, n₀ ≤ i → i < n → ¬ SentAt wh cfg snaps cs k e i) →
    ∃ me b, me.consumerId = k ∧ ((cs n).env wh cfg snaps).Owed ((cs n).reads e.seq) e me b
  credit : ∀ n, n₀ ≤ n → ∀ p ∈ pinsAt wh cfg snaps cs n, p.2.consumerId ≠ k
  accepts : ∀ n, n₀ ≤ n → ∀ r, resultAt wh cfg snaps cs n = some r → ∀ b ∈ (snaps (cs n).snapId).bindings,
    b.consumerId = k → ∀ f ∈ r.flushed, f.1.connectionId = b.connectionId → f.2 = .ok

/-- From some cycle `N` on nobody reads as paused or at a limit `max_feed` or more below
the entry, no frame is refused and no rewind comes there, and no frame that takes the entry
to a member of its queue is refused. -/
def StaysNear (k : ConsumerId) (e : StoreEntry) (n₀ : ℕ) : Prop :=
  ∃ N, n₀ ≤ N ∧ ∀ n, N ≤ n →
    (∀ p ∈ pinsAt wh cfg snaps cs n, e.seq < p.1.seq + cfg.maxFeed) ∧
    (∀ r, resultAt wh cfg snaps cs n = some r → ∀ f ∈ r.flushed, ∀ s ∈ f.2.refused, e.seq < s + cfg.maxFeed) ∧
    ((cs (n + 1)).cursor < cursorAfter wh cfg snaps cs n → e.seq ≤ (cs (n + 1)).cursor + cfg.maxFeed) ∧
    ∀ r, resultAt wh cfg snaps cs n = some r → ∀ me b mt me',
      me.consumerId = k → ((cs n).env wh cfg snaps).Owed ((cs n).reads e.seq) e me b → me.queueId ≠ 0 →
      (snaps (cs n).snapId).matchTable e.streamId = some mt → me' ∈ ((cs n).env wh cfg snaps).matching mt e →
      me'.queueId = me.queueId → ∀ f ∈ r.flushed, f.1.connectionId = me'.connectionId → f.1.streamId = e.streamId →
      (∃ x ∈ f.1.entries, x.consumerId = me'.consumerId ∧ x.seq = e.seq) → f.2 = .ok

/-- The cycles are coherent, the cursor starts before the entry and moves between
cycles only back; and what holds it up stays near. -/
structure InReach (k : ConsumerId) (e : StoreEntry) (n₀ : ℕ) : Prop where
  coherent : ∀ n, (historyAt wh cfg snaps cs n).Coherent wh cfg (cs n)
  ahead : (cs n₀).cursor < e.seq
  back : ∀ n, n₀ ≤ n → (cs (n + 1)).cursor ≤ cursorAfter wh cfg snaps cs n
  near : StaysNear wh cfg snaps cs k e n₀

variable {wh cfg snaps cs} {k : ConsumerId} {e : StoreEntry} {n₀ n : ℕ}

theorem historyAt_ok (hc : ∀ n, (historyAt wh cfg snaps cs n).Coherent wh cfg (cs n)) :
    ∀ n, (historyAt wh cfg snaps cs n).OK wh snaps := by
  intro n
  induction n with
  | zero => exact ⟨fun id hid => (by cases hid), fun _ => ⟨rfl, rfl⟩⟩
  | succ n ih => exact ih.next (hc n)

theorem Willing.walks (h : Willing wh cfg snaps cs k e n₀) (hn : n₀ ≤ n) (hcur : (cs n).cursor < e.seq) :
    (cs n).feeds = true ∧ e.seq ≤ (cs n).store.lastSeq ∧ ∃ r, resultAt wh cfg snaps cs n = some r := by
  have hlast := ((cs n).store.bounded e (h.stored n hn)).2
  have hf : (cs n).feeds = true := by
    unfold Cycle.feeds
    rw [h.demand n hn, Bool.true_and, decide_eq_true_eq]
    omega
  refine ⟨hf, hlast, ?_⟩
  unfold resultAt Memory.cycle
  rw [read_of_feeds hf]
  exact ⟨_, rfl⟩

theorem sentAt_of_window (hsnap : ∀ i, (snaps i).Published) (h : Willing wh cfg snaps cs k e n₀)
    (hc : ∀ n, (historyAt wh cfg snaps cs n).Coherent wh cfg (cs n)) (hn : n₀ ≤ n) {r : CycleResult}
    (hr : resultAt wh cfg snaps cs n = some r) {me : MatchEntry} {b : ActiveBinding} (hk : me.consumerId = k)
    (ho : ((cs n).env wh cfg snaps).Owed ((cs n).reads e.seq) e me b) (hwin : e ∈ (cs n).window cfg)
    (hqueue : ∀ mt me', me.queueId ≠ 0 → (snaps (cs n).snapId).matchTable e.streamId = some mt →
      me' ∈ ((cs n).env wh cfg snaps).matching mt e → me'.queueId = me.queueId → ∀ f ∈ r.flushed,
      f.1.connectionId = me'.connectionId → f.1.streamId = e.streamId →
      (∃ x ∈ f.1.entries, x.consumerId = me'.consumerId ∧ x.seq = e.seq) → f.2 = .ok) :
    SentAt wh cfg snaps cs k e n := by
  have hcc : CoherentCycle wh cfg snaps (historyAt wh cfg snaps cs n) (cs n) r :=
    ⟨fun i => (hsnap i).ok, historyAt_ok hc n, hc n, hr⟩
  refine ⟨r, me, b, hr, hk, ho, ?_⟩
  rcases hcc.covered hwin ho with hp | hcar | ⟨hq, mt, me', hmt, hme', hqq, hcar⟩
  · exact absurd hk (h.credit n hn _ hp)
  · left
    obtain ⟨f, hf, hconn, hstream, hx, -⟩ := frame_of_carries hr hcar
    obtain ⟨idx, hidx, hb⟩ := ho.owed.bound
    have hbk : b.consumerId = k := by
      obtain ⟨mt, hmt, hme⟩ := ho.matching
      have := ((hsnap (cs n).snapId).ok.stamped _ mt me idx b hmt (CycleEnv.has_of_matching _ hme) hidx hb).2.1
      rw [this, hk]
    exact ⟨f, hf, h.accepts n hn r hr b (List.mem_of_getElem? hb) hbk f hf hconn, hconn, hstream, hx⟩
  · right
    obtain ⟨f, hf, hconn, hstream, hx, -⟩ := frame_of_carries hr hcar
    exact ⟨hq, mt, me', hmt, hme', hqq, f, hf, hqueue mt me' hq hmt hme' hqq f hf hconn hstream hx, hconn, hstream, hx⟩

/-- **A willing consumer gets its entry**, if what holds the cursor up stays near it. -/
theorem eventually_sent (hsnap : ∀ i, (snaps i).Published) (h : Willing wh cfg snaps cs k e n₀)
    (hreach : InReach wh cfg snaps cs k e n₀) : ∃ n, n₀ ≤ n ∧ SentAt wh cfg snaps cs k e n := by
  by_contra hnone
  have hnever : ∀ n, n₀ ≤ n → ¬ SentAt wh cfg snaps cs k e n := fun n hn hs => hnone ⟨n, hn, hs⟩
  have howed := fun n (hn : n₀ ≤ n) => h.owed n hn fun i hi _ => hnever i hi
  -- the cursor never passes the entry: a coherent cycle passes only what it sent
  have hafter : ∀ n, n₀ ≤ n → (cs n).cursor < e.seq → cursorAfter wh cfg snaps cs n < e.seq := by
    intro n hn hcur
    obtain ⟨-, -, r, hr⟩ := h.walks hn hcur
    obtain ⟨me, b, hk, ho⟩ := howed n hn
    have hcc : CoherentCycle wh cfg snaps (historyAt wh cfg snaps cs n) (cs n) r :=
      ⟨fun i => (hsnap i).ok, historyAt_ok hreach.coherent n, hreach.coherent n, hr⟩
    unfold cursorAfter
    rw [hr]
    show r.cursor < e.seq
    by_contra hpass
    exact hnever n hn ⟨r, me, b, hr, hk, ho, hcc.passesOnlySent e (h.stored n hn) hcur (by omega) me b ho⟩
  have hbelow : ∀ n, n₀ ≤ n → (cs n).cursor < e.seq := by
    intro n hn
    induction n, hn using Nat.le_induction with
    | base => exact hreach.ahead
    | succ n hn ih => exact (hreach.back n hn).trans_lt (hafter n hn ih)
  obtain ⟨N, hN, hnear⟩ := hreach.near
  -- nor does the window ever reach it
  have hshort : ∀ n, N ≤ n → (cs n).cursor + cfg.maxFeed < e.seq := by
    intro n hn
    have hn₀ : n₀ ≤ n := hN.trans hn
    by_contra hreached
    obtain ⟨-, hlast, r, hr⟩ := h.walks hn₀ (hbelow n hn₀)
    obtain ⟨me, b, hk, ho⟩ := howed n hn₀
    have hwin : e ∈ (cs n).window cfg := by
      refine mem_window.2 ⟨h.stored n hn₀, hbelow n hn₀, ?_⟩
      show e.seq < min ((cs n).cursor + 1 + cfg.maxFeed) ((cs n).store.lastSeq + 1)
      omega
    exact hnever n hn₀ (sentAt_of_window hsnap h hreach.coherent hn₀ hr hk ho hwin
      fun mt me' hq => (hnear n hn).2.2.2 r hr me b mt me' hk ho hq)
  -- so a cycle is neither made to skip nor rewound, and the cursor goes up by `max_feed`
  have hstep : ∀ n, N ≤ n → (cs n).cursor < (cs (n + 1)).cursor := by
    intro n hn
    have hn₀ : n₀ ≤ n := hN.trans hn
    obtain ⟨-, hlast, r, hr⟩ := h.walks hn₀ (hbelow n hn₀)
    obtain ⟨hpins, hrefused, hrewind, -⟩ := hnear n hn
    have hcur : cursorAfter wh cfg snaps cs n = r.cursor := by unfold cursorAfter; rw [hr]; rfl
    have hback := hreach.back n hn₀
    have hnext := hshort (n + 1) (by omega)
    have hhere := hshort n hn
    have hfeed := cfg.feeds
    have hstay : (cs (n + 1)).cursor = r.cursor := by
      by_contra hne
      have := hrewind (by omega)
      omega
    rcases cycle_cursor hr with ⟨-, hend⟩ | ⟨s, hs, hend, -⟩
    · have hstop : (cs n).stop cfg = min ((cs n).cursor + 1 + cfg.maxFeed) ((cs n).store.lastSeq + 1) := rfl
      omega
    · have hnear : e.seq < s + cfg.maxFeed := skips_all hpins (hrefused r hr) s hs
      have := (skips_window hr hs).1
      omega
  -- it cannot do so for ever below the entry
  have hgrow : ∀ j, j ≤ (cs (N + j)).cursor := by
    intro j
    induction j with
    | zero => exact Nat.zero_le _
    | succ j ih =>
      have := hstep (N + j) (Nat.le_add_right N j)
      rw [← Nat.add_assoc]
      omega
  have htop := hgrow e.seq
  have hlow := hbelow (N + e.seq) (by omega)
  omega

/-! ## At the end of the store -/

theorem not_feeds_of_done {c : Cycle} (h : c.store.lastSeq ≤ c.cursor) : ¬ c.feeds = true := by
  unfold Cycle.feeds
  simp only [Bool.and_eq_true, decide_eq_true_eq, not_and, not_lt]
  exact fun _ => h

theorem cycle_of_idle {m : Memory} {c : Cycle} (h : ¬ c.feeds = true) : m.cycle wh cfg snaps c = none := by
  unfold Memory.cycle
  rcases read_of_idle wh cfg snaps m h with hr | hr <;> rw [hr]

theorem resultAt_of_done (h : (cs n).store.lastSeq ≤ (cs n).cursor) : resultAt wh cfg snaps cs n = none :=
  cycle_of_idle (not_feeds_of_done h)

theorem pinsAt_of_done (h : (cs n).store.lastSeq ≤ (cs n).cursor) : pinsAt wh cfg snaps cs n = [] := by
  have hwindow : (cs n).window cfg = [] := by
    apply List.eq_nil_iff_forall_not_mem.2
    intro e he
    obtain ⟨hmem, hcur, -⟩ := mem_window.1 he
    have hlast := ((cs n).store.bounded e hmem).2
    omega
  unfold pinsAt Memory.pins
  rw [hwindow]
  rfl

/-- Where every cycle from `n₀` on is at the end of the store with its cursor in place,
nothing is out of reach. -/
theorem staysNear_of_done (h : ∀ n, n₀ ≤ n → (cs n).store.lastSeq ≤ (cs n).cursor ∧ (cs n).cursor ≤ (cs (n + 1)).cursor) :
    StaysNear wh cfg snaps cs k e n₀ := by
  refine ⟨n₀, le_refl _, fun n hn => ?_⟩
  obtain ⟨hdone, hcur⟩ := h n hn
  unfold cursorAfter
  rw [resultAt_of_done hdone, pinsAt_of_done hdone]
  exact ⟨nofun, nofun, fun hlt => absurd hlt hcur.not_gt, nofun⟩

variable (wh cfg snaps cs k e) in
/-- The entry is sent in the first cycle, with every frame taken, and all later cycles are at the end of
the store. -/
structure SentFirst : Prop where
  demand : ∀ n, (cs n).anyDemand = true
  stored : ∀ n, e ∈ (cs n).store.entries
  snapId : ∀ n, (cs (n + 1)).snapId = (cs n).snapId
  coherent : ({} : History).Coherent wh cfg (cs 0)
  sent : SentAt wh cfg snaps cs k e 0
  pins : pinsAt wh cfg snaps cs 0 = []
  accepted : ∀ r, resultAt wh cfg snaps cs 0 = some r → ∀ f ∈ r.flushed, f.2 = .ok
  done : ∀ n, (cs (n + 1)).store.lastSeq ≤ (cs (n + 1)).cursor ∧ (cs (n + 1)).cursor ≤ (cs (n + 2)).cursor

section SentFirst

variable (h : SentFirst wh cfg snaps cs k e)

include h

theorem SentFirst.willing : Willing wh cfg snaps cs k e 0 where
  demand n _ := h.demand n
  stored n _ := h.stored n
  owed n _ hnever := by
    cases n with
    | zero =>
      obtain ⟨r, me, b, -, hk, howed, -⟩ := h.sent
      exact ⟨me, b, hk, howed⟩
    | succ n => exact absurd h.sent (hnever 0 (le_refl _) n.succ_pos)
  credit n _ p hp := by
    cases n with
    | zero => rw [h.pins] at hp; cases hp
    | succ n => rw [pinsAt_of_done (h.done n).1] at hp; cases hp
  accepts n _ r hr b _ _ f hf _ := by
    cases n with
    | zero => exact h.accepted r hr f hf
    | succ n => rw [resultAt_of_done (h.done n).1] at hr; cases hr

theorem SentFirst.near : StaysNear wh cfg snaps cs k e 0 := by
  obtain ⟨N, -, hall⟩ : StaysNear wh cfg snaps cs k e 1 := by
    apply staysNear_of_done
    intro n hn
    obtain ⟨n, rfl⟩ := Nat.exists_eq_succ_of_ne_zero (show n ≠ 0 by omega)
    exact h.done n
  exact ⟨N, Nat.zero_le _, hall⟩

theorem SentFirst.all_coherent (n : ℕ) : (historyAt wh cfg snaps cs n).Coherent wh cfg (cs n) := by
  cases n with
  | zero => exact h.coherent
  | succ n =>
    refine ⟨fun hch => ?_, fun hf => absurd hf (not_feeds_of_done (h.done n).1)⟩
    have hseen : (some (cs n).snapId != some (cs (n + 1)).snapId) = true := hch
    rw [h.snapId] at hseen
    simp at hseen

end SentFirst

end Progress

/-! ## A paused neighbour -/

namespace Starved

variable (n : ℕ)

/-- On stream 1 consumer 1 (connection 7) listens to `a.*`, consumer 2 (connection 8) to
`b.*`. -/
def table : MatchTable :=
  (MatchTable.new.addPattern [97, 46, 42] ⟨1, 0, 1, 7, none⟩).addPattern [98, 46, 42] ⟨2, 0, 2, 8, none⟩

def bindings : List ActiveBinding :=
  [⟨1, 7, 1, 1, 0, 1, 1, 0, 10, false, 0, 0⟩, ⟨2, 8, 2, 2, 0, 1, 1, 0, 10, false, 0, 0⟩]

def snaps : ℕ → DrainSnapshot := fun _ => .rebuild bindings [none, some table] ∅

/-- Entry 1 has subject `b.x`, entry 2 `a.x`. -/
def entry : ℕ → StoreEntry
  | 1 => ⟨1, 1, 0, [98, 46, 120], [], 0⟩
  | n => ⟨n, 1, 0, [97, 46, 120], [], 0⟩

def store : StoreView := ⟨[entry 1, entry 2], 2, by decide, by decide⟩

/-- One seq per cycle. -/
def cfg : DrainConfig := ⟨1, 0, false, by decide⟩

def wh : WireHash := fun _ => 0

def cycle (paused : Bool) (cursor : ℕ) : Cycle :=
  ⟨0, fun _ => none, cursor, true, store, 0,
    fun _ => ⟨true, fun _ => ⟨fun c => paused && c == 2, fun _ => 0, fun _ => false⟩⟩, fun _ => ⟨false, true⟩⟩

theorem published (i : ℕ) : (snaps i).Published :=
  .one _ ((MatchTable.unstamped_new.addPattern _ rfl).addPattern _ rfl)

theorem owed (paused : Bool) (cursor : ℕ) : ((cycle paused cursor).env wh cfg snaps).Owed
    ((cycle paused cursor).reads 2) (entry 2) ⟨1, 0, 1, 7, some 0⟩ ⟨1, 7, 1, 1, 0, 1, 1, 0, 10, false, 0, 0⟩ where
  live := rfl
  demand := rfl
  matching := ⟨_, rfl, show _ ∈ ((cycle true 0).env wh cfg snaps).matching _ (entry 2) by decide⟩
  owed := ⟨by decide, rfl, ⟨0, rfl, rfl⟩, Nat.zero_lt_two, fun _ => rfl⟩

/-- What the loop remembers once it has walked entry 1. -/
def settled : Memory := ({} : Memory).next wh cfg snaps (cycle true 0)

theorem memory_cases : (historyAt wh cfg snaps (fun _ => cycle true 0) n).memory = {} ∨
    (historyAt wh cfg snaps (fun _ => cycle true 0) n).memory = settled := by
  induction n with
  | zero => exact .inl rfl
  | succ n ih =>
    right
    show (historyAt wh cfg snaps (fun _ => cycle true 0) n).memory.next wh cfg snaps (cycle true 0) = settled
    rcases ih with ih | ih
    · rw [ih]; rfl
    · rw [ih]; rfl

/-- Every cycle stops at entry 1, for consumer 2, and sends nothing. -/
theorem stuck_at {m : Memory} (hm : m = {} ∨ m = settled) :
    (∃ r, m.cycle wh cfg snaps (cycle true 0) = some r ∧ r.flushed = [] ∧ r.cursor = 0) ∧
      (m.pins wh cfg snaps (cycle true 0)).map (·.2.consumerId) = [2] := by
  rcases hm with rfl | rfl
  · exact ⟨⟨_, rfl, rfl, rfl⟩, rfl⟩
  · exact ⟨⟨_, rfl, rfl, rfl⟩, rfl⟩

theorem stuck : ∃ r, resultAt wh cfg snaps (fun _ => cycle true 0) n = some r ∧ r.flushed = [] ∧ r.cursor = 0 :=
  (stuck_at (memory_cases n)).1

/-- **A paused neighbour starves a willing consumer.** Consumer 2 stays paused and holds
the cursor before entry 1; entry 2 is never looked at. -/
theorem paused_neighbour_starves :
    (∀ i, (snaps i).Published) ∧ (∀ n, cursorAfter wh cfg snaps (fun _ => cycle true 0) n = 0) ∧
      Willing wh cfg snaps (fun _ => cycle true 0) 1 (entry 2) 0 ∧
      ∀ n, ¬ SentAt wh cfg snaps (fun _ => cycle true 0) 1 (entry 2) n := by
  refine ⟨published, fun n => ?_, ?_, fun n => ?_⟩
  · obtain ⟨r, hr, -, hcur⟩ := stuck n
    unfold cursorAfter
    rw [hr]
    exact hcur
  · refine ⟨fun _ _ => rfl, fun _ _ => by decide, fun n _ _ => ⟨_, _, rfl, owed true 0⟩, fun n _ p hp => ?_, ?_⟩
    · have hmem := List.mem_map_of_mem (f := fun q : StoreEntry × MatchEntry => q.2.consumerId) hp
      unfold pinsAt at hmem
      rw [(stuck_at (memory_cases n)).2] at hmem
      rw [List.mem_singleton.1 hmem]
      decide
    intro n _ r hr b _ _ f hf
    obtain ⟨r', hr', hfl, -⟩ := stuck n
    rw [hr] at hr'
    cases hr'
    rw [hfl] at hf
    cases hf
  · rintro ⟨r, me, b, hr, -, -, hsent⟩
    obtain ⟨r', hr', hfl, -⟩ := stuck n
    rw [hr] at hr'
    cases hr'
    rcases hsent with ⟨f, hf, -⟩ | ⟨-, mt, me', -, -, -, f, hf, -⟩
    · rw [hfl] at hf; cases hf
    · rw [hfl] at hf; cases hf

/-- A run that starts before entry 2, with consumer 2 running. -/
def running (n : ℕ) : Cycle := cycle false (min (n + 1) 2)

theorem running_succ : running (n + 1) = cycle false 2 := by
  unfold running
  rw [show min (n + 1 + 1) 2 = 2 by omega]

theorem running_done : (running (n + 1)).store.lastSeq ≤ (running (n + 1)).cursor ∧
    (running (n + 1)).cursor ≤ (running (n + 2)).cursor := by
  rw [running_succ, running_succ]
  exact ⟨le_refl 2, le_refl 2⟩

theorem running_first : SentFirst wh cfg snaps running 1 (entry 2) where
  demand _ := rfl
  stored _ := show entry 2 ∈ store.entries by decide
  snapId _ := rfl
  coherent := by decide
  sent := ⟨_, _, _, rfl, rfl, owed false 1, .inl (by unfold Sent; decide)⟩
  pins := rfl
  accepted := by
    rintro _ ⟨⟩
    decide
  done := running_done

theorem running_inReach : InReach wh cfg snaps running 1 (entry 2) 0 := by
  refine ⟨running_first.all_coherent, by decide, fun n _ => ?_, running_first.near⟩
  unfold cursorAfter
  cases n with
  | zero => exact le_refl 2
  | succ n =>
    rw [resultAt_of_done (running_done n).1, running_succ, running_succ]
    exact le_refl 2

/-- With consumer 2 running consumer 1 gets entry 2. -/
theorem running_neighbour_served : Willing wh cfg snaps running 1 (entry 2) 0 ∧
    InReach wh cfg snaps running 1 (entry 2) 0 ∧ ∃ n, 0 ≤ n ∧ SentAt wh cfg snaps running 1 (entry 2) n :=
  ⟨running_first.willing, running_inReach, eventually_sent published running_first.willing running_inReach⟩

end Starved

end Arbitro
