import Arbitro.Proof.Log

/-!
# One turn of the drain loop

What a cycle walks, what its log says of the frames and the cursor, and which
frames were accepted. Nothing is assumed of the caches.

* `cycle_log`: the deliveries, frames and skips of a cycle, from its log.
* `cycle_cursor`: the cursor stops before the lowest skip, or at the end of the window.
* `sent_of_passed`: a frame entry the cursor passes was accepted.
-/

namespace Arbitro

open List

variable (snap : DrainSnapshot)

/-! ## Frames and their outcomes -/

/-- A frame that carries the entry to the consumer was accepted by its writer. -/
def Sent (flushed : Flushed) (conn : ConnectionId) (stream : StreamId) (c : ConsumerId) (seq : ℕ) : Prop :=
  ∃ f ∈ flushed, f.2 = .ok ∧ f.1.connectionId = conn ∧ f.1.streamId = stream ∧
    ∃ x ∈ f.1.entries, x.consumerId = c ∧ x.seq = seq

theorem flushFrame_cases {ws : WriterState} {b : Bucket} :
    flushFrame snap ws b = .ok ∨ (flushFrame snap ws b).refused = some b.firstSeq := by
  unfold flushFrame
  split
  · exact .inr rfl
  split
  · exact .inr rfl
  · split
    · exact .inl rfl
    · exact .inr rfl

theorem mem_flushAll {writers : ℕ → WriterState} {frames : List Bucket} {b : Bucket}
    (hb : b ∈ frames) : ∃ o, (b, o) ∈ flushAll snap writers frames ∧ (o = .ok ∨ o.refused = some b.firstSeq) := by
  obtain ⟨i, hi, rfl⟩ := getElem_of_mem hb
  refine ⟨_, mem_map.2 ⟨(frames[i], i), ?_, rfl⟩, flushFrame_cases snap⟩
  exact mem_zipIdx_iff_getElem?.2 (getElem?_eq_getElem hi)

/-! ## The window -/

/-- Does the cycle walk? -/
def Cycle.feeds (c : Cycle) : Bool := c.anyDemand && decide (c.cursor < c.store.lastSeq)

/-- The end of a cycle's window. -/
def Cycle.stop (cfg : DrainConfig) (c : Cycle) : ℕ := min (c.cursor + 1 + cfg.maxFeed) (c.store.lastSeq + 1)

/-- The entries a cycle walks. -/
def Cycle.window (cfg : DrainConfig) (c : Cycle) : List StoreEntry := c.store.range (c.cursor + 1) (c.stop cfg)

section Turn

variable {wh : WireHash} {cfg : DrainConfig} {snaps : ℕ → DrainSnapshot} {m : Memory} {c : Cycle}
  {r : CycleResult} {conn : ConnectionId} {stream : StreamId} {k : ConsumerId} {s : ℕ}

theorem read_of_feeds (h : c.feeds = true) :
    m.read wh cfg snaps c = .fed ⟨c.cursor + 1, c.stop cfg, c.store.lastSeq,
      (c.env wh cfg snaps).walk c.reads (if m.changed c then ∅ else m.caches) (c.window cfg)⟩ := by
  unfold Cycle.feeds at h
  simp only [Bool.and_eq_true, decide_eq_true_eq] at h
  obtain ⟨hd, hlt⟩ := h
  unfold Memory.read drainRead
  rw [if_neg (by simp [hd]), if_neg (by omega)]
  rfl

theorem read_of_idle (wh : WireHash) (cfg : DrainConfig) (snaps : ℕ → DrainSnapshot) (m : Memory)
    (h : ¬ c.feeds = true) : m.read wh cfg snaps c = .noDemand ∨ m.read wh cfg snaps c = .upToDate := by
  unfold Cycle.feeds at h
  simp only [Bool.and_eq_true, decide_eq_true_eq, not_and] at h
  unfold Memory.read drainRead
  by_cases hd : c.anyDemand = true
  · right
    have := h hd
    rw [if_neg (by simp [hd]), if_pos (by omega)]
  · left
    rw [if_pos (by simpa using hd)]

theorem next_caches_of_idle (h : ¬ c.feeds = true) : (m.next wh cfg snaps c).caches = m.caches := by
  unfold Memory.next
  rcases read_of_idle wh cfg snaps m h with h | h
  · rw [h]
  · rw [h]

theorem mem_window {e : StoreEntry} :
    e ∈ c.window cfg ↔ e ∈ c.store.entries ∧ c.cursor < e.seq ∧ e.seq < c.stop cfg := by
  unfold Cycle.window StoreView.range
  rw [mem_filter]
  simp only [Bool.and_eq_true, decide_eq_true_eq]
  rfl

theorem window_sorted : (c.window cfg).Pairwise (·.seq < ·.seq) := c.store.sorted.filter _

theorem cycle_some {r : CycleResult} (hr : m.cycle wh cfg snaps c = some r) :
    c.feeds = true ∧ r.flushed = flushAll (snaps c.snapId) c.writers r.read.walk.acc.frames ∧
      r.read = ⟨c.cursor + 1, c.stop cfg, c.store.lastSeq,
        (c.env wh cfg snaps).walk c.reads (if m.changed c then ∅ else m.caches) (c.window cfg)⟩ := by
  have hf : c.feeds = true := by
    by_contra hf
    unfold Memory.cycle at hr
    rcases read_of_idle wh cfg snaps m hf with h | h
    · rw [h] at hr; cases hr
    · rw [h] at hr; cases hr
  unfold Memory.cycle at hr
  rw [read_of_feeds hf] at hr
  cases hr
  exact ⟨hf, rfl, rfl⟩

/-! ## The log of a cycle -/

/-- The walk before its first entry. -/
def Memory.start (m : Memory) (c : Cycle) : Walk := { caches := if m.changed c then ∅ else m.caches }

/-- The copies of a cycle that walks. -/
def Memory.copies (wh : WireHash) (cfg : DrainConfig) (snaps : ℕ → DrainSnapshot) (m : Memory) (c : Cycle) :
    List Copy :=
  (c.env wh cfg snaps).copies c.reads (m.start c) (c.window cfg)

/-- The pins of a cycle that walks. -/
def Memory.pins (wh : WireHash) (cfg : DrainConfig) (snaps : ℕ → DrainSnapshot) (m : Memory) (c : Cycle) :
    List (StoreEntry × MatchEntry) :=
  (c.env wh cfg snaps).pins c.reads (m.start c) (c.window cfg)

theorem Memory.copies_passed (m : Memory) (c : Cycle) {x : Copy} (hx : x ∈ m.copies wh cfg snaps c) :
    x.entry ∈ c.window cfg ∧ (c.env wh cfg snaps).Passed (c.reads x.entry.seq) x :=
  (c.env wh cfg snaps).copies_passed c.reads _ _ x hx

theorem Memory.copies_ordered (m : Memory) (c : Cycle) : (m.copies wh cfg snaps c).Pairwise Copy.Before :=
  (c.env wh cfg snaps).copies_ordered c.reads _ _ window_sorted

variable (hr : m.cycle wh cfg snaps c = some r) {seq : ℕ}

include hr

theorem cycle_log : r.read.walk.deliveries = (m.copies wh cfg snaps c).filterMap (Copy.delivery wh) ∧
      r.read.walk.acc = (m.copies wh cfg snaps c).foldl Copy.addTo [] ∧
      r.read.walk.lowestSkipped = ((m.pins wh cfg snaps c).map (·.1.seq)).foldl trackSkipped none := by
  obtain ⟨-, -, hread⟩ := cycle_some hr
  have hlog := (c.env wh cfg snaps).walk_eq c.reads (c.window cfg) (m.start c)
  rw [hread]
  exact hlog

theorem cycle_acc : r.read.walk.acc.OK (c.cursor + 1) (c.stop cfg - 1) := by
  rw [(cycle_log hr).2.1]
  refine Accumulator.OK.foldl_addTo _ [] 0 (fun b hb => (by cases hb)) ?_ ?_ (Nat.zero_le _)
  · refine (m.copies_ordered c).imp fun {x y} hxy => ?_
    rcases hxy with hlt | ⟨heq, -⟩
    · exact hlt.le
    · rw [heq]
  · intro x hx
    obtain ⟨-, hlo, hhi⟩ := mem_window.1 (m.copies_passed c hx).1
    omega

/-! ## Skips and the cursor -/

/-- The seqs the cursor must not pass: those of the pins, and the first seqs of the
refused frames. -/
def CycleResult.skips (pins : List (StoreEntry × MatchEntry)) (r : CycleResult) : List ℕ :=
  pins.map (·.1.seq) ++ r.flushed.filterMap (·.2.refused)

omit hr in
theorem skips_all {P : ℕ → Prop} {pins : List (StoreEntry × MatchEntry)} (hpins : ∀ p ∈ pins, P p.1.seq)
    (hrefused : ∀ f ∈ r.flushed, ∀ s ∈ f.2.refused, P s) : ∀ s ∈ r.skips pins, P s := by
  refine forall_mem_append.2 ⟨forall_mem_map.2 hpins, fun s hs => ?_⟩
  obtain ⟨f, hf, href⟩ := mem_filterMap.1 hs
  exact hrefused f hf s href

theorem cycle_lowest : r.lowest = (r.skips (m.pins wh cfg snaps c)).foldl trackSkipped none := by
  unfold CycleResult.lowest skippedAfter CycleResult.skips
  rw [(cycle_log hr).2.2, foldl_append]

theorem skips_window (hs : s ∈ r.skips (m.pins wh cfg snaps c)) : c.cursor < s ∧ s < c.stop cfg := by
  obtain ⟨-, hfl, -⟩ := cycle_some hr
  have hacc := cycle_acc hr
  rcases mem_append.1 hs with hs | hs
  · obtain ⟨p, hp, rfl⟩ := mem_map.1 hs
    exact (mem_window.1 ((c.env wh cfg snaps).pins_window c.reads _ _ p hp)).2
  obtain ⟨f, hf, href⟩ := mem_filterMap.1 hs
  rw [hfl, hacc.frames] at hf
  obtain ⟨fi, hfi, rfl⟩ := mem_map.1 hf
  have hbucket : fi.1 ∈ r.read.walk.acc := mem_of_getElem? (mem_zipIdx_iff_getElem?.1 hfi)
  have hfirst : s = fi.1.firstSeq := by
    rcases flushFrame_cases (snaps c.snapId) with hok | hr
    · rw [hok] at href; cases href
    · rw [hr] at href; exact (Option.some.inj href).symm
  obtain ⟨-, hne, hlo, hseqs⟩ := hacc fi.1 hbucket
  obtain ⟨x, hx⟩ := exists_mem_of_ne_nil _ hne
  have := hseqs x hx
  omega

/-- **The cursor of a cycle**: before its lowest skip, or at the end of its window. -/
theorem cycle_cursor : (r.skips (m.pins wh cfg snaps c) = [] ∧ r.cursor = c.stop cfg - 1) ∨
      ∃ s ∈ r.skips (m.pins wh cfg snaps c), r.cursor = s - 1 ∧ ∀ s' ∈ r.skips (m.pins wh cfg snaps c), s ≤ s' := by
  obtain ⟨-, -, hread⟩ := cycle_some hr
  have hlow := cycle_lowest hr
  unfold CycleResult.cursor newCursor
  cases hskips : r.skips (m.pins wh cfg snaps c) with
  | nil =>
    left
    rw [hlow, hskips, hread]
    exact ⟨rfl, rfl⟩
  | cons s₀ rest =>
    right
    obtain ⟨s, hs, -⟩ := foldl_trackSkipped_le (s₀ :: rest) none s₀ (.inr mem_cons_self)
    rw [hlow, hskips, hs]
    have hmem : s ∈ s₀ :: rest := (mem_of_foldl_trackSkipped _ _ s hs).resolve_left (by simp)
    refine ⟨s, hmem, rfl, fun s' hs' => ?_⟩
    obtain ⟨t, ht, hle⟩ := foldl_trackSkipped_le (s₀ :: rest) none s' (.inr hs')
    rw [hs] at ht
    cases ht
    exact hle

theorem cursor_lt_of_skip (hs : s ∈ r.skips (m.pins wh cfg snaps c)) : r.cursor < s := by
  rcases cycle_cursor hr with ⟨hnil, -⟩ | ⟨s₀, hs₀, hcur, hall⟩
  · rw [hnil] at hs; cases hs
  · have hle := hall s hs
    have hpos₀ := (skips_window hr hs₀).1
    omega

/-- **The cursor does not move back and stays inside the window.** -/
theorem cycle_bounds : c.cursor ≤ r.cursor ∧ r.cursor < c.stop cfg := by
  obtain ⟨hf, -, -⟩ := cycle_some hr
  have hlt : c.cursor < c.store.lastSeq := by
    unfold Cycle.feeds at hf
    simp only [Bool.and_eq_true, decide_eq_true_eq] at hf
    exact hf.2
  have hdef : c.stop cfg = min (c.cursor + 1 + cfg.maxFeed) (c.store.lastSeq + 1) := rfl
  rcases cycle_cursor hr with ⟨-, hcur⟩ | ⟨s, hs, hcur, -⟩
  · omega
  · have := skips_window hr hs
    omega

theorem frame_of_carries (hcar : r.read.walk.acc.Carries conn stream k seq) :
    ∃ f ∈ r.flushed, f.1.connectionId = conn ∧ f.1.streamId = stream ∧
      (∃ x ∈ f.1.entries, x.consumerId = k ∧ x.seq = seq) ∧
      (f.2 = .ok ∨ ∃ s ∈ r.skips (m.pins wh cfg snaps c), s ≤ seq) := by
  obtain ⟨-, hfl, -⟩ := cycle_some hr
  have hacc := cycle_acc hr
  obtain ⟨b, hb, hconn, hstream, x, hx, hxc, hxs⟩ := hcar
  obtain ⟨-, -, -, hseqs⟩ := hacc b hb
  rw [← hacc.frames] at hb
  obtain ⟨o, ho, hout⟩ := mem_flushAll (snaps c.snapId) hb
  rw [← hfl] at ho
  refine ⟨(b, o), ho, hconn, hstream, ⟨x, hx, hxc, hxs⟩, hout.imp_right fun href => ?_⟩
  -- a refused frame is a skip at its first seq
  refine ⟨b.firstSeq, mem_append_right _ (mem_filterMap.2 ⟨(b, o), ho, href⟩), ?_⟩
  rw [← hxs]
  exact (hseqs x hx).1

/-- **What the cursor passes was accepted.** -/
theorem sent_of_passed (hcar : r.read.walk.acc.Carries conn stream k seq) (hpass : seq ≤ r.cursor) :
    Sent r.flushed conn stream k seq := by
  obtain ⟨f, hf, hconn, hstream, hx, hok | ⟨s, hs, hle⟩⟩ := frame_of_carries hr hcar
  · exact ⟨f, hf, hok, hconn, hstream, hx⟩
  · have := cursor_lt_of_skip hr hs
    omega

end Turn

end Arbitro
