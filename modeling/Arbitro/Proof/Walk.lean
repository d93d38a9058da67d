import Arbitro.Shard.Drain
import Mathlib.Data.List.Rotate

/-!
# The walk

The parts of a drain walk: the frames it builds, the checks on one recipient, and
what an entry hands to the recipient loop.

* `Accumulator.Carries`: a frame holds an entry for a consumer.
* `Context.verdict_send`, `Context.Owed.skip`: what the checks of the loop say.
* `Context.send_spec`: what sending does.
* `CycleEnv.target`: what an entry hands to the loop.
-/

namespace Arbitro

open List Bucket Option

/-! ## Frames -/

namespace Accumulator

variable {acc : Accumulator} {conn conn' : ConnectionId} {stream stream' : StreamId} {c : ConsumerId}
  {seq lo hi : ℕ} {e : WireEntry}

/-- A frame for the connection holds the entry, addressed to the consumer. -/
def Carries (acc : Accumulator) (conn : ConnectionId) (stream : StreamId) (c : ConsumerId) (seq : ℕ) : Prop :=
  ∃ b ∈ acc, b.connectionId = conn ∧ b.streamId = stream ∧ ∃ x ∈ b.entries, x.consumerId = c ∧ x.seq = seq

/-- Every frame holds something, and lies between `lo` and `hi`, its first seq being
the least. -/
def OK (acc : Accumulator) (lo hi : ℕ) : Prop :=
  ∀ b ∈ acc, b.count ≠ 0 ∧ b.entries ≠ [] ∧ lo ≤ b.firstSeq ∧ ∀ x ∈ b.entries, b.firstSeq ≤ x.seq ∧ x.seq ≤ hi

theorem OK.mono (h : acc.OK lo hi) {hi' : ℕ} (hn : hi ≤ hi') : acc.OK lo hi' := by
  intro b hb
  obtain ⟨hc, he, hlo, hx⟩ := h b hb
  exact ⟨hc, he, hlo, fun x hxb => ⟨(hx x hxb).1, (hx x hxb).2.trans hn⟩⟩

theorem mem_add {b' : Bucket} (h : b' ∈ acc.add conn stream e) :
    b' ∈ acc ∨ (∃ b ∈ acc, b.isFor conn stream ∧ b' = b.pushEntry e) ∨
      b' = (activate conn stream e.seq).pushEntry e := by
  unfold add at h
  split at h
  · obtain ⟨b, hb, rfl⟩ := mem_map.1 h
    split
    · next hfor => exact .inr (.inl ⟨b, hb, hfor, rfl⟩)
    · exact .inl hb
  · rcases mem_append.1 h with h | h
    · exact .inl h
    · exact .inr (.inr (mem_singleton.1 h))

theorem carries_add_self :
    (acc.add conn stream e).Carries conn stream e.consumerId e.seq := by
  unfold add
  split
  · next h =>
    obtain ⟨b, hb, hfor⟩ := any_eq_true.1 h
    have hkey : b.connectionId = conn ∧ b.streamId = stream := by simpa [isFor] using hfor
    refine ⟨b.pushEntry e, mem_map.2 ⟨b, hb, by rw [if_pos hfor]⟩, hkey.1, hkey.2, e, ?_, rfl, rfl⟩
    exact mem_append_right _ (mem_singleton_self e)
  · refine ⟨_, mem_append_right _ (mem_singleton_self _), rfl, rfl, e, ?_, rfl, rfl⟩
    exact mem_append_right _ (mem_singleton_self e)

theorem Carries.add (h : acc.Carries conn stream c seq) (conn' : ConnectionId) (stream' : StreamId)
    (e : WireEntry) : (acc.add conn' stream' e).Carries conn stream c seq := by
  obtain ⟨b, hb, hconn, hstream, x, hx, hxc, hxs⟩ := h
  unfold Accumulator.add
  split
  · by_cases hfor : b.isFor conn' stream'
    · exact ⟨b.pushEntry e, mem_map.2 ⟨b, hb, by rw [if_pos hfor]⟩, hconn, hstream, x,
        mem_append_left _ hx, hxc, hxs⟩
    · exact ⟨b, mem_map.2 ⟨b, hb, by rw [if_neg hfor]⟩, hconn, hstream, x, hx, hxc, hxs⟩
  · exact ⟨b, mem_append_left _ hb, hconn, hstream, x, hx, hxc, hxs⟩

theorem pushEntry_count {b : Bucket} : (b.pushEntry e).count ≠ 0 := by
  show min (b.count + 1) (2 ^ 16 - 1) ≠ 0
  omega

/-- Entries come in the order of their seqs, so the first one stays the least. -/
theorem OK.add (h : acc.OK lo hi) (hhi : hi ≤ e.seq) (hlo : lo ≤ e.seq) : (acc.add conn stream e).OK lo e.seq := by
  intro b' hb'
  rcases mem_add hb' with hb | ⟨b, hb, -, rfl⟩ | rfl
  · exact h.mono hhi b' hb
  · obtain ⟨hc, he, hlob, hx⟩ := h b hb
    have hfirst : (b.pushEntry e).firstSeq = b.firstSeq := by
      show (if min (b.count + 1) (2 ^ 16 - 1) = 1 then e.seq else b.firstSeq) = b.firstSeq
      rw [if_neg (by omega)]
    refine ⟨pushEntry_count, by simp [pushEntry], by rw [hfirst]; exact hlob, fun x hxb => ?_⟩
    rcases mem_append.1 hxb with hxb | hxb
    · have := hx x hxb
      omega
    · obtain ⟨y, hy⟩ := exists_mem_of_ne_nil _ he
      have := hx y hy
      rw [mem_singleton.1 hxb]
      omega
  · have hfirst : ((activate conn stream e.seq).pushEntry e).firstSeq = e.seq := by
      simp [pushEntry, activate]
    refine ⟨pushEntry_count, by simp [pushEntry], by rw [hfirst]; exact hlo, fun x hxb => ?_⟩
    have hxe : x = e := by simpa [pushEntry, activate] using hxb
    rw [hxe, hfirst]
    exact ⟨le_refl _, le_refl _⟩

theorem OK.frames (h : acc.OK lo hi) : acc.frames = acc :=
  filter_eq_self.2 fun b hb => by simpa using (h b hb).1

end Accumulator

/-! ## Pins -/

theorem trackSkipped_le (lowest : Option ℕ) (seq : ℕ) :
    ∃ s, trackSkipped lowest seq = some s ∧ s ≤ seq ∧ ∀ t, lowest = some t → s ≤ t := by
  cases lowest with
  | none => exact ⟨seq, rfl, le_refl _, fun t ht => by cases ht⟩
  | some t =>
    refine ⟨min t seq, rfl, min_le_right _ _, fun t' ht => ?_⟩
    cases ht
    exact min_le_left _ _

theorem foldl_trackSkipped_le (l : List ℕ) (lowest : Option ℕ) (s : ℕ) : lowest = some s ∨ s ∈ l →
    ∃ t, l.foldl trackSkipped lowest = some t ∧ t ≤ s := by
  induction l generalizing lowest s with
  | nil =>
    intro h
    rcases h with h | h
    · exact ⟨s, h, le_refl s⟩
    · cases h
  | cons x l ih =>
    intro h
    obtain ⟨u, hu, hux, hall⟩ := trackSkipped_le lowest x
    have hstep : ∀ v, u ≤ v → ∃ t, l.foldl trackSkipped (trackSkipped lowest x) = some t ∧ t ≤ v := by
      intro v huv
      obtain ⟨t, ht, htu⟩ := ih (trackSkipped lowest x) u (.inl hu)
      exact ⟨t, ht, htu.trans huv⟩
    rcases h with h | h
    · exact hstep s (hall s h)
    · rcases mem_cons.1 h with rfl | h
      · exact hstep s hux
      · exact ih _ s (.inr h)

theorem mem_of_foldl_trackSkipped (l : List ℕ) (lowest : Option ℕ) (s : ℕ) (h : l.foldl trackSkipped lowest = some s)
    : lowest = some s ∨ s ∈ l := by
  induction l generalizing lowest s with
  | nil => exact .inl h
  | cons x l ih =>
    rcases ih _ s h with h | h
    · unfold trackSkipped at h
      cases lowest with
      | none => cases h; exact .inr mem_cons_self
      | some t =>
        have hmin : min t x = s := some.inj h
        rcases min_choice t x with hc | hc
        · exact .inl (by rw [← hmin, hc])
        · exact .inr (by rw [← hmin, hc]; exact mem_cons_self)
    · exact .inr (mem_cons_of_mem _ h)

/-! ## The recipient loop -/

/-- What it means that a recipient gets the entry: it passed every check. -/
structure Context.Sends (cx : Context) (d : Dispatch) (r : Reads) (me : MatchEntry) (idx : ℕ)
    (b : ActiveBinding) (collapsed : Bool) : Prop where
  connected : me.connectionId ≠ 0
  unsuppressed : cx.slots.isSuppressed me.consumerId cx.entry.seq = false
  queue : me.queueId ≠ 0 → me.queueId ∉ d.servedQueues
  bound : me.bindingIdx = some idx
  binding : cx.bindings[idx]? = some b
  group : collapsed = true ↔ me.queueId = 0 ∧ b.groupIdx ∈ d.servedGroups
  ackMode : collapsed = true → b.fireAndForget = false
  floor : b.deliverFloor < cx.entry.seq
  writer : r.writeFailed b.connectionId = false
  unpaused : r.paused me.consumerId = false
  capacity : b.fireAndForget = false → Context.atCapacity d.walk r me.consumerId b = false
  limit : b.fireAndForget = false → cx.atSubjectLimit d.walk me.consumerId = false

/-- A recipient is owed the entry: matching and bound, connected, its writer alive,
above its deliver floor, not suppressed. -/
structure Context.Owed (cx : Context) (reads : ℕ → Reads) (me : MatchEntry) (b : ActiveBinding) : Prop where
  connected : me.connectionId ≠ 0
  unsuppressed : cx.slots.isSuppressed me.consumerId cx.entry.seq = false
  bound : ∃ idx, me.bindingIdx = some idx ∧ cx.bindings[idx]? = some b
  floor : b.deliverFloor < cx.entry.seq
  writer : ∀ i, (reads i).writeFailed b.connectionId = false

namespace Context

variable {cx : Context} {d : Dispatch} {r : Reads} {reads : ℕ → Reads} {me : MatchEntry} {idx : ℕ}
  {b : ActiveBinding} {collapsed : Bool}

theorem verdict_send (h : cx.verdict d r me = .send idx b collapsed) : cx.Sends d r me idx b collapsed := by
  unfold verdict at h
  split at h
  · cases h
  next hconn =>
  split at h
  · cases h
  next hsup =>
  split at h
  · cases h
  next hqueue =>
  split at h
  · cases h
  next i hidx =>
  split at h
  · cases h
  next b' hb =>
  simp only at h
  split at h
  · cases h
  next hcol =>
  split at h
  · cases h
  next hfloor =>
  split at h
  · cases h
  next hwriter =>
  split at h
  · cases h
  next hpaused =>
  split at h
  · cases h
  next hcap =>
  split at h
  · cases h
  next hlim =>
  cases h
  refine ⟨hconn, by simpa using hsup, fun hne hmem => hqueue ⟨hne, hmem⟩, hidx, hb, by simp, ?_, by omega,
    by simpa using hwriter, by simpa using hpaused, ?_, ?_⟩
  · intro hc
    simpa [hc] using hcol
  · intro hf
    simpa [hf] using hcap
  · intro hf
    simpa [hf] using hlim

/-- **A recipient that pins the cursor** reads as paused, or takes acks and is at its
inflight limit or at the subject's. -/
theorem verdict_pin (h : cx.verdict d r me = .pin) :
    ∃ idx b, me.bindingIdx = some idx ∧ cx.bindings[idx]? = some b ∧ (r.paused me.consumerId = true ∨
      b.fireAndForget = false ∧ (atCapacity d.walk r me.consumerId b = true ∨
        cx.atSubjectLimit d.walk me.consumerId = true)) := by
  unfold verdict at h
  -- the checks before the three that pin end in a skip
  iterate 3
    split at h
    · cases h
  split at h
  · cases h
  next idx hidx =>
  split at h
  · cases h
  next b hb =>
  refine ⟨idx, b, hidx, hb, ?_⟩
  grind

theorem Owed.skip (ho : cx.Owed reads me b) {i : ℕ} (h : cx.verdict d (reads i) me = .skip) :
    (me.queueId ≠ 0 ∧ me.queueId ∈ d.servedQueues) ∨
      (me.queueId = 0 ∧ b.groupIdx ∈ d.servedGroups ∧ b.fireAndForget = true) := by
  obtain ⟨idx, hidx, hb⟩ := ho.bound
  unfold verdict at h
  rw [if_neg ho.connected, if_neg (by rw [ho.unsuppressed]; exact Bool.false_ne_true)] at h
  split at h
  · next hq => exact .inl hq
  right
  have hfloor := ho.floor
  rw [hidx] at h
  simp only [hb, ho.writer i, if_neg (show ¬ cx.entry.seq ≤ b.deliverFloor by omega), Bool.false_eq_true,
    if_false] at h
  split at h
  · next hcol => simpa [and_assoc] using hcol
  split at h
  · cases h
  split at h
  · cases h
  · split at h
    · cases h
    · cases h

theorem Owed.sends (ho : cx.Owed reads me b) {b' : ActiveBinding} (hs : cx.Sends d r me idx b' collapsed) : b = b' := by
  obtain ⟨idx₀, hidx, hb⟩ := ho.bound
  have hidx' := hs.bound
  rw [hidx] at hidx'
  cases hidx'
  exact some.inj (hb.symm.trans hs.binding)

/-! ### One recipient -/

/-- The delivery a recipient owes an ack for. -/
def notify (cx : Context) (me : MatchEntry) (idx : ℕ) : PendingNotify :=
  ⟨me.connectionId, cx.entry.streamId, idx, cx.entry.seq, cx.subjectHash, me.consumerId, me.queueId⟩

theorem send_spec (cx : Context) (d : Dispatch) (me : MatchEntry) (idx : ℕ) (b : ActiveBinding) (collapsed : Bool) :
    let d' := cx.send d me idx b collapsed
    d'.walk.acc = (if collapsed then d.walk.acc
      else d.walk.acc.add me.connectionId cx.entry.streamId (cx.wireEntry me b)) ∧
    d'.walk.lowestSkipped = d.walk.lowestSkipped ∧ d'.walk.caches = d.walk.caches ∧
    d'.walk.deliveries = d.walk.deliveries ++ (if b.fireAndForget then [] else [cx.notify me idx]) ∧
    d'.servedGroups = (if me.queueId = 0 then d.servedGroups ++ [b.groupIdx] else d.servedGroups) ∧
    d'.servedQueues = (if me.queueId = 0 then d.servedQueues else d.servedQueues ++ [me.queueId]) := by
  unfold send notify
  by_cases hq : me.queueId = 0
  · cases collapsed <;> cases hf : b.fireAndForget <;> simp [hq, Walk.openPending]
  · cases collapsed <;> cases hf : b.fireAndForget <;> simp [hq, Walk.openPending]

end Context

/-! ## One entry -/

namespace CycleEnv

variable (env : CycleEnv)

/-- What `process_drain_entry` hands to the recipient loop, if it gets that far: the
walk with the caches looked up, and the recipients. -/
def target (reads : EntryReads) (w : Walk) (e : StoreEntry) : Option (Walk × Context × List MatchEntry) :=
  if !env.live e || !reads.hasDemand then none
  else
    (env.snap.matchTable e.streamId).map fun mt =>
      let found := env.recipients w.caches mt e
      let limit := env.subjectLimit found.1 mt e
      ({ w with caches := limit.1 }, ⟨env.snap.bindings, env.slots, e, env.wireHash32 e.subject, limit.2⟩, found.2)

/-- The recipients in the order of the loop. -/
def turns (e : StoreEntry) (recipients : List MatchEntry) : List (MatchEntry × ℕ) :=
  (recipients.rotate (e.seq % recipients.length)).zipIdx

variable {env} {reads : EntryReads} {w w' : Walk} {e : StoreEntry} {cx : Context} {recipients : List MatchEntry}

theorem mem_turns {me : MatchEntry} : me ∈ recipients ↔ ∃ i, (me, i) ∈ turns e recipients := by
  rw [← mem_rotate (n := e.seq % recipients.length)]
  constructor
  · intro h
    obtain ⟨i, hi, hx⟩ := getElem_of_mem h
    exact ⟨i, mem_zipIdx_iff_getElem?.2 (by rw [getElem?_eq_getElem hi, hx])⟩
  · rintro ⟨i, hi⟩
    exact mem_of_getElem? (mem_zipIdx_iff_getElem?.1 hi)

/-- A target leaves the walk alone but for its caches, and is about the entry. -/
theorem target_spec (h : env.target reads w e = some (w', cx, recipients)) :
    (w' = { w with caches := w'.caches } ∧ env.live e = true ∧ reads.hasDemand = true) ∧
      (cx.bindings = env.snap.bindings ∧ cx.slots = env.slots ∧ cx.entry = e ∧
        cx.subjectHash = env.wireHash32 e.subject) ∧
      ∃ mt, env.snap.matchTable e.streamId = some mt ∧ recipients = (env.recipients w.caches mt e).2 ∧
        (w'.caches, cx.subjectLimit) = env.subjectLimit (env.recipients w.caches mt e).1 mt e := by
  unfold target at h
  split at h
  · cases h
  next hgo =>
  obtain ⟨mt, hmt, heq⟩ := map_eq_some_iff.1 h
  obtain ⟨rfl, rfl, rfl⟩ := heq
  simp only [Bool.or_eq_true, Bool.not_eq_true', not_or, Bool.not_eq_false] at hgo
  exact ⟨⟨rfl, hgo⟩, ⟨rfl, rfl, rfl, rfl⟩, mt, hmt, rfl, rfl⟩

theorem processDrainEntry_eq :
    env.processDrainEntry reads w e = match env.target reads w e with
      | none => w
      | some (w', cx, recipients) =>
        ((turns e recipients).foldl (cx.dispatchOne reads.recipient) ⟨w', [], []⟩).walk := by
  unfold processDrainEntry target
  cases env.live e with
  | false => rfl
  | true =>
    cases reads.hasDemand with
    | false => rfl
    | true =>
      cases hmt : env.snap.matchTable e.streamId with
      | none => rfl
      | some mt =>
        simp only [Bool.not_true, Bool.or_self, Bool.false_eq_true, if_false, map_some]
        split
        · next hempty => rw [isEmpty_iff.1 hempty]; rfl
        · rfl

end CycleEnv

end Arbitro
