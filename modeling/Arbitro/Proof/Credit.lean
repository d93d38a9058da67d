import Arbitro.Proof.Cycle
import Arbitro.Proof.Flush

/-!
# What a cycle may open

Capacity is checked against the counters as they stand before the cycle, plus counts
the walk keeps of what it has opened itself; the counters move only after the flush.

* `CycleEnv.walk_invariant`: what every send of a walk keeps, the walk keeps.
* `opened_within`: a walk counts what it opens, and opens nothing past a limit it checks.
* `within_limits`: in every run of coherent cycles a cycle leaves every consumer within its
  limits, or where it was.
-/

namespace Arbitro

open List

/-! ## An invariant of the walk -/

namespace Context

variable {cx : Context} {reads : ℕ → Reads} {I : Walk → Prop}

theorem dispatch_invariant (hpin : ∀ w s, I w → I (w.pin s)) (l : List (MatchEntry × ℕ)) (d : Dispatch)
    (hsend : ∀ d' i, ∀ x ∈ cx.copies reads d l, cx.Sends d' (reads i) x.recipient x.idx x.binding x.collapsed →
      I d'.walk → I (cx.send d' x.recipient x.idx x.binding x.collapsed).walk)
    (h : I d.walk) : I (l.foldl (cx.dispatchOne reads) d).walk := by
  induction l generalizing d with
  | nil => exact h
  | cons me l ih =>
    obtain ⟨me, i⟩ := me
    refine ih _ (fun d' j x hx => hsend d' j x (mem_append_right _ hx)) ?_
    rcases cx.turn_cases reads d me i with ⟨-, -, -, hd⟩ | ⟨-, -, hd⟩ | ⟨idx, b, collapsed, hc, -, hs, hd⟩
    · rw [hd]; exact h
    · rw [hd]; exact hpin _ _ h
    · rw [hd]
      refine hsend d i ⟨cx.entry, me, idx, b, collapsed⟩ (mem_append_left _ ?_) hs h
      rw [hc]
      exact mem_singleton_self _

end Context

theorem MatchTable.hasSubjectLimits_of_resolve (mt : MatchTable) {h : SubjectHash} {subject : Bytes} {limit : ℕ}
    (hl : mt.resolveSubjectLimitReadonly h subject = some limit) : mt.hasSubjectLimits = true := by
  unfold resolveSubjectLimitReadonly at hl
  unfold hasSubjectLimits
  split at hl
  case h_1 hlook =>
    cases hv : mt.maxSubjectInflights.values with
    | nil => exact absurd (Map.mem_values_of_lookup hlook) (by rw [hv]; exact not_mem_nil)
    | cons => rfl
  case h_2 =>
    split at hl
    · cases hl
    case isFalse hne => simp [hne]

namespace CycleEnv

variable (env : CycleEnv) (reads : ℕ → EntryReads)

/-- The subject limits in force: the hash of each entry that gets to the recipient loop,
and what the walk looked up for it. -/
def limits : Walk → List StoreEntry → List (SubjectHash × Option ℕ)
  | _, [] => []
  | w, e :: es => ((env.target (reads e.seq) w e).map fun found =>
      (found.2.1.subjectHash, found.2.1.subjectLimit)).toList ++ limits (env.processDrainEntry (reads e.seq) w e) es

/-- With coherent caches they are the limits of the snapshot's tables. -/
theorem limits_fresh {es : List StoreEntry} {w : Walk} (h : env.TakesFresh reads w es) :
    ∀ x ∈ env.limits reads w es, ∃ e ∈ es, x.1 = env.wireHash32 e.subject ∧
      ∃ mt, env.snap.matchTable e.streamId = some mt ∧
        ∀ limit, mt.resolveSubjectLimitReadonly x.1 e.subject = some limit → x.2 = some limit := by
  induction es generalizing w with
  | nil => exact nofun
  | cons e es ih =>
    intro x hx
    rcases mem_append.1 hx with hx | hx
    · obtain ⟨⟨w', cx, recipients⟩, ht, rfl⟩ := Option.map_eq_some_iff.1 (Option.mem_toList.1 hx)
      obtain ⟨mt, hmt, -, hlimit⟩ := h [] e es rfl w' cx recipients ht
      obtain ⟨-, ⟨-, -, -, hhash⟩, -⟩ := target_spec ht
      refine ⟨e, mem_cons_self, hhash, mt, hmt, fun limit hl => ?_⟩
      rw [hhash] at hl
      rw [hlimit, if_pos (mt.hasSubjectLimits_of_resolve hl), hl]
    · obtain ⟨e', he', hrest⟩ := ih (fun done e' rest hes => h (e :: done) e' rest (hes ▸ rfl)) x hx
      exact ⟨e', mem_cons_of_mem _ he', hrest⟩

variable {env reads} {I : Walk → Prop}

/-- **What every send keeps, the walk keeps.** A send comes with the copy it logs and with
the limit in force. -/
theorem walk_invariant (hpin : ∀ w s, I w → I (w.pin s)) (hcaches : ∀ (w : Walk) c, I w → I { w with caches := c })
    (es : List StoreEntry) (w : Walk)
    (hsend : ∀ (cx : Context) d r, cx.slots = env.slots → (cx.subjectHash, cx.subjectLimit) ∈ env.limits reads w es →
      (∃ s i, r = (reads s).recipient i) → ∀ x ∈ env.copies reads w es,
      cx.Sends d r x.recipient x.idx x.binding x.collapsed → I d.walk →
      I (cx.send d x.recipient x.idx x.binding x.collapsed).walk)
    (h : I w) : I (es.foldl (fun w e => env.processDrainEntry (reads e.seq) w e) w) := by
  induction es generalizing w with
  | nil => exact h
  | cons e es ih =>
    refine ih _ (fun cx d r hs hl hr x hx => hsend cx d r hs (mem_append_right _ hl) hr x (mem_append_right _ hx)) ?_
    simp only [processDrainEntry_eq]
    cases ht : env.target (reads e.seq) w e with
    | none => exact h
    | some found =>
      obtain ⟨w', cx, recipients⟩ := found
      obtain ⟨⟨hw, -⟩, ⟨-, hslots, -⟩, -⟩ := target_spec ht
      have hlimit : (cx.subjectHash, cx.subjectLimit) ∈ env.limits reads w (e :: es) := by
        refine mem_append_left _ ?_
        rw [ht]
        exact mem_singleton_self _
      refine Context.dispatch_invariant hpin (turns e recipients) ⟨w', [], []⟩ (fun d i x hx => ?_)
        (by rw [hw]; exact hcaches w _ h)
      refine hsend cx d _ hslots hlimit ⟨e.seq, i, rfl⟩ x (mem_append_left _ ?_)
      unfold copiesOf
      rw [ht]
      exact hx

end CycleEnv

/-! ## What is opened -/

namespace Walk

/-- The deliveries to a consumer, and those of one subject among them. -/
def opened (w : Walk) (k : ConsumerId) : ℕ := w.deliveries.countP (·.consumerId == k)

def openedOn (w : Walk) (k : ConsumerId) (h : SubjectHash) : ℕ :=
  w.deliveries.countP fun n => n.consumerId == k && n.subjectHash == h

/-- The walk's own counts are those of its deliveries. -/
def Counted (w : Walk) : Prop := ∀ k, w.localInflight k = w.opened k ∧ ∀ h, w.localSubject k h = w.openedOn k h

theorem Counted.openPending {w : Walk} (hw : w.Counted) (n : PendingNotify) : (w.openPending n).Counted := by
  intro k
  obtain ⟨hk, hh⟩ := hw k
  unfold Walk.openPending opened openedOn
  by_cases hn : k = n.consumerId
  · subst hn
    refine ⟨by simp [hk, opened], fun h => ?_⟩
    by_cases hs : h = n.subjectHash
    · subst hs
      simp [hh, openedOn]
    · simp [hh, openedOn, Function.update_of_ne hs, Ne.symm hs]
  · refine ⟨by simp [hn, Ne.symm hn, hk, opened], fun h => by simp [hn, Ne.symm hn, hh, openedOn]⟩

end Walk

theorem Context.send_walk (cx : Context) (d : Dispatch) (me : MatchEntry) (idx : ℕ) (b : ActiveBinding) (collapsed : Bool) :
    ∃ acc, (cx.send d me idx b collapsed).walk = if b.fireAndForget then { d.walk with acc := acc }
      else { d.walk with acc := acc }.openPending (cx.notify me idx) := by
  refine ⟨if collapsed then d.walk.acc else d.walk.acc.add me.connectionId cx.entry.streamId (cx.wireEntry me b), ?_⟩
  unfold send notify
  by_cases hq : me.queueId = 0
  · cases collapsed <;> cases hf : b.fireAndForget <;> simp [hq]
  · cases collapsed <;> cases hf : b.fireAndForget <;> simp [hq]

/-- **A walk opens nothing past a limit it checks**: its own counts are those of its deliveries,
and those counted by `p` stay at or below `bound` if each of them is opened below it. -/
theorem opened_within {env : CycleEnv} {reads : ℕ → EntryReads} {p : PendingNotify → Bool} {bound : ℕ}
    {es : List StoreEntry} {w : Walk} (hw : w.Counted)
    (hcheck : ∀ (cx : Context) d r, cx.slots = env.slots → (cx.subjectHash, cx.subjectLimit) ∈ env.limits reads w es →
      (∃ s i, r = (reads s).recipient i) → ∀ x ∈ env.copies reads w es,
      cx.Sends d r x.recipient x.idx x.binding x.collapsed → x.binding.fireAndForget = false → d.walk.Counted →
      p (cx.notify x.recipient x.idx) = true → d.walk.deliveries.countP p < bound)
    (h : w.deliveries.countP p ≤ bound) :
    let w' := es.foldl (fun w e => env.processDrainEntry (reads e.seq) w e) w
    w'.Counted ∧ w'.deliveries.countP p ≤ bound := by
  refine CycleEnv.walk_invariant (I := fun w => w.Counted ∧ w.deliveries.countP p ≤ bound)
    (fun w s h => h) (fun w c h => h) es w ?_ ⟨hw, h⟩
  rintro cx d r hslots hl hr x hx hs ⟨hc, hd⟩
  obtain ⟨acc, hacc⟩ := cx.send_walk d x.recipient x.idx x.binding x.collapsed
  rw [hacc]
  split
  · exact ⟨hc, hd⟩
  next hf =>
  refine ⟨Walk.Counted.openPending (w := { d.walk with acc := acc }) hc _, ?_⟩
  unfold Walk.openPending
  rw [countP_append, countP_singleton]
  split
  · next hp => exact hcheck cx d r hslots hl hr x hx hs (by simpa using hf) hc hp
  · exact hd

/-! ## The counters after a cycle -/

section Cycles

variable {wh : WireHash} {cfg : DrainConfig} {snaps : ℕ → DrainSnapshot}

/-- **The cycle stays within the limits**: the inflight count of a consumer ends at or below
its `max_inflight` or where it was, and the drain's count of a subject at or below the limit that
the tables of the snapshot have for it or where it was. `now` are the counters when the
deliveries are recorded. -/
def Cycle.WithinLimits (wh : WireHash) (cfg : DrainConfig) (snaps : ℕ → DrainSnapshot) (c : Cycle)
    (r : CycleResult) (before now : SharedCounters) : Prop :=
  let after := recordDeliveries r.flushed r.read.walk.deliveries (now, c.slots)
  (∀ k cap, (∀ b ∈ (snaps c.snapId).bindings, b.consumerId = k → b.fireAndForget = false → b.maxInflight ≤ cap) →
    after.1.consumer k ≤ max (before.consumer k) cap) ∧
  ∀ k h cap, (∀ e ∈ c.window cfg, wh e.subject = h → ∀ mt, (snaps c.snapId).matchTable e.streamId = some mt →
      ∃ limit ≤ cap, mt.resolveSubjectLimitReadonly h e.subject = some limit) →
    after.2.get k h ≤ max (c.slots.get k h) cap

theorem CoherentCycle.withinLimits {t : History} {c : Cycle} {r : CycleResult} (h : CoherentCycle wh cfg snaps t c r)
    (hfresh : (c.env wh cfg snaps).TakesFresh c.reads (t.memory.start c) (c.window cfg)) {before now : SharedCounters}
    (hnow : ∀ k, now.consumer k ≤ before.consumer k)
    (hreads : ∀ s i k, now.consumer k ≤ ((c.reads s).recipient i).inflight k) :
    c.WithinLimits wh cfg snaps r before now := by
  have hwalk := (cycle_some h.result).2.2
  have hstart : (t.memory.start c).Counted := fun k => ⟨rfl, fun _ => rfl⟩
  have hrecorded : ∀ p, (recorded r.flushed r.read.walk.deliveries).countP p ≤ r.read.walk.deliveries.countP p :=
    fun p => filter_sublist.countP_le
  refine ⟨fun k cap hcap => ?_, fun k hash cap hcap => ?_⟩
  · have hopen : r.read.walk.deliveries.countP (·.consumerId == k) ≤ cap - now.consumer k := by
      rw [hwalk]
      refine (opened_within hstart ?_ (Nat.zero_le _)).2
      rintro cx d _ - - ⟨s, i, rfl⟩ x hx hs hack hcount hk
      have hkx : x.recipient.consumerId = k := by simpa [Context.notify] using hk
      obtain ⟨-, -, -, -, hcons⟩ := h.recipient hx
      have hle := hcap x.binding (mem_of_getElem? (t.memory.copies_passed c hx).2.binding)
        (hcons.trans hkx) hack
      have hfree := hs.capacity hack
      unfold Context.atCapacity at hfree
      simp only [hkx, Bool.or_eq_false_iff, decide_eq_false_iff_not, Bool.not_eq_false', decide_eq_true_eq] at hfree
      have hlocal := (hcount k).1
      unfold Walk.opened at hlocal
      have := hreads s i k
      omega
    rw [recordDeliveries_eq, consumer_foldl_recordOne]
    have := hrecorded (·.consumerId == k)
    have := hnow k
    show now.consumer k + _ ≤ _
    omega
  have hopen : r.read.walk.deliveries.countP (fun n => n.consumerId == k && n.subjectHash == hash) ≤
      cap - c.slots.get k hash := by
    rw [hwalk]
    refine (opened_within hstart ?_ (Nat.zero_le _)).2
    intro cx d r' hslots hlimit _ x hx hs hack hcount hk
    have hkx : x.recipient.consumerId = k ∧ cx.subjectHash = hash := by simpa [Context.notify] using hk
    obtain ⟨e, he, hhash, mt, hmt, hforce⟩ := CycleEnv.limits_fresh _ _ hfresh _ hlimit
    obtain ⟨limit, hle, hres⟩ := hcap e he (hhash.symm.trans hkx.2) mt hmt
    have hsome := hforce limit (hkx.2.symm ▸ hres)
    have hlim := hs.limit hack
    unfold Context.atSubjectLimit at hlim
    rw [show cx.subjectLimit = some limit from hsome] at hlim
    simp only [hkx, decide_eq_false_iff_not, hslots] at hlim
    have hlocal := (hcount k).2 hash
    unfold Walk.openedOn at hlocal
    have hslot : (c.env wh cfg snaps).slots.get k hash = c.slots.get k hash := rfl
    omega
  show (recordDeliveries r.flushed r.read.walk.deliveries (now, c.slots)).2.get k hash ≤ _
  rw [recordDeliveries_eq, Slots.get_foldl_recordOne]
  have := hrecorded fun n => n.consumerId == k && n.subjectHash == hash
  show c.slots.get k hash + _ ≤ _
  omega

end Cycles

/-! ## A binding index of an older snapshot -/

namespace StaleIndex

open LateSubscriber (entry cfg wh cycle storeOne)

/-- Consumer 1 may have one message in flight, consumers 2 and 3 a hundred. -/
def binding (k maxInflight : ℕ) : ActiveBinding := ⟨k, 6 + k, k, k, 0, 1, 1, 0, maxInflight, false, 0, 0⟩

/-- Consumer 1 listens to `a.*`. -/
def table : MatchTable := MatchTable.new.addPattern [97, 46, 42] ⟨1, 0, 1, 7, none⟩

/-- Consumer 1 is the second binding of publication 0; then consumer 3 leaves and consumer 2
comes. -/
def snaps : ℕ → DrainSnapshot
  | 0 => .rebuild [binding 3 100, binding 1 1] [none, some table] ∅
  | _ + 1 => .rebuild [binding 1 1, binding 2 100] [none, some table] ∅

def storeThree : StoreView := ⟨[entry 1, entry 2, entry 3], 3, by simp [entry], by simp [entry]⟩

theorem published (i : ℕ) : (snaps i).Published := by
  have htable : table.Unstamped := MatchTable.unstamped_new.addPattern _ rfl
  cases i with
  | zero => exact .one _ htable
  | succ i => exact .one _ htable

end StaleIndex

end Arbitro
