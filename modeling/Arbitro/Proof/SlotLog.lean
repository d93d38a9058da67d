import Arbitro.Client.SlotLog
import Arbitro.Proof.Link

/-!
# What a slot holds over its life

* `seen_iff_live`: `seen` says what is live, as long as no seq is 0. The bounds take 0 for
  "none", so a recorded 0 can hide others.
* `age_kept`: a reopen keeps what is not older than the time to live, and nothing else, as long
  as no snapshot or compaction puts another time on an entry.
-/

namespace Arbitro

open List SlotFrame Prod

/-- What a frame can make live. -/
def SlotFrame.entries : SlotFrame → List (ℕ × ℕ)
  | record ts seq => [(seq, ts)]
  | snapshot ts seqs => seqs.map (·, ts)
  | _ => []

def SlotAction.Positive : SlotAction → Prop
  | .record _ seq => 0 < seq
  | _ => True

namespace SlotFrame

variable {cutoff : ℕ} {log : List SlotFrame} {x : ℕ × ℕ} {f : SlotFrame}

theorem mem_applyReplay {live : List (ℕ × ℕ)} : x ∈ f.applyReplay cutoff live ↔
    match f with
    | record ts seq => cutoff ≤ ts ∧ x = (seq, ts) ∨ x ∈ live ∧ (x.1 = seq → ts < cutoff)
    | confirm seq => x ∈ live ∧ x.1 ≠ seq
    | confirmUpTo cursor => x ∈ live ∧ cursor < x.1
    | snapshot ts seqs => cutoff ≤ ts ∧ x.1 ∈ seqs ∧ x.2 = ts := by
  obtain ⟨q, t⟩ := x
  cases f <;> simp only [applyReplay] <;> grind [mem_dedup]

theorem mem_scan (h : x ∈ scan cutoff log) : (∃ f ∈ log, x ∈ f.entries) ∧ cutoff ≤ x.2 := by
  rw [scan, mem_insertionSort] at h
  refine foldlRecOn (motive := fun live => x ∈ live → (∃ f ∈ log, x ∈ f.entries) ∧ cutoff ≤ x.2) log _ ?_ ?_ h
  · exact fun h => absurd h not_mem_nil
  · intro live ih f hf hx
    rw [mem_applyReplay] at hx
    cases f <;> grind [entries]

theorem nodup_scan : ((scan cutoff log).map fst).Nodup := by
  refine ((perm_insertionSort _ _).map _).nodup_iff.2 (foldlRecOn (motive := fun live : List (ℕ × ℕ) =>
    (live.map fst).Nodup) log _ nodup_nil fun live ih f _ => ?_)
  have hkeep (p : ℕ × ℕ → Bool) : ((live.filter p).map fst).Nodup := ih.sublist (filter_sublist.map _)
  cases f with
  | snapshot ts seqs =>
    simp only [applyReplay]
    split <;> simp [nodup_dedup, Function.comp_def]
  | record | confirm | confirmUpTo =>
    simp only [applyReplay]
    grind

theorem mem_scan_snoc : x ∈ scan cutoff (log ++ [f]) ↔ x ∈ f.applyReplay cutoff (scan cutoff log) := by
  simp only [scan, mem_insertionSort, foldl_concat, mem_applyReplay]

theorem mem_scan_confirms {xs : List (ℕ × ℕ)} :
    x ∈ scan cutoff (log ++ xs.map (confirm ·.1)) ↔ x ∈ scan cutoff log ∧ ∀ y ∈ xs, y.1 ≠ x.1 := by
  induction xs using reverseRecOn with
  | nil => simp
  | append_singleton xs y ih =>
    simp only [map_append, map_singleton, ← append_assoc, mem_scan_snoc, mem_applyReplay, ih, forall_mem_append,
      forall_mem_singleton, and_assoc, ne_comm (a := x.1)]

theorem scan_earlier {c : ℕ} (h : x ∈ scan cutoff log) (hc : c ≤ x.2) : x.1 ∈ (scan c log).map fst := by
  rw [mem_map]
  induction log using reverseRecOn generalizing x with
  | nil => exact absurd h not_mem_nil
  | append_singleton log f ih =>
    simp only [mem_scan_snoc, mem_applyReplay] at h ⊢
    cases f with
    | record ts seq =>
      by_cases hnew : c ≤ ts ∧ x.1 = seq
      · exact ⟨(seq, ts), .inl ⟨hnew.1, rfl⟩, hnew.2.symm⟩
      · grind
    | confirm | confirmUpTo | snapshot => grind

end SlotFrame

namespace Slot

variable {s : Slot}

theorem Bounded.sweep (h : s.Bounded) (cutoff : ℕ) : (s.sweep cutoff).Bounded := by
  unfold Slot.sweep
  simp only
  split
  · exact h
  · exact compactFifo_bounded (fun q hq => h.fifo q (keys_retain_sub hq)) (fun q hq => h.pos q (keys_retain_sub hq))
      fun q hq => h.high q (keys_retain_sub hq)

theorem Bounded.confirm (h : s.Bounded) (seq : ℕ) : (s.confirm seq).Bounded where
  fifo q hq := h.fifo q (keys_retain_sub hq)
  pos q hq := h.pos q (keys_retain_sub hq)
  low q hq := h.low q (keys_retain_sub hq)
  high q hq := h.high q (keys_retain_sub hq)

/-- An opened slot has its bounds from the ends of the sorted list. -/
theorem Bounded.opened {live : List (ℕ × ℕ)} (hsorted : live.Pairwise (·.1 ≤ ·.1)) (hpos : ∀ x ∈ live, 0 < x.1) :
    (SlotLog.opened s live).Bounded := by
  have hkeys : ∀ q ∈ (SlotLog.opened s live).keys, ∃ x ∈ live, x.1 = q := fun q => mem_keys.1
  refine ⟨fun q hq => hq, fun q hq => ?_, fun q hq => ?_, fun q hq => ?_⟩ <;> obtain ⟨x, hx, rfl⟩ := hkeys q hq
  · exact hpos x hx
  · cases live with
    | nil => exact absurd hx not_mem_nil
    | cons y ys =>
      have hmin : ∀ z ∈ y :: ys, y.1 ≤ z.1 := forall_mem_cons.2 ⟨le_rfl, (pairwise_cons.1 hsorted).1⟩
      exact ⟨hmin x hx, (hpos y mem_cons_self).ne'⟩
  · rcases eq_nil_or_concat' live with rfl | ⟨ys, y, rfl⟩
    · exact absurd hx not_mem_nil
    · have := (pairwise_append.1 hsorted).2.2
      simp only [SlotLog.opened, getLast?_concat]
      grind

end Slot

namespace SlotLog

/-- The slot is `Bounded`, and the log has only seqs that were recorded. -/
structure Sound (s : SlotLog) : Prop where
  bounded : s.slot.Bounded
  pos : ∀ f ∈ s.log, ∀ x ∈ f.entries, 0 < x.1

variable {s : SlotLog}

theorem Sound.found (h : s.Sound) (cutoff : ℕ) : ∀ x ∈ scan cutoff s.log, 0 < x.1 := by
  intro x hx
  obtain ⟨⟨f, hf, hmem⟩, -⟩ := mem_scan hx
  exact h.pos f hf x hmem

theorem pos_snapshotOf {live : List (ℕ × ℕ)} (h : ∀ x ∈ live, 0 < x.1) {now : ℕ} :
    ∀ f ∈ snapshotOf now live, ∀ x ∈ f.entries, 0 < x.1 := by
  unfold snapshotOf
  split
  · exact fun _ hf => absurd hf not_mem_nil
  · simpa [entries] using h

theorem Sound.step (h : s.Sound) {a : SlotAction} (ha : a.Positive) : (s.step a).Sound := by
  cases a with
  | record now seq =>
    have hseq : 0 < seq := ha
    refine ⟨h.bounded.record hseq, ?_⟩
    simp only [SlotLog.step]
    split
    · exact h.pos
    · exact forall_mem_append.2 ⟨h.pos, by simpa [entries] using hseq⟩
  | confirm seq => exact ⟨h.bounded.confirm seq, forall_mem_append.2 ⟨h.pos, by simp [entries]⟩⟩
  | confirmUpTo cursor =>
    refine ⟨h.bounded.confirmUpTo cursor, ?_⟩
    simp only [SlotLog.step]
    split
    · exact forall_mem_append.2 ⟨h.pos, by simp [entries]⟩
    · exact h.pos
  | sweep now =>
    unfold SlotLog.step
    simp only
    split
    · exact h
    refine ⟨h.bounded.sweep _, forall_mem_append.2 ⟨h.pos, fun f hf => ?_⟩⟩
    obtain ⟨x, -, rfl⟩ := mem_map.1 hf
    exact fun _ hq => absurd hq not_mem_nil
  | snapshot now =>
    refine ⟨h.bounded, forall_mem_append.2 ⟨h.pos, pos_snapshotOf (fun x hx => ?_)⟩⟩
    exact h.bounded.pos _ (mem_map_of_mem hx)
  | compact now => exact ⟨h.bounded, pos_snapshotOf (h.found _)⟩
  | reopen now =>
    unfold SlotLog.step
    simp only
    split
    · exact ⟨.opened .nil fun _ hx => absurd hx not_mem_nil, h.pos⟩
    · exact ⟨.opened (pairwise_insertionSort _ _) (h.found _), h.pos⟩

/-- **`seen` says what is live**, after every run of records of seqs from 1 on, confirms,
sweeps, snapshots, compactions and reopens. -/
theorem seen_iff_live (kind : SlotKind) (cap ttl : ℕ) (as : List SlotAction) (hpos : ∀ a ∈ as, a.Positive) (seq : ℕ) :
    let s := run { ttl, slot := { kind, cap } } as
    s.slot.seen seq = true ↔ seq ∈ s.slot.keys := by
  have hsound : (run { ttl, slot := { kind, cap } } as).Sound := by
    refine foldlRecOn (motive := Sound) as step ⟨⟨?_, ?_, ?_, ?_⟩, ?_⟩ fun s hs a ha => hs.step (hpos a ha)
    all_goals exact fun _ h => absurd h not_mem_nil
  refine ⟨fun h => ?_, hsound.bounded.seen⟩
  exact Slot.has_iff.1 (Bool.and_eq_true_iff.1 h).2

theorem seen_reopened :
    (run { ttl := 10, slot := { kind := .wal, cap := 4 } }
      [.record 1 5, .record 2 3, .confirm 5, .reopen 4]).slot.seen 3 = true :=
  (seen_iff_live .wal 4 10 _ (by simp [SlotAction.Positive]) 3).2 (by decide)

/-- A recorded 0 resets the lower bound, and the next recording raises it over a live seq. -/
theorem hidden_by_zero :
    let s := run { ttl := 0, slot := { kind := .wal, cap := 4 } } [.record 1 5, .record 1 0, .record 1 7]
    5 ∈ s.slot.keys ∧ s.slot.seen 5 = false := by
  decide

/-! ## The age of an entry -/

/-- A store and the recordings that took effect, each with its time. -/
structure Aged where
  store : SlotLog
  taken : List (ℕ × ℕ) := []

namespace Aged

def step (s : Aged) (a : SlotAction) : Aged where
  store := s.store.step a
  taken :=
    match a with
    | .record now seq => if s.store.slot.tombed || s.store.slot.has seq then s.taken else s.taken ++ [(seq, now)]
    | _ => s.taken

/-- A snapshot or a compaction is made only when all it covers was recorded at this time. -/
def Timely (s : Aged) : SlotAction → Prop
  | .snapshot now => ∀ x ∈ s.store.slot.set, x.2 = now
  | .compact now => ∀ x ∈ s.store.slot.set ++ scan (s.store.cutoff now) s.store.log, x.2 = now
  | _ => True

/-- The times in memory and in the log are those of the recordings. -/
structure Dated (s : Aged) : Prop where
  nodup : s.store.slot.keys.Nodup
  set : ∀ x ∈ s.store.slot.set, x ∈ s.taken
  log : ∀ f ∈ s.store.log, ∀ x ∈ f.entries, x ∈ s.taken
  logged : ∀ x ∈ s.store.slot.set, ∀ c ≤ x.2, x.1 ∈ (scan c s.store.log).map Prod.fst

variable {s : Aged} {log : List SlotFrame}

theorem Dated.found (h : s.Dated) {c : ℕ} {x : ℕ × ℕ} (hx : x ∈ scan c s.store.log) : x ∈ s.taken ∧ c ≤ x.2 := by
  obtain ⟨⟨f, hf, hmem⟩, hc⟩ := mem_scan hx
  exact ⟨h.log f hf x hmem, hc⟩

/-- Of a smaller set all is logged, if no new frame takes it out. -/
theorem Dated.smaller (h : s.Dated) {slot : Slot} (hsub : slot.set <+ s.store.slot.set)
    (hlog : ∀ f ∈ log, f ∈ s.store.log ∨ f.entries = [])
    (hkeep : ∀ x ∈ slot.set, ∀ c, ∀ y ∈ scan c s.store.log, y.1 = x.1 → y ∈ scan c log) :
    Dated { s with store := { s.store with slot := slot, log := log } } where
  nodup := h.nodup.sublist (hsub.map _)
  set x hx := h.set x (hsub.subset hx)
  log f hf x hx := by grind [h.log f]
  logged x hx c hc := by
    obtain ⟨y, hy, heq⟩ := mem_map.1 (h.logged x (hsub.subset hx) c hc)
    exact heq ▸ mem_map_of_mem (hkeep x hx c y hy heq)

/-- A snapshot of what was recorded at its time. -/
theorem Dated.stamped (h : s.Dated) {now : ℕ} {live : List (ℕ × ℕ)}
    (hlog : ∀ f ∈ log, f ∈ s.store.log) (hlive : ∀ x ∈ live, x ∈ s.taken ∧ x.2 = now)
    (hset : ∀ x ∈ s.store.slot.set, x.1 ∈ live.map fst ∧ x.2 = now) :
    Dated { s with store := { s.store with log := log ++ snapshotOf now live } } where
  nodup := h.nodup
  set := h.set
  log := by
    refine forall_mem_append.2 ⟨fun f hf => h.log f (hlog f hf), ?_⟩
    unfold snapshotOf
    grind [entries, mem_insertionSort]
  logged x hx c hc := by
    obtain ⟨hlisted, rfl⟩ := hset x hx
    rw [snapshotOf, if_neg (by grind), mem_map]
    refine ⟨x, mem_scan_snoc.2 (mem_applyReplay.2 ⟨hc, ?_, rfl⟩), rfl⟩
    exact (mem_insertionSort _).2 hlisted

theorem Dated.step (h : s.Dated) {a : SlotAction} (ha : s.Timely a) : (s.step a).Dated := by
  cases a with
  | record now seq =>
    unfold Aged.step SlotLog.step
    by_cases hold : (s.store.slot.tombed || s.store.slot.has seq) = true
    · simp only [Slot.record, hold, if_true]
      exact h
    have hsub : (s.store.slot.record now seq).set <+ s.store.slot.set ++ [(seq, now)] := by
      rw [Slot.record, if_neg hold]
      exact filter_sublist
    have hnew : seq ∉ s.store.slot.keys := by
      rw [Bool.or_eq_true, not_or, Slot.has_iff] at hold
      exact hold.2
    have hset : ∀ x ∈ (s.store.slot.record now seq).set, x ∈ s.store.slot.set ∨ x = (seq, now) := fun x hx => by
      simpa using hsub.subset hx
    simp only [hold, Bool.false_eq_true, if_false]
    refine ⟨?_, fun x hx => ?_, forall_mem_append.2 ⟨fun f hf x hx => ?_, ?_⟩, fun x hx c hc => ?_⟩
    · refine Nodup.sublist (hsub.map _) ?_
      rw [map_append]
      exact h.nodup.append (nodup_singleton _) (disjoint_singleton.2 hnew)
    · exact mem_append.2 ((hset x hx).imp (h.set x) mem_singleton.2)
    · exact mem_append_left _ (h.log f hf x hx)
    · simp [entries]
    · rw [mem_map]
      simp only [mem_scan_snoc, mem_applyReplay]
      rcases hset x hx with hx | rfl
      · obtain ⟨y, hy, heq⟩ := mem_map.1 (h.logged x hx c hc)
        refine ⟨y, .inr ⟨hy, fun hseq => absurd (Slot.mem_keys.2 ⟨x, hx, ?_⟩) hnew⟩, heq⟩
        rw [← hseq, heq]
      · exact ⟨(seq, now), .inl ⟨hc, rfl⟩, rfl⟩
  | confirm seq =>
    refine h.smaller filter_sublist (by grind [entries]) fun x hx c y hy heq => ?_
    exact mem_scan_snoc.2 (mem_applyReplay.2 ⟨hy, by simpa [heq] using (mem_filter.1 hx).2⟩)
  | confirmUpTo cursor =>
    have hset := s.store.slot.confirmUpTo_set cursor
    refine h.smaller (hset ▸ filter_sublist) (by grind [entries]) fun x hx c y hy heq => ?_
    split
    · rw [hset] at hx
      exact mem_scan_snoc.2 (mem_applyReplay.2 ⟨hy, by simpa [heq] using (mem_filter.1 hx).2⟩)
    · exact hy
  | sweep now =>
    unfold Aged.step SlotLog.step
    simp only
    split
    · exact h
    case h_2 hkind =>
    have hset := Slot.sweep_set hkind (s.store.cutoff now)
    refine h.smaller (hset ▸ filter_sublist) (by grind [entries]) fun x hx c y hy heq => ?_
    refine mem_scan_confirms.2 ⟨hy, fun z hz hzy => ?_⟩
    -- one seq has one time
    rw [hset] at hx
    have hzx := inj_on_of_nodup_map h.nodup (mem_filter.1 hz).1 (mem_filter.1 hx).1 (hzy.trans heq)
    grind
  | snapshot now =>
    exact h.stamped (fun _ hf => hf) (fun x hx => ⟨h.set x hx, ha x hx⟩) fun x hx => ⟨mem_map_of_mem hx, ha x hx⟩
  | compact now =>
    obtain ⟨hset, hscan⟩ := forall_mem_append.1 ha
    refine h.stamped (fun _ hf => absurd hf not_mem_nil) (fun x hx => ⟨(h.found hx).1, hscan x hx⟩) fun x hx => ?_
    refine ⟨h.logged x hx _ ?_, hset x hx⟩
    rw [hset x hx, cutoff]
    split <;> omega
  | reopen now =>
    unfold Aged.step SlotLog.step
    simp only
    split
    · exact ⟨nodup_nil, nofun, h.log, nofun⟩
    · exact ⟨nodup_scan, fun x hx => (h.found hx).1, h.log, fun x hx c hc => scan_earlier hx hc⟩

theorem step_config (s : SlotLog) {a : SlotAction} : (s.step a).ttl = s.ttl ∧ (s.step a).slot.kind = s.slot.kind := by
  cases a <;> simp only [SlotLog.step] <;> grind [Slot.record, Slot.evict, Slot.retain, Slot.confirm, Slot.confirmUpTo,
    Slot.sweep, Slot.compactFifo, opened]

/-- **What is live after a reopen is no older than the time to live, and what is not older
stays.** -/
theorem age_kept (cap ttl : ℕ) (httl : 0 < ttl) (as : List SlotAction)
    (hrun : Run.Guarded Aged.step Timely { store := { ttl, slot := { kind := .wal, cap } } } as) (now : ℕ) :
    let s := as.foldl Aged.step { store := { ttl, slot := { kind := .wal, cap } } }
    (∀ x ∈ (s.store.step (.reopen now)).slot.set, x ∈ s.taken ∧ now ≤ x.2 + ttl) ∧
      ∀ x ∈ s.store.slot.set, x ∈ s.taken ∧ (now ≤ x.2 + ttl →
        x.1 ∈ (s.store.step (.reopen now)).slot.keys ∧ x.1 ∈ (s.store.step (.sweep now)).slot.keys) := by
  intro s
  have h : s.Dated := Run.invariant (fun _ _ hs ha => hs.step ha) as _ ⟨nodup_nil, nofun, nofun, nofun⟩ hrun
  obtain ⟨hconf, hkind⟩ : s.store.ttl = ttl ∧ s.store.slot.kind = .wal :=
    foldlRecOn (motive := fun s : Aged => s.store.ttl = ttl ∧ s.store.slot.kind = .wal) as _ ⟨rfl, rfl⟩
      fun s hs a _ => ⟨(step_config _).1.trans hs.1, (step_config _).2.trans hs.2⟩
  have hcut (t : ℕ) : s.store.cutoff now ≤ t ↔ now ≤ t + ttl := by
    rw [cutoff, hconf, if_neg httl.ne']
    omega
  have hreopen : (s.store.step (.reopen now)).slot.set = scan (s.store.cutoff now) s.store.log := by
    simp only [SlotLog.step, hkind, opened]
  have hsweep : (s.store.step (.sweep now)).slot.set = s.store.slot.set.filter fun x => s.store.cutoff now ≤ x.2 := by
    simp only [SlotLog.step, hkind]
    exact Slot.sweep_set hkind _
  refine ⟨fun x hx => ?_, fun x hx => ⟨h.set x hx, fun hage => ⟨?_, ?_⟩⟩⟩
  · obtain ⟨htaken, hc⟩ := h.found (hreopen ▸ hx)
    exact ⟨htaken, (hcut _).1 hc⟩
  · rw [Slot.keys, hreopen]
    exact h.logged x hx _ ((hcut _).2 hage)
  · refine Slot.mem_keys.2 ⟨x, ?_, rfl⟩
    rw [hsweep]
    exact mem_filter.2 ⟨hx, by simpa using (hcut _).2 hage⟩

/-- A compaction at the time of the only recording. -/
theorem age_kept_compacted :
    let s := [.record 3 1, .compact 3].foldl Aged.step { store := { ttl := 10, slot := { kind := .wal, cap := 4 } } }
    1 ∈ (s.store.step (.reopen 13)).slot.keys :=
  ((age_kept 4 10 (by decide) [.record 3 1, .compact 3]
    ⟨trivial, by unfold Timely; decide, trivial⟩ 13).2 (1, 3) (by decide)).2 (by decide) |>.1

/-- A snapshot makes its entries younger. -/
theorem older_after_snapshot :
    let s := [.record 1 1, .snapshot 5].foldl Aged.step { store := { ttl := 10, slot := { kind := .wal, cap := 4 } } }
    s.taken = [(1, 1)] ∧ 1 + 10 < 13 ∧ 1 ∈ (s.store.step (.reopen 13)).slot.keys := by
  decide

end Aged

end SlotLog

end Arbitro
