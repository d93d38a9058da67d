import Arbitro.Lib.Run
import Arbitro.Shard.Evict
import Arbitro.Proof.Journal

/-!
# What eviction removes

* `walk_spec`: the walk ends with the seq of the first entry it meets that is not expired
  and not of a stream the cache lets it skip.
* `Journal.Gapless`: positions in the index agree with seqs; appends and truncations keep it.
* `onlyExpired_iff`: a call removes nothing but expired entries exactly when no entry that is
  still valid lies below that seq.
* `evictions_safe_iff`: the same for whole runs.
-/

namespace Arbitro

open EvictWalk Evictor List Option Nat

/-! ## Journals without gaps -/

namespace Journal

variable {j : Journal} {e : StoreEntry} {seq : ℕ}

/-- The entries are those from `first_seq` to `next_seq`, each at its own position. -/
structure Gapless (j : Journal) : Prop where
  front : 0 < j.firstSeq
  seqs : ∀ i e, j.index[i]? = some e → e.seq = j.firstSeq + i
  next : j.nextSeq = j.firstSeq + j.index.length

theorem Gapless.ok (h : j.Gapless) : j.OK where
  sorted := by
    rw [pairwise_iff_getElem]
    intro i k hi hk hlt
    have hseqi := h.seqs i _ (getElem?_eq_getElem hi)
    have hseqk := h.seqs k _ (getElem?_eq_getElem hk)
    omega
  within := by
    intro e he
    obtain ⟨i, hi⟩ := mem_iff_getElem?.1 he
    have hseq := h.seqs i e hi
    have hnext := h.next
    obtain ⟨hlt, -⟩ := List.getElem?_eq_some_iff.1 hi
    omega
  front := by
    have hfront := h.front
    have hnext := h.next
    omega

theorem Gapless.append (h : j.Gapless) (entry : EntryRef) (timestamp : ℕ) : (j.append entry timestamp).Gapless where
  front := h.front
  seqs := by
    intro i e he
    change (j.index ++ [_])[i]? = some e at he
    rcases lt_trichotomy i j.index.length with hlt | heq | hgt
    · rw [getElem?_append_left hlt] at he
      exact h.seqs i e he
    · rw [heq, getElem?_concat_length] at he
      cases he
      rw [heq]
      exact h.next
    · rw [getElem?_eq_none (by simp; omega)] at he
      cases he
  next := by
    have hnext := h.next
    show j.nextSeq + 1 = j.firstSeq + (j.index ++ [_]).length
    rw [length_append, length_singleton]
    omega

/-- **Truncating at an entry leaves it and what follows.** -/
theorem Gapless.truncateFront (h : j.Gapless) (backend : Backend) (he : e ∈ j.index) (hpast : j.firstSeq < e.seq) :
    (j.truncateFront backend e.seq).1 = { j with index := j.index.drop (e.seq - j.firstSeq), firstSeq := e.seq } ∧
      0 < (j.truncateFront backend e.seq).2 := by
  obtain ⟨i, hi⟩ := mem_iff_getElem?.1 he
  have hseq := h.seqs i e hi
  have hnext := h.next
  obtain ⟨hlt, -⟩ := List.getElem?_eq_some_iff.1 hi
  have hclamp : min e.seq j.nextSeq = e.seq := min_eq_left (by omega)
  have hne : ¬ (e.seq ≤ j.firstSeq ∨ j.index = []) := by
    rintro (hle | hnil)
    · omega
    · rw [hnil] at he
      cases he
  have hcut : min (e.seq - j.firstSeq) j.index.length = e.seq - j.firstSeq := min_eq_left (by omega)
  have hsome : ¬ e.seq - j.firstSeq = 0 := by omega
  unfold Journal.truncateFront
  cases backend with
  | memory =>
    simp only [if_neg hne, hcut, if_neg hsome, true_and]
    omega
  | tolerant =>
    simp only [hclamp, if_neg hne, hcut, if_neg hsome, true_and]
    omega

theorem Gapless.drop (h : j.Gapless) (hpast : j.firstSeq ≤ seq) (hlast : seq ≤ j.nextSeq) :
    ({ j with index := j.index.drop (seq - j.firstSeq), firstSeq := seq } : Journal).Gapless where
  front := by
    have hfront := h.front
    show 0 < seq
    omega
  seqs := by
    intro i e he
    rw [getElem?_drop] at he
    have hseq := h.seqs _ e he
    show e.seq = seq + i
    omega
  next := by
    have hnext := h.next
    show j.nextSeq = seq + (j.index.drop (seq - j.firstSeq)).length
    rw [length_drop]
    omega

theorem Gapless.mem_drop (h : j.Gapless) (hpast : j.firstSeq ≤ seq) :
    e ∈ j.index.drop (seq - j.firstSeq) ↔ e ∈ j.index ∧ seq ≤ e.seq := by
  rw [mem_iff_getElem?]
  constructor
  · rintro ⟨i, hi⟩
    rw [getElem?_drop] at hi
    have hseq := h.seqs _ e hi
    exact ⟨mem_of_getElem? hi, by omega⟩
  rintro ⟨he, hle⟩
  obtain ⟨i, hi⟩ := mem_iff_getElem?.1 he
  have hseq := h.seqs i e hi
  refine ⟨e.seq - seq, ?_⟩
  rw [getElem?_drop, ← hi]
  congr 1
  omega

end Journal

namespace Evictor

variable {s : Evictor} {e : StoreEntry} {x : EvictWalk} {cutoffTs : List ℕ} (l : List StoreEntry) {id : StreamId}

/-! ## The walk -/

/-- The stream of the entry has a max age, and the entry is older. -/
def Old (s : Evictor) (e : StoreEntry) : Prop :=
  0 < s.maxAge e.streamId ∧ e.timestamp + s.maxAge e.streamId < s.nowMs

/-- The entry would stop a walk that meets it. -/
def Stops (s : Evictor) (e : StoreEntry) : Prop := s.skipped e.streamId = false ∧ ¬ s.Old e

theorem maxAge_of_slots (h : s.streamSlots ≤ id) : s.maxAge id = 0 := by
  have hnone : s.streamRetention.lookup id = none := by
    rw [AList.lookup_eq_none]
    intro hmem
    have hkey : id ∈ s.streamRetention.keys := AList.mem_keys.1 hmem
    obtain ⟨m, hm⟩ := isSome_iff_exists.1 (isSome_max?_of_mem hkey)
    have hle : id ≤ m := (max?_eq_some_iff.1 hm).2 id hkey
    unfold streamSlots at h
    rw [hm, getD_some] at h
    exact absurd hle (Nat.not_le_of_lt h)
  unfold maxAge
  rw [hnone]
  rfl

theorem resolved_get : s.resolved[id]? = if id < s.streamSlots then some (s.skipped id) else none := by
  unfold resolved
  split
  · next hlt => rw [getElem?_map, getElem?_range hlt, map_some]
  · next hge =>
    rw [getElem?_eq_none]
    rw [length_map, length_range]
    exact Nat.le_of_not_lt hge

theorem cutoffTs_getD (h : id < s.streamSlots) : s.cutoffTs.getD id 0 = s.cutoffOf id := by
  unfold cutoffTs
  rw [getD_eq_getElem?_getD, getElem?_map, getElem?_range h]
  rfl

theorem old_iff : s.Old e ↔ s.cutoffOf e.streamId ≠ 0 ∧ e.timestamp < s.cutoffOf e.streamId := by
  unfold Old cutoffOf
  split
  · omega
  · omega

theorem visit_passes (hx : x.resolved = s.resolved) (he : ¬ s.Stops e) : visit s.cutoffTs x e = x := by
  unfold visit
  rw [hx, resolved_get]
  by_cases hslot : e.streamId < s.streamSlots
  · rw [if_pos hslot]
    cases hskip : s.skipped e.streamId with
    | true => rfl
    | false =>
      have hold : s.Old e := by
        by_contra hnot
        exact he ⟨hskip, hnot⟩
      obtain ⟨hcut, hts⟩ := old_iff.1 hold
      simp only [cutoffTs_getD hslot, if_neg hcut]
      rw [if_neg (by omega)]
  · -- a stream without retention is never skipped, and nothing of it expires
    have hage := maxAge_of_slots (Nat.le_of_not_lt hslot)
    refine absurd ⟨?_, ?_⟩ he
    · unfold skipped
      rw [hage]
      rfl
    · unfold Old
      omega

theorem visit_stops (hx : x.resolved = s.resolved) (hzero : x.minValidSeq = 0) (he : s.Stops e) :
    (visit s.cutoffTs x e).minValidSeq = e.seq := by
  obtain ⟨hskip, hnot⟩ := he
  unfold visit constrain
  rw [hx, resolved_get]
  by_cases hslot : e.streamId < s.streamSlots
  · rw [if_pos hslot, hskip]
    simp only [cutoffTs_getD hslot]
    rw [old_iff] at hnot
    by_cases hcut : s.cutoffOf e.streamId = 0
    · simp [hcut, hzero]
    · have hfresh : s.cutoffOf e.streamId ≤ e.timestamp := by
        by_contra hlt
        exact hnot ⟨hcut, by omega⟩
      simp [hcut, hfresh, hzero]
  · simp [hslot, hzero]

theorem visit_later (hpos : x.minValidSeq ≠ 0) (hlater : x.minValidSeq < e.seq) :
    (visit cutoffTs x e).minValidSeq = x.minValidSeq := by
  have hkeep : ∀ y : EvictWalk, y.minValidSeq = x.minValidSeq → (y.constrain e.seq).minValidSeq = x.minValidSeq := by
    intro y hy
    unfold constrain
    rw [if_neg (by omega)]
    exact hy
  unfold visit
  split
  · exact hkeep x rfl
  · rfl
  simp only
  split
  · exact hkeep _ rfl
  · split
    · exact hkeep _ rfl
    · rfl

theorem walk_later (hpos : x.minValidSeq ≠ 0) (hlater : ∀ e ∈ l, x.minValidSeq < e.seq) :
    (l.foldl (visit cutoffTs) x).minValidSeq = x.minValidSeq := by
  induction l generalizing x with
  | nil => rfl
  | cons e l ih =>
    have hone : (visit cutoffTs x e).minValidSeq = x.minValidSeq := visit_later hpos (hlater e mem_cons_self)
    have hrest := ih (x := visit cutoffTs x e) (by rw [hone]; exact hpos)
      (by rw [hone]; exact fun e' he' => hlater e' (mem_cons_of_mem _ he'))
    rw [foldl_cons, hrest, hone]

/-- **The walk ends with the seq of the first entry that stops it**, or with 0. -/
theorem walk_spec (hx : x.resolved = s.resolved) (hzero : x.minValidSeq = 0)
    (hsorted : l.Pairwise (·.seq < ·.seq)) (hpos : ∀ e ∈ l, 0 < e.seq) :
    ((∀ e ∈ l, ¬ s.Stops e) ∧ (l.foldl (visit s.cutoffTs) x).minValidSeq = 0) ∨ ∃ e ∈ l, s.Stops e ∧
    (l.foldl (visit s.cutoffTs) x).minValidSeq = e.seq ∧ ∀ e' ∈ l, s.Stops e' → e.seq ≤ e'.seq := by
  induction l generalizing x with
  | nil => exact .inl ⟨nofun, hzero⟩
  | cons e l ih =>
    obtain ⟨hhead, htail⟩ := pairwise_cons.1 hsorted
    by_cases he : s.Stops e
    · have hstop := visit_stops hx hzero he
      have hseq : e.seq ≠ 0 := ne_of_gt (hpos e mem_cons_self)
      have hrest : (l.foldl (visit s.cutoffTs) (visit s.cutoffTs x e)).minValidSeq =
          (visit s.cutoffTs x e).minValidSeq :=
        walk_later l (by rw [hstop]; exact hseq) (by rw [hstop]; exact hhead)
      exact .inr ⟨e, mem_cons_self, he, by rw [foldl_cons, hrest, hstop],
        forall_mem_cons.2 ⟨fun _ => le_refl _, fun e' hin _ => le_of_lt (hhead e' hin)⟩⟩
    rw [foldl_cons, visit_passes hx he]
    rcases ih hx hzero htail (fun e' he' => hpos e' (mem_cons_of_mem _ he')) with
      ⟨hnone, hval⟩ | ⟨e₀, hin, hstop, hval, hleast⟩
    · exact .inl ⟨forall_mem_cons.2 ⟨he, hnone⟩, hval⟩
    · exact .inr ⟨e₀, mem_cons_of_mem _ hin, hstop, hval, forall_mem_cons.2 ⟨fun hstop' => absurd hstop' he, hleast⟩⟩

/-! ## A call -/

/-- The walk meets the entry. -/
def Seen (s : Evictor) (e : StoreEntry) : Prop :=
  e ∈ s.store.index ∧ s.walkStart ≤ e.seq ∧ e.seq < s.walkEnd

/-- **The entries that are still valid lie behind one that stops the walk**, if any does. -/
def Covered (s : Evictor) : Prop :=
  s.hasAgeStreams = true → ∀ e ∈ s.store.index, ¬ s.Old e → (∃ b, s.Seen b ∧ s.Stops b) →
    ∃ b, s.Seen b ∧ s.Stops b ∧ b.seq ≤ e.seq

/-- What a step takes out of the journal is expired. -/
def OnlyExpired (s : Evictor) (a : Action) : Prop :=
  ∀ e ∈ s.store.index, e ∉ (s.step a).store.index → s.Old e

theorem mem_window (h : s.store.OK) : e ∈ s.store.forEach s.walkStart s.walkEnd ↔ s.Seen e := by
  rw [h.forEach_eq, mem_filter, Bool.and_eq_true, decide_eq_true_eq, decide_eq_true_eq]
  rfl

/-- **What a call does to the journal**: nothing, or it cuts at the first entry that stops
the walk. -/
theorem evictExpired_store (h : s.store.Gapless) : (s.evictExpired.store = s.store ∧
      (s.hasAgeStreams = true → ∀ b, s.Seen b → s.Stops b → ∃ b', s.Seen b' ∧ s.Stops b' ∧ b'.seq ≤ s.store.firstSeq)) ∨
      s.hasAgeStreams = true ∧ ∃ b, s.Seen b ∧ s.Stops b ∧ s.store.firstSeq < b.seq ∧
        (∀ b', s.Seen b' → s.Stops b' → b.seq ≤ b'.seq) ∧
        s.evictExpired.store =
          { s.store with index := s.store.index.drop (b.seq - s.store.firstSeq), firstSeq := b.seq } := by
  unfold evictExpired
  cases hage : s.hasAgeStreams with
  | false => exact .inl ⟨rfl, nofun⟩
  | true =>
    cases hempty : s.store.index.isEmpty with
    | true =>
      refine .inl ⟨rfl, fun _ b hb _ => ?_⟩
      have hin := hb.1
      rw [isEmpty_iff.1 hempty] at hin
      cases hin
    | false =>
      simp only [Bool.not_true, Bool.or_false, Bool.false_eq_true, if_false]
      have hok := h.ok
      have hsorted : (s.store.forEach s.walkStart s.walkEnd).Pairwise (·.seq < ·.seq) := by
        rw [hok.forEach_eq]
        exact hok.sorted.filter _
      have hpos : ∀ e ∈ s.store.forEach s.walkStart s.walkEnd, 0 < e.seq := by
        intro e he
        have hbound := hok.within e ((mem_window hok).1 he).1
        have hfront := hok.front
        omega
      have hwalk := walk_spec (s := s) _ (x := { resolved := s.resolved }) rfl rfl hsorted hpos
      change _ ∧ s.walk.minValidSeq = 0 ∨ ∃ e ∈ _, _ ∧ s.walk.minValidSeq = _ ∧ _ at hwalk
      rcases hwalk with ⟨hnone, hzero⟩ | ⟨b, hin, hstop, hval, hleast⟩
      · left
        rw [hzero, if_neg (not_lt_zero _)]
        refine ⟨by split <;> rfl, fun _ b hb hstop => ?_⟩
        exact absurd hstop (hnone b ((mem_window hok).2 hb))
      have hseen := (mem_window hok).1 hin
      rw [hval]
      by_cases hpast : s.store.firstSeq < b.seq
      · right
        rw [if_pos hpast]
        refine ⟨trivial, b, hseen, hstop, hpast, ?_, (h.truncateFront s.backend hseen.1 hpast).1⟩
        exact fun b' hb' hstop' => hleast b' ((mem_window hok).2 hb') hstop'
      · left
        rw [if_neg hpast]
        exact ⟨by split <;> rfl, fun _ _ _ _ => ⟨b, hseen, hstop, Nat.le_of_not_lt hpast⟩⟩

/-- **A call removes only what is expired exactly when every valid entry is covered.** -/
theorem onlyExpired_iff (h : s.store.Gapless) : s.OnlyExpired .evict ↔ s.Covered := by
  have hbound : ∀ e ∈ s.store.index, s.store.firstSeq ≤ e.seq := fun e he => (h.ok.within e he).1
  show (∀ e ∈ _, e ∉ s.evictExpired.store.index → _) ↔ _
  rcases evictExpired_store h with ⟨hsame, hfirst⟩ | ⟨hage, b, hseen, hstop, hpast, hleast, hcut⟩
  · rw [hsame]
    refine iff_of_true (fun e he hgone => absurd he hgone) ?_
    rintro hage e he - ⟨b, hb, hstop⟩
    obtain ⟨b', hb', hstop', hle⟩ := hfirst hage b hb hstop
    exact ⟨b', hb', hstop', hle.trans (hbound e he)⟩
  rw [hcut]
  have hgone : ∀ e, e ∈ s.store.index.drop (b.seq - s.store.firstSeq) ↔ e ∈ s.store.index ∧ b.seq ≤ e.seq :=
    fun e => h.mem_drop (le_of_lt hpast)
  constructor
  · intro honly _ e he hnot _
    have hkept : e ∈ s.store.index.drop (b.seq - s.store.firstSeq) := by
      by_contra hout
      exact hnot (honly e he hout)
    exact ⟨b, hseen, hstop, ((hgone e).1 hkept).2⟩
  · intro hcovered e he hout
    by_contra hnot
    obtain ⟨b', hb', hstop', hle⟩ := hcovered hage e he hnot ⟨b, hseen, hstop⟩
    exact hout ((hgone e).2 ⟨he, (hleast b' hb' hstop').trans hle⟩)

theorem gapless_step (h : s.store.Gapless) {a : Action} : (s.step a).store.Gapless := by
  cases a with
  | append entry timestamp => exact h.append entry timestamp
  | advance ms => exact h
  | evict =>
    show s.evictExpired.store.Gapless
    rcases evictExpired_store h with ⟨hsame, -⟩ | ⟨-, b, hseen, -, hpast, -, hcut⟩
    · rw [hsame]
      exact h
    · rw [hcut]
      exact h.drop (le_of_lt hpast) (le_of_lt (h.ok.within b hseen.1).2)

/-! ## Runs -/

/-- The condition a call has to meet; appends and the clock need none. -/
def Action.Covered (s : Evictor) : Action → Prop
  | .evict => s.Covered
  | _ => True

theorem onlyExpired_step_iff (h : s.store.Gapless) {a : Action} : s.OnlyExpired a ↔ a.Covered s := by
  cases a with
  | append entry timestamp =>
    exact iff_of_true (fun e he hgone => absurd (mem_append_left _ he) hgone) trivial
  | advance ms => exact iff_of_true (fun e he hgone => absurd he hgone) trivial
  | evict => exact onlyExpired_iff h

end Evictor

/-- **Evictions remove only what is expired**, in a run over a journal without gaps, exactly
when at every call the entries that are still valid are covered. -/
theorem evictions_safe_iff (as : List Action) : ∀ {s : Evictor}, s.store.Gapless →
    (Run.Guarded step OnlyExpired s as ↔
      Run.Guarded step (fun s a => a.Covered s) s as) := by
  induction as with
  | nil => intro s _; exact Iff.rfl
  | cons a as ih =>
    intro s h
    exact and_congr (onlyExpired_step_iff h) (ih (gapless_step h))

namespace SharedLog

/-- Stream 1 keeps entries for 1000 ms, stream 2 for 10 ms. -/
def retention : Map StreamId StreamRetention :=
  ((∅ : Map StreamId StreamRetention).insert 1 (⟨1000, 1⟩ : StreamRetention)).insert 2 (⟨10, 1⟩ : StreamRetention)

def start : Evictor where
  streamRetention := retention
  backend := .memory
  store := {}
  nowMs := 2000

theorem start_gapless : start.store.Gapless := ⟨one_pos, nofun, rfl⟩

/-- Two entries of stream 2, the first of them expired when the call comes. -/
def shortRun : List Action :=
  [.append ⟨2, [120], [1], 0⟩ 2000, .advance 50, .append ⟨2, [120], [2], 0⟩ 2050, .advance 5, .evict]

/-- The first call of a run walks everything. -/
theorem shortRun_safe : Run.Guarded step OnlyExpired start shortRun ∧
    (shortRun.foldl step start).store.index.map StoreEntry.seq = [2] := by
  refine ⟨(evictions_safe_iff shortRun start_gapless).2 ⟨trivial, trivial, trivial, trivial, ?_, trivial⟩, by decide⟩
  intro _ e he hnot _
  refine ⟨e, ⟨he, ?_⟩, ⟨Bool.and_false _, hnot⟩, Nat.le_refl _⟩
  rcases mem_cons.1 he with rfl | he
  · decide
  · rw [mem_singleton.1 he]
    decide

/-- One entry of each stream; a call that finds both valid; a later entry of stream 2; and
a call when the first entry has expired. -/
def twoCalls : List Action :=
  [.append ⟨2, [120], [1], 0⟩ 2000, .append ⟨1, [120], [2], 0⟩ 2000, .advance 5, .evict,
    .append ⟨2, [120], [3], 0⟩ 2050, .advance 50, .evict]

/-- A memory store from which the middle one of three entries was drained. -/
def drained : Evictor where
  streamRetention := retention
  backend := .memory
  store := (((({} : Journal).append ⟨2, [120], [1], 0⟩ 2000).append ⟨1, [121], [2], 0⟩ 2000).append
    ⟨2, [120], [3], 0⟩ 2050).drain .memory 1 [121]
  nowMs := 2055

/-- **Valid entries are evicted**: the second call of the run skips stream 1, whose entry it
remembers to be valid, and truncates past it; and in the drained store the truncation counts
one entry too many. -/
theorem valid_entries_evicted :
    ¬ Run.Guarded step OnlyExpired start twoCalls ∧
      ¬ Run.Guarded step OnlyExpired drained [.evict] := by
  constructor
  · rintro ⟨-, -, -, -, -, -, hlast, -⟩
    have hold := hlast ⟨2, 1, 2000, [120], [2], 0⟩ (by decide) (by decide)
    exact absurd hold.2 (by decide)
  · rintro ⟨hcall, -⟩
    have hold := hcall ⟨3, 2, 2050, [120], [3], 0⟩ (by decide) (by decide)
    exact absurd hold.2 (by decide)

end SharedLog

end Arbitro
