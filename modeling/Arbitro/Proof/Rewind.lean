import Arbitro.Shard.Cursor
import Arbitro.Proof.Turn
import Arbitro.Lib.Run

/-!
# Rewinds survive the race on the cursor

* `OK.step`: every seq a rewind covers and no walk has visited since is below a
  pending signal or on the drain's course.
* `rewinds_are_walked`: while no store of `rewind_released` raises the cursor, every
  rewind is followed by a walk that starts at or below it, and the cursor passes a seq
  that is still owed only under a pending signal.
-/

namespace Arbitro

open SharedCounters List Option

namespace CursorRace

variable {wh : WireHash} {cfg : DrainConfig} {snaps : ℕ → DrainSnapshot} {s : CursorRace} {a : CursorAction} {q : ℕ}
  {as : List CursorAction}

/-- What a step that does something does. -/
inductive Fires (wh : WireHash) (cfg : DrainConfig) (snaps : ℕ → DrainSnapshot) (s : CursorRace) :
    CursorAction → CursorRace → Prop
  | takeNone (hd : s.drain = .top) (hw : s.counters.rewind = noRewind) :
      Fires wh cfg snaps s .takeRewind { s with drain := .ready }
  | takeSome (hd : s.drain = .top) (hw : s.counters.rewind ≠ noRewind) :
      Fires wh cfg snaps s .takeRewind
        { s with counters := { s.counters with rewind := noRewind }, drain := .taken s.counters.rewind }
  | loadCursor {rw : ℕ} (hd : s.drain = .taken rw) :
      Fires wh cfg snaps s .loadCursor { s with drain := .applying rw s.counters.cursor }
  | rewound {rw cur : ℕ} (hd : s.drain = .applying rw cur) (hlt : 0 < rw ∧ rw - 1 < cur) :
      Fires wh cfg snaps s .storeRewind { s with counters := s.counters.setCursor (rw - 1), drain := .ready }
  | alreadyBehind {rw cur : ℕ} (hd : s.drain = .applying rw cur) (hlt : ¬ (0 < rw ∧ rw - 1 < cur)) :
      Fires wh cfg snaps s .storeRewind { s with drain := .ready }
  | readCursor (c : Cycle) (hd : s.drain = .ready) :
      Fires wh cfg snaps s (.readCursor c) { s with drain := .loaded { c with cursor := s.counters.cursor } }
  | idle {c : Cycle} (hd : s.drain = .loaded c) (hr : s.memory.cycle wh cfg snaps c = none) :
      Fires wh cfg snaps s .walk { s with memory := s.memory.next wh cfg snaps c, drain := .top }
  | walk {c : Cycle} {r : CycleResult} (hd : s.drain = .loaded c) (hr : s.memory.cycle wh cfg snaps c = some r) :
      Fires wh cfg snaps s .walk
        { s with
          memory := s.memory.next wh cfg snaps c
          drain := .walked r
          owing := fun q => s.owing q && !(decide (r.read.start ≤ q) && decide (q < r.read.stop)) }
  | advance {r : CycleResult} (hd : s.drain = .walked r) :
      Fires wh cfg snaps s .advance { s with counters := s.counters.setCursor r.cursor, drain := .top }
  | call {m : ℕ} (hc : s.command = .idle) (hm : 0 < m) :
      Fires wh cfg snaps s (.call m) { s with command := .loaded m s.counters.cursor }
  | released {m cur : ℕ} (hc : s.command = .loaded m cur) (hlt : m - 1 < cur) :
      Fires wh cfg snaps s .storeReleased
        { s with counters := s.counters.setCursor (m - 1), command := .stored m }
  | unmoved {m cur : ℕ} (hc : s.command = .loaded m cur) (hlt : ¬ m - 1 < cur) :
      Fires wh cfg snaps s .storeReleased { s with command := .stored m }
  | signal {m : ℕ} (hc : s.command = .stored m) :
      Fires wh cfg snaps s .signal
        { s with
          counters := s.counters.signalRewind m
          command := .idle
          owing := fun q => s.owing q || decide (m ≤ q) }

theorem step_cases (wh : WireHash) (cfg : DrainConfig) (snaps : ℕ → DrainSnapshot) (s : CursorRace) (a : CursorAction) :
    (s.step wh cfg snaps a = s ∧ s.walkStart wh cfg snaps a = none) ∨ Fires wh cfg snaps s a (s.step wh cfg snaps a) := by
  cases a with
  | takeRewind =>
    cases hd : s.drain <;> simp only [step, drainStep, hd, walkStart, and_self, true_or]
    by_cases hw : s.counters.rewind = noRewind
    · have hsame : ({ s.counters with rewind := noRewind } : SharedCounters) = s.counters := by rw [← hw]
      simp only [takeRewind, hw, if_pos, hsame]
      exact .inr (.takeNone hd hw)
    · simp only [takeRewind, hw, if_false]
      exact .inr (.takeSome hd hw)
  | loadCursor =>
    cases hd : s.drain <;> simp only [step, drainStep, hd, walkStart, and_self, true_or]
    exact .inr (.loadCursor hd)
  | storeRewind =>
    cases hd : s.drain <;> simp only [step, drainStep, hd, walkStart, and_self, true_or]
    case applying rw cur =>
    by_cases hlt : 0 < rw ∧ rw - 1 < cur
    · rw [if_pos hlt]; exact .inr (.rewound hd hlt)
    · rw [if_neg hlt]; exact .inr (.alreadyBehind hd hlt)
  | readCursor c =>
    cases hd : s.drain <;> simp only [step, drainStep, hd, walkStart, and_self, true_or]
    exact .inr (.readCursor c hd)
  | walk =>
    cases hd : s.drain <;> simp only [step, drainStep, hd, walkStart, and_self, true_or]
    case loaded c =>
    cases hr : s.memory.cycle wh cfg snaps c with
    | none => exact .inr (.idle hd hr)
    | some r => exact .inr (.walk hd hr)
  | advance =>
    cases hd : s.drain <;> simp only [step, drainStep, hd, walkStart, and_self, true_or]
    exact .inr (.advance hd)
  | call m =>
    cases hc : s.command <;> simp only [step, commandStep, hc, walkStart, and_self, true_or]
    by_cases hm : m = 0
    · rw [if_pos hm]; exact .inl ⟨rfl, trivial⟩
    · rw [if_neg hm]; exact .inr (.call hc (Nat.pos_of_ne_zero hm))
  | storeReleased =>
    cases hc : s.command <;> simp only [step, commandStep, hc, walkStart, and_self, true_or]
    case loaded m cur =>
    by_cases hlt : m - 1 < cur
    · rw [if_pos hlt]; exact .inr (.released hc hlt)
    · rw [if_neg hlt]; exact .inr (.unmoved hc hlt)
  | signal =>
    cases hc : s.command <;> simp only [step, commandStep, hc, walkStart, and_self, true_or]
    exact .inr (.signal hc)

/-! ## The invariant -/

/-- The walk of the current cycle, or of the next one, starts at or below `q`. -/
def OnCourse (s : CursorRace) (q : ℕ) : Prop :=
  match s.drain with
  | .top | .ready => s.counters.cursor < q
  | .taken rw => rw ≤ q ∨ s.counters.cursor < q
  | .applying rw cur => rw ≤ q ∨ cur < q
  | .loaded c => c.cursor < q
  | .walked r => r.cursor < q

/-- What the tasks hold in their program counters. While a drain is between a load and the
step that uses it, the cursor can only have gone down. -/
structure Locals (s : CursorRace) : Prop where
  rewind : 0 < s.counters.rewind
  taken : ∀ {rw}, s.drain = .taken rw → 0 < rw
  applying : ∀ {rw cur}, s.drain = .applying rw cur → 0 < rw ∧ s.counters.cursor ≤ cur
  loaded : ∀ {c}, s.drain = .loaded c → s.counters.cursor ≤ c.cursor
  called : ∀ {m cur}, s.command = .loaded m cur → 0 < m
  stored : ∀ {m}, s.command = .stored m → 0 < m

structure OK (s : CursorRace) : Prop where
  locals : s.Locals
  kept : ∀ {q}, s.owing q = true → s.counters.rewind ≤ q ∨ s.OnCourse q

theorem Lowers.released {m cur : ℕ} (hl : s.Lowers .storeReleased) (hc : s.command = .loaded m cur)
    (hlt : m - 1 < cur) : m - 1 ≤ s.counters.cursor := by
  simp only [Lowers, hc] at hl
  exact hl hlt

theorem walked_window {m : Memory} {c : Cycle} {r : CycleResult} (hr : m.cycle wh cfg snaps c = some r) :
    r.read.start = c.cursor + 1 ∧ r.cursor < r.read.stop := by
  obtain ⟨-, -, hread⟩ := cycle_some hr
  have hb := (cycle_bounds hr).2
  rw [hread]
  exact ⟨rfl, hb⟩

/-- A drain on course for `q` stays on course until it walks from `q` or below. -/
theorem OnCourse.step (h : s.OnCourse q) (hs : s.Locals) (hl : s.Lowers a) :
    (∃ x, s.walkStart wh cfg snaps a = some x ∧ x ≤ q) ∨
      (s.walkStart wh cfg snaps a = none ∧ (s.step wh cfg snaps a).OnCourse q) := by
  rcases step_cases wh cfg snaps s a with ⟨heq, hnone⟩ | hf
  · rw [heq]; exact .inr ⟨hnone, h⟩
  generalize hs' : s.step wh cfg snaps a = s' at hf ⊢
  cases hf with
  | takeNone hd | loadCursor hd | readCursor c hd | advance hd =>
    simp only [OnCourse, hd] at h
    exact .inr ⟨rfl, h⟩
  | takeSome hd hw =>
    simp only [OnCourse, hd] at h
    exact .inr ⟨rfl, .inr h⟩
  | rewound hd hlt =>
    simp only [OnCourse, hd] at h
    refine .inr ⟨rfl, ?_⟩
    simp only [OnCourse, setCursor]
    omega
  | @alreadyBehind rw cur hd hlt =>
    simp only [OnCourse, hd] at h
    have hcur := hs.applying hd
    refine .inr ⟨rfl, ?_⟩
    simp only [OnCourse]
    omega
  | idle hd hr =>
    simp only [OnCourse, hd] at h
    have hcur := hs.loaded hd
    refine .inr ⟨by simp only [walkStart, hd, hr, map_none], ?_⟩
    simp only [OnCourse]
    omega
  | @walk c r hd hr =>
    simp only [OnCourse, hd] at h
    have hstart := (walked_window hr).1
    exact .inl ⟨r.read.start, by simp only [walkStart, hd, hr, map_some], by omega⟩
  | released hc hlt =>
    have hle := hl.released hc hlt
    refine .inr ⟨rfl, ?_⟩
    unfold OnCourse at h ⊢
    simp only [setCursor]
    split <;> simp_all only <;> omega
  | _ => exact .inr ⟨rfl, h⟩

theorem pending_step (h : s.counters.rewind ≤ q) :
    (s.step wh cfg snaps a).counters.rewind ≤ q ∨ (s.step wh cfg snaps a).OnCourse q := by
  rcases step_cases wh cfg snaps s a with ⟨heq, -⟩ | hf
  · rw [heq]; exact .inl h
  generalize s.step wh cfg snaps a = s' at hf ⊢
  cases hf with
  | takeSome hd hw => exact .inr (.inl h)
  | signal hc => exact .inl ((Nat.min_le_left _ _).trans h)
  | _ => exact .inl h

theorem beyond_window {x : ℕ} (hx : s.walkStart wh cfg snaps a = some x) (hle : x ≤ q)
    (hq : (s.step wh cfg snaps a).owing q = true) : (s.step wh cfg snaps a).OnCourse q := by
  rcases step_cases wh cfg snaps s a with ⟨-, hnone⟩ | hf
  · rw [hnone] at hx; cases hx
  generalize s.step wh cfg snaps a = s' at hf hq ⊢
  cases hf with
  | idle hd hr => simp only [walkStart, hd, hr, map_none, reduceCtorEq] at hx
  | @walk c r hd hr =>
    simp only [walkStart, hd, hr, map_some, some.injEq] at hx
    simp only [Bool.and_eq_true, Bool.not_eq_true', Bool.and_eq_false_iff, decide_eq_false_iff_not] at hq
    have hstop := (walked_window hr).2
    simp only [OnCourse]
    omega
  | _ => cases hx

theorem owing_new (h : s.owing q = false) (hq : (s.step wh cfg snaps a).owing q = true) :
    (s.step wh cfg snaps a).counters.rewind ≤ q := by
  rcases step_cases wh cfg snaps s a with ⟨heq, -⟩ | hf
  · rw [heq, h] at hq; cases hq
  generalize s.step wh cfg snaps a = s' at hf hq ⊢
  cases hf with
  | walk hd hr => simp only [h, Bool.false_and, Bool.false_eq_true] at hq
  | signal hc =>
    simp only [h, Bool.false_or, decide_eq_true_eq] at hq
    exact (Nat.min_le_right _ _).trans hq
  | _ => rw [h] at hq; cases hq

theorem Locals.step (hs : s.Locals) (hl : s.Lowers a) : (s.step wh cfg snaps a).Locals := by
  rcases step_cases wh cfg snaps s a with ⟨heq, -⟩ | hf
  · rw [heq]; exact hs
  generalize s.step wh cfg snaps a = s' at hf ⊢
  obtain ⟨hw, ht, ha, hld, hcl, hst⟩ := hs
  have hno : 0 < noRewind := Nat.sub_pos_of_lt (Nat.one_lt_two_pow (by decide))
  cases hf with
  | takeSome hd _ => exact ⟨hno, fun h => by cases h; exact hw, nofun, nofun, hcl, hst⟩
  | loadCursor hd => exact ⟨hw, nofun, fun h => by cases h; exact ⟨ht hd, le_rfl⟩, nofun, hcl, hst⟩
  | readCursor c hd => exact ⟨hw, nofun, nofun, fun h => by cases h; exact le_rfl, hcl, hst⟩
  | call hc hm => exact ⟨hw, ht, ha, hld, fun h => by cases h; exact hm, nofun⟩
  | released hc hlt =>
    -- the guard: the store only lowers the cursor under a load the drain still holds
    have hle := hl.released hc hlt
    exact ⟨hw, ht, fun h => ⟨(ha h).1, hle.trans (ha h).2⟩, fun h => hle.trans (hld h), nofun,
      fun h => by cases h; exact hcl hc⟩
  | unmoved hc hlt => exact ⟨hw, ht, ha, hld, nofun, fun h => by cases h; exact hcl hc⟩
  | signal hc => exact ⟨Nat.lt_min.2 ⟨hw, hst hc⟩, ht, ha, hld, nofun, nofun⟩
  | _ => exact ⟨hw, nofun, nofun, nofun, hcl, hst⟩

theorem start_ok {counters : SharedCounters} {memory : Memory} : (start counters memory).OK where
  locals := ⟨Nat.sub_pos_of_lt (Nat.one_lt_two_pow (by decide)), nofun, nofun, nofun, nofun, nofun⟩
  kept h := nomatch h

/-- **What a rewind covers is kept**: a seq that is still owed is under a pending signal, or
the drain is on course for it. -/
theorem OK.step (hs : s.OK) (hl : s.Lowers a) : (s.step wh cfg snaps a).OK := by
  refine ⟨hs.locals.step hl, fun {q} hq => ?_⟩
  cases hold : s.owing q with
  | false => exact .inl (owing_new hold hq)
  | true =>
    rcases hs.kept hold with hp | ho
    · exact pending_step hp
    · rcases ho.step hs.locals hl with ⟨x, hx, hle⟩ | ⟨-, h⟩
      · exact .inr (beyond_window hx hle hq)
      · exact .inr h

/-- The store of a drain step passes a seq that is owed only under a pending signal. -/
theorem OK.pending_of_passes (hs : s.OK) (hl : s.Lowers a) (h : s.Passes wh cfg snaps a q) :
    (s.step wh cfg snaps a).counters.rewind ≤ q := by
  obtain ⟨ho, hlt, hle⟩ := h
  have hk := hs.kept ho
  rcases step_cases wh cfg snaps s a with ⟨heq, -⟩ | hf
  · rw [heq] at hle; omega
  generalize s.step wh cfg snaps a = s' at hf hle ⊢
  cases hf with
  | rewound hd | advance hd =>
    simp only [OnCourse, hd] at hk
    simp only [setCursor] at hle ⊢
    omega
  | released hc hr =>
    have hlow := hl.released hc hr
    simp only [setCursor] at hle
    omega
  | signal hc => exact absurd hle (by simp only [signalRewind]; omega)
  | _ => exact absurd hle (by simp only; omega)

/-! ## Runs -/

theorem walks_append (as bs : List CursorAction) : s.walks wh cfg snaps (as ++ bs) =
    s.walks wh cfg snaps as ++ (as.foldl (step wh cfg snaps) s).walks wh cfg snaps bs := by
  induction as generalizing s with
  | nil => rfl
  | cons a as ih => simp only [cons_append, walks, ih, foldl_cons, append_assoc]

/-- The first walk of a run that starts on course for `q` starts at or below `q`. -/
theorem OnCourse.run (ho : s.OnCourse q) (hs : s.Locals)
    (hg : Run.Guarded (CursorRace.step wh cfg snaps) Lowers s as) : (∃ x ∈ s.walks wh cfg snaps as, x ≤ q) ∨
    (s.walks wh cfg snaps as = [] ∧ (as.foldl (CursorRace.step wh cfg snaps) s).OnCourse q) := by
  induction as generalizing s with
  | nil => exact .inr ⟨rfl, ho⟩
  | cons a as ih =>
    rcases ho.step hs hg.1 with ⟨x, hx, hle⟩ | ⟨hnone, ho'⟩
    · refine .inl ⟨x, ?_, hle⟩
      rw [walks, hx]
      exact mem_cons_self
    · have hwalks : s.walks wh cfg snaps (a :: as) = (s.step wh cfg snaps a).walks wh cfg snaps as := by
        rw [walks, hnone]; rfl
      rw [hwalks]
      exact ih ho' (hs.step hg.1) hg.2

/-- A run that starts under a signal at or below `q` walks from `q` or below, or ends on
course for it or with the signal still pending. -/
theorem pending_run (hp : s.counters.rewind ≤ q) (hs : s.Locals)
    (hg : Run.Guarded (step wh cfg snaps) Lowers s as) : (∃ x ∈ s.walks wh cfg snaps as, x ≤ q) ∨
    (as.foldl (step wh cfg snaps) s).counters.rewind ≤ q ∨ (as.foldl (step wh cfg snaps) s).OnCourse q := by
  induction as generalizing s with
  | nil => exact .inr (.inl hp)
  | cons a as ih =>
    have hsub : ∀ x ∈ (s.step wh cfg snaps a).walks wh cfg snaps as, x ∈ s.walks wh cfg snaps (a :: as) :=
      fun x hx => mem_append_right _ hx
    have hnext : (s.step wh cfg snaps a).counters.rewind ≤ q ∨ (s.step wh cfg snaps a).OnCourse q := pending_step hp
    rcases hnext with hp' | ho
    · rcases ih hp' (hs.step hg.1) hg.2 with ⟨x, hx, hle⟩ | h
      · exact .inl ⟨x, hsub x hx, hle⟩
      · exact .inr h
    · rcases ho.run (hs.step hg.1) hg.2 with ⟨x, hx, hle⟩ | ⟨-, h⟩
      · exact .inl ⟨x, hsub x hx, hle⟩
      · exact .inr (.inr h)

/-- The `take_rewind` of a cycle turns a pending signal into the course of that cycle. -/
theorem take_onCourse (hd : s.drain = .top) (hq : q < noRewind)
    (h : s.counters.rewind ≤ q ∨ s.OnCourse q) : (s.step wh cfg snaps .takeRewind).OnCourse q := by
  by_cases hw : s.counters.rewind = noRewind
  · have ho := h.resolve_left (by omega)
    simpa only [step, drainStep, hd, takeRewind, hw, if_pos, OnCourse] using ho
  · simp only [OnCourse, hd] at h
    simpa only [step, drainStep, hd, takeRewind, hw, if_false, OnCourse] using h

/-- Under a signal at or below `m`, a cycle that begins and walks is enough for some walk to
start at or below `m`. -/
theorem walk_of_pending {m : ℕ} {mid post : List CursorAction} (hs : s.Locals) (hp : s.counters.rewind ≤ m)
    (hm : m < noRewind) (hg : Run.Guarded (step wh cfg snaps) Lowers s (mid ++ .takeRewind :: post))
    (hd : (mid.foldl (step wh cfg snaps) s).drain = .top)
    (hne : ((mid.foldl (step wh cfg snaps) s).step wh cfg snaps .takeRewind).walks wh cfg snaps post ≠ []) :
    ∃ x ∈ s.walks wh cfg snaps (mid ++ .takeRewind :: post), x ≤ m := by
  obtain ⟨hmid, htake⟩ := Run.guarded_append.1 hg
  have hs' : (mid.foldl (step wh cfg snaps) s).Locals := Run.invariant (fun _ _ hs hl => hs.step hl) mid s hs hmid
  rw [walks_append]
  rcases pending_run hp hs hmid with ⟨x, hx, hle⟩ | hcourse
  · exact ⟨x, mem_append_left _ hx, hle⟩
  have ho : ((mid.foldl (step wh cfg snaps) s).step wh cfg snaps .takeRewind).OnCourse m := take_onCourse hd hm hcourse
  rcases ho.run (hs'.step htake.1) htake.2 with ⟨x, hx, hle⟩ | ⟨hnone, -⟩
  · exact ⟨x, mem_append_right _ (mem_append_right _ hx), hle⟩
  · exact absurd hnone hne

/-- The state after a run from rest. -/
def after (wh : WireHash) (cfg : DrainConfig) (snaps : ℕ → DrainSnapshot) (counters : SharedCounters)
    (memory : Memory) (as : List CursorAction) : CursorRace :=
  as.foldl (step wh cfg snaps) (start counters memory)

/-- **Rewinds are walked.** In every interleaving in which no store of `rewind_released`
raises the cursor:

* a step that moves the cursor forward over a seq an earlier rewind covers and no walk
  has visited since leaves a signal at or below that seq pending;
* once `rewind_released` to `m` has returned and a cycle that began after it has walked,
  some walk since the return started at or below `m`. -/
theorem rewinds_are_walked (counters : SharedCounters) (memory : Memory) {as : List CursorAction}
    (h : Run.Guarded (step wh cfg snaps) Lowers (start counters memory) as) :
    (∀ pre a post q, as = pre ++ a :: post → (after wh cfg snaps counters memory pre).Passes wh cfg snaps a q →
      (after wh cfg snaps counters memory (pre ++ [a])).counters.rewind ≤ q) ∧
    (∀ pre mid post m, as = pre ++ .signal :: (mid ++ .takeRewind :: post) →
      (after wh cfg snaps counters memory pre).command = .stored m → m < noRewind →
      (after wh cfg snaps counters memory (pre ++ .signal :: mid)).drain = .top →
      (after wh cfg snaps counters memory (pre ++ .signal :: (mid ++ [.takeRewind]))).walks wh cfg snaps post ≠ [] →
      ∃ x ∈ (after wh cfg snaps counters memory (pre ++ [.signal])).walks wh cfg snaps
        (mid ++ .takeRewind :: post), x ≤ m) := by
  have hreach : ∀ pre post, as = pre ++ post → (after wh cfg snaps counters memory pre).OK ∧
      Run.Guarded (step wh cfg snaps) Lowers (after wh cfg snaps counters memory pre) post := by
    rintro pre post rfl
    obtain ⟨hpre, hpost⟩ := Run.guarded_append.1 h
    exact ⟨Run.invariant (fun _ _ hs hl => hs.step hl) pre _ start_ok hpre, hpost⟩
  constructor
  · intro pre a post q has hp
    obtain ⟨hok, hg⟩ := hreach pre (a :: post) has
    have hpend := hok.pending_of_passes hg.1 hp
    rwa [after, List.foldl_append]
  intro pre mid post m has hc hm hd hne
  obtain ⟨hok, hg⟩ := hreach pre _ has
  rw [after, List.foldl_append] at hd hne ⊢
  rw [List.foldl_cons, List.foldl_append] at hne
  have hlocals : ((after wh cfg snaps counters memory pre).step wh cfg snaps .signal).Locals :=
    hok.locals.step hg.1
  have hsignal : ((after wh cfg snaps counters memory pre).step wh cfg snaps .signal).counters.rewind ≤ m := by
    simp only [step, commandStep, hc, signalRewind]
    exact Nat.min_le_right _ _
  exact walk_of_pending hlocals hsignal hm hg.2 hd hne

instance : ∀ (s : CursorRace) (a : CursorAction), Decidable (s.Lowers a) := by
  intro s a
  unfold Lowers
  split <;> infer_instance

instance (s : CursorRace) (a : CursorAction) (q : ℕ) : Decidable (s.Passes wh cfg snaps a q) :=
  inferInstanceAs (Decidable (_ ∧ _ ∧ _))

end CursorRace

namespace StaleStore

open CursorRace

def snaps : ℕ → DrainSnapshot := fun _ => .rebuild [] [] ∅

def cfg : DrainConfig := .default

def wh : WireHash := fun _ => 0

/-- A cycle over a store whose last seq is 4. -/
def cycle : Cycle :=
  ⟨0, fun _ => none, 0, true, { StoreView.empty with lastSeq := 4, bounded := nofun }, 0,
    fun _ => ⟨true, fun _ => ⟨fun _ => false, fun _ => 0, fun _ => false⟩⟩, fun _ => ⟨false, true⟩⟩

def counters : SharedCounters := { cursor := 3 }

/-- The call to rewind to 2 returns while a cycle has walked and not stored. -/
def overtaken : List CursorAction :=
  [.takeRewind, .readCursor cycle, .walk, .call 2, .storeReleased, .signal]

/-- The cycle in flight stores its cursor, and the next one takes the signal back. -/
def healed : List CursorAction :=
  [.advance, .takeRewind, .loadCursor, .storeRewind, .readCursor cycle, .walk]

theorem rewind_walked : Run.Guarded (step wh cfg snaps) Lowers (start counters {}) (overtaken ++ healed) ∧
    ∃ x ∈ (after wh cfg snaps counters {} overtaken).walks wh cfg snaps healed, x ≤ 2 := by
  have h : Run.Guarded (step wh cfg snaps) Lowers (start counters {}) (overtaken ++ healed) := by decide
  exact ⟨h, (rewinds_are_walked counters {} h).2
    [.takeRewind, .readCursor cycle, .walk, .call 2, .storeReleased] [.advance]
    [.loadCursor, .storeRewind, .readCursor cycle, .walk] 2 rfl rfl (by decide) rfl (by decide)⟩

/-- A second call, to 3, loads the cursor before the next cycle applies the first rewind
and stores after it. -/
def stale : List CursorAction :=
  [.advance, .call 3, .takeRewind, .loadCursor, .storeRewind, .storeReleased, .readCursor cycle, .walk, .advance,
    .signal]

/-- **The cursor does pass what a rewind covers.** The cycle in flight stores 4 over the
rewind to 2, with the signal left to bring it back. A second call with a stale load then
stores 2 over the cursor 1 the next cycle has just set: the walk starts at 3, and no signal
for seq 2 is left. -/
theorem stale_store_passes :
    ((after wh cfg snaps counters {} overtaken).Passes wh cfg snaps .advance 2 ∧
      (after wh cfg snaps counters {} (overtaken ++ [.advance])).counters.rewind = 2) ∧
    (after wh cfg snaps counters {} overtaken).walks wh cfg snaps stale = [3] ∧
    (after wh cfg snaps counters {} (overtaken ++ stale)).owing 2 = true ∧
    (after wh cfg snaps counters {} (overtaken ++ stale)).counters.rewind = 3 ∧
    (after wh cfg snaps counters {} (overtaken ++ stale)).counters.cursor = 4 := by
  decide

end StaleStore

end Arbitro
