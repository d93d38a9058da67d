import Arbitro.Shard.System
import Arbitro.Proof.Publish

/-!
# Steps of a shard

What one step of either task does to the state they share.

* `Shard.command_eq`: the command task appends to the event ring and to the snapshots,
  and applies its effects to the counters.
* `Shard.command_frame`: it leaves what the drain keeps, and only lowers the cursor and
  the rewind word.
* `Shard.Sound.step`: among others, the snapshots of a shard are well formed.
-/

namespace Arbitro

open SharedCounters Signal List Worker

/-! ## Signals -/

/-- The event a signal puts on the ring. -/
def Signal.event : Signal → List DrainEvent
  | .ring e => [e]
  | .shared _ => []

/-- The effect a signal has on what is shared. -/
def Signal.effect : Signal → List Effect
  | .ring _ => []
  | .shared e => [e]

/-- The snapshot an effect publishes. -/
def Effect.snapshot : Effect → List DrainSnapshot
  | .publish snap => [snap]
  | _ => []

namespace Shard

variable {wh : WireHash} {cfg : DrainConfig} {s : Shard}

theorem applySignals_eq {sigs : List Signal} :
    sigs.foldl applySignal s =
      { s with
        events := s.events ++ sigs.flatMap event
        counters := (sigs.flatMap effect).foldl applyEffect s.counters
        snaps := s.snaps ++ (sigs.flatMap effect).flatMap Effect.snapshot } := by
  induction sigs generalizing s with
  | nil => simp
  | cons x sigs ih =>
    rw [foldl_cons, ih]
    cases x with
    | ring e => simp [applySignal, event, effect]
    | shared e => cases e <;> simp [applySignal, event, effect, Effect.snapshot, applyEffect]

/-- **What a step of the command task does.** -/
theorem command_eq (wh : WireHash) (s : Shard) (a : CommandAction) :
    s.command wh a =
      { s with
        task := s.task.next wh a
        events := s.events ++ (s.task.step wh a).2.flatMap event
        counters := ((s.task.step wh a).2.flatMap effect).foldl applyEffect s.counters
        snaps := s.snaps ++ ((s.task.step wh a).2.flatMap effect).flatMap Effect.snapshot } :=
  applySignals_eq

end Shard

/-! ## The cursor -/

namespace SharedCounters

variable (c : SharedCounters)

/-- An effect moves the cursor and the rewind word down only. -/
theorem applyEffect_lowers (e : Effect) :
    (c.applyEffect e).cursor ≤ c.cursor ∧ (c.applyEffect e).rewind ≤ c.rewind := by
  cases e with
  | rewindReleased m =>
    simp only [applyEffect, rewindReleased]
    split
    · exact ⟨le_refl _, le_refl _⟩
    · split
      · next h => exact ⟨h.le, min_le_left _ _⟩
      · exact ⟨le_refl _, min_le_left _ _⟩
  | rewindAll => exact ⟨Nat.zero_le _, min_le_left _ _⟩
  | _ => exact ⟨le_refl _, le_refl _⟩

theorem applyEffects_lowers (es : List Effect) (c : SharedCounters) :
    (es.foldl applyEffect c).cursor ≤ c.cursor ∧ (es.foldl applyEffect c).rewind ≤ c.rewind :=
  foldlRecOn es applyEffect (motive := fun d => d.cursor ≤ c.cursor ∧ d.rewind ≤ c.rewind) ⟨le_refl _, le_refl _⟩
    fun d h e _ => ⟨(d.applyEffect_lowers e).1.trans h.1, (d.applyEffect_lowers e).2.trans h.2⟩

theorem rewindReleased_bounds {m : ℕ} (hm : 0 < m) :
    (c.rewindReleased m).cursor < m ∧ (c.rewindReleased m).rewind ≤ m := by
  unfold rewindReleased
  rw [if_neg (by omega)]
  split
  · next h => exact ⟨by show m - 1 < m; omega, min_le_right _ _⟩
  · next h => exact ⟨by show c.cursor < m; omega, min_le_right _ _⟩

theorem applyRewind_bounds :
    c.applyRewind.cursor ≤ c.cursor ∧ (0 < c.rewind → c.rewind < noRewind → c.applyRewind.cursor < c.rewind) := by
  unfold applyRewind takeRewind
  by_cases h : c.rewind = noRewind
  · simp only [if_pos h]
    exact ⟨le_refl _, fun _ hlt => absurd h hlt.ne⟩
  simp only [if_neg h]
  split
  · next hlow => exact ⟨hlow.2.le, fun hpos _ => by show c.rewind - 1 < c.rewind; omega⟩
  · next hhigh =>
    refine ⟨le_refl _, fun hpos _ => ?_⟩
    show c.cursor < c.rewind
    omega

end SharedCounters

namespace Shard

variable {wh : WireHash} {cfg : DrainConfig} {s : Shard} {rest : List Work}

/-- What the command task leaves alone, and the directions of what it moves. -/
structure Frame (s s' : Shard) : Prop where
  phase : s'.phase = s.phase
  slots : s'.slots = s.slots
  memory : s'.memory = s.memory
  stalled : s'.stalled = s.stalled
  cursor : s'.counters.cursor ≤ s.counters.cursor
  rewind : s'.counters.rewind ≤ s.counters.rewind
  snaps : s.snaps <+: s'.snaps

theorem command_frame (wh : WireHash) (s : Shard) (a : CommandAction) : Frame s (s.command wh a) := by
  rw [command_eq]
  obtain ⟨hcur, hrw⟩ := applyEffects_lowers ((s.task.step wh a).2.flatMap effect) s.counters
  exact ⟨rfl, rfl, rfl, rfl, hcur, hrw, prefix_append _ _⟩

theorem work_frame (wh : WireHash) (s : Shard) : Frame s (s.work wh) := by
  have h := command_frame wh s (.work s.room s.notices.head?)
  exact ⟨h.phase, h.slots, h.memory, h.stalled, h.cursor, h.rewind, h.snaps⟩

theorem work_task (wh : WireHash) (s : Shard) : (s.work wh).task = s.task.next wh (.work s.room s.notices.head?) :=
  congrArg Shard.task (command_eq wh s (.work s.room s.notices.head?))

theorem work_effect (wh : WireHash) {e : Effect} (h : s.task.todo = .effect e :: rest) :
    (s.work wh).task.todo = rest ∧ (s.work wh).counters = s.counters.applyEffect e ∧
      (s.work wh).snaps = s.snaps ++ e.snapshot := by
  have hstep : s.task.step wh (.work s.room s.notices.head?) =
      ({ s.task with outbox := (s.task.outbox.emit s.room e).1, todo := rest },
        (s.task.outbox.emit s.room e).2.toList.map .ring ++ [.shared e]) := by
    simp only [CommandTask.step, h]
    rfl
  have hring (l : List DrainEvent) : (l.map ring).flatMap effect = [] := flatMap_eq_nil_iff.2 (by simp [effect])
  have heffects : (s.task.step wh (.work s.room s.notices.head?)).2.flatMap effect = [e] := by
    rw [hstep, flatMap_append, hring]
    rfl
  have hcommand := command_eq wh s (.work s.room s.notices.head?)
  have htask : (s.work wh).task = (s.task.step wh (.work s.room s.notices.head?)).1 := work_task wh s
  refine ⟨?_, ?_, ?_⟩
  · rw [htask, hstep]
  · show (s.command wh _).counters = _
    rw [hcommand, heffects]
    rfl
  · show (s.command wh _).snaps = _
    rw [hcommand, heffects]
    simp

/-- Between its steps the command task takes nothing up while it has something to do. -/
theorem command_busy (wh : WireHash) {x : Work} (h : s.task.todo = x :: rest) (j : Job) :
    s.command wh (.start j) = s ∧ s.command wh .loopTop = s := by
  constructor
  · unfold command CommandTask.step
    simp only [h]
    rfl
  · unfold command CommandTask.step
    simp only [h]
    rfl

/-- The drain leaves the command task, its snapshots and the books alone. -/
theorem push_frame (s : Shard) {n : DrainNotification} :
    (s.push n).task = s.task ∧ (s.push n).snaps = s.snaps ∧ (s.push n).counters = s.counters ∧
      (s.push n).memory = s.memory ∧ (s.push n).acked = s.acked ∧ (s.push n).slots = s.slots ∧
      (s.push n).events = s.events := by
  unfold push
  split <;> exact ⟨rfl, rfl, rfl, rfl, rfl, rfl, rfl⟩

theorem drainStep_frame (s : Shard) : s.drainStep.task = s.task ∧ s.drainStep.snaps = s.snaps ∧
    s.drainStep.memory = s.memory ∧ s.drainStep.acked = s.acked := by
  unfold drainStep
  split
  · exact ⟨rfl, rfl, rfl, rfl⟩
  · split <;> exact ⟨rfl, rfl, rfl, rfl⟩
  · exact ⟨rfl, rfl, rfl, rfl⟩
  · exact ⟨rfl, rfl, rfl, rfl⟩
  · exact ⟨rfl, rfl, rfl, rfl⟩
  · exact ⟨rfl, rfl, rfl, rfl⟩
  · next r dead n left _ =>
    obtain ⟨ht, hs, -, hm, ha, -, -⟩ := s.push_frame
    exact ⟨ht, hs, hm, ha⟩
  · exact ⟨rfl, rfl, rfl, rfl⟩
  · next conn left _ =>
    obtain ⟨ht, hs, -, hm, ha, -, -⟩ := s.push_frame
    exact ⟨ht, hs, hm, ha⟩
  · exact ⟨rfl, rfl, rfl, rfl⟩

theorem walk_frame (wh : WireHash) (cfg : DrainConfig) (s : Shard) {x : Surroundings} : (s.walk wh cfg x).task = s.task ∧
    (s.walk wh cfg x).snaps = s.snaps ∧ (s.walk wh cfg x).counters = s.counters ∧ (s.walk wh cfg x).acked = s.acked := by
  unfold walk
  split
  · simp only
    split <;> exact ⟨rfl, rfl, rfl, rfl⟩
  · exact ⟨rfl, rfl, rfl, rfl⟩

theorem walk_idle {s : Shard} {snapId : ℕ} {x : Surroundings} (hphase : s.phase = .loaded snapId)
    (hnone : s.memory.cycle wh cfg s.snapshots (s.cycle snapId x) = none) :
    s.walk wh cfg x = { s with memory := s.memory.next wh cfg s.snapshots (s.cycle snapId x), phase := .top } := by
  unfold walk
  simp only [hphase, hnone]

/-! ## Snapshots -/

open CommandTask (From)

variable {P : Worker → Prop}

/-- Whatever was or will be published comes from workers with the property. -/
structure Publishing (P : Worker → Prop) (s : Shard) : Prop where
  task : s.task.Publishing P
  snaps : ∀ snap ∈ s.snaps, snap = .empty ∨ From P snap

/-- A command that makes a binding leaves the property. -/
def Binding (wh : WireHash) (P : Worker → Prop) (s : Shard) : ShardAction → Prop
  | .work => ∀ j rest, s.task.todo = .job j :: rest → j.Binds → P (s.task.worker.exec wh j).1
  | _ => True

theorem Publishing.command (hP : Lasting wh P) (h : s.Publishing P) {a : CommandAction}
    (ha : s.task.Binding wh P a) : (s.command wh a).Publishing P := by
  obtain ⟨htask, hsignals⟩ := h.task.step hP ha
  rw [command_eq]
  refine ⟨htask, fun snap hs => ?_⟩
  rcases mem_append.1 hs with hs | hs
  · exact h.snaps snap hs
  right
  obtain ⟨e, he, hsnap⟩ := mem_flatMap.1 hs
  obtain ⟨sig, hsig, he⟩ := mem_flatMap.1 he
  cases sig with
  | ring _ => cases he
  | shared e' =>
    rw [mem_singleton.1 he] at hsnap
    cases e' with
    | publish snap' =>
      rw [mem_singleton.1 hsnap]
      exact hsignals snap' hsig
    | _ => cases hsnap

/-- **What a step of a shard publishes.** -/
theorem Publishing.step (hP : Lasting wh P) (h : s.Publishing P) {a : ShardAction} (ha : s.Binding wh P a) :
    (s.step wh cfg a).Publishing P := by
  cases a with
  | start j => exact h.command hP (a := .start j) trivial
  | loopTop => exact h.command hP (a := .loopTop) trivial
  | work =>
    have hc := h.command hP (a := .work s.room s.notices.head?) ha
    exact ⟨hc.task, hc.snaps⟩
  | drain =>
    obtain ⟨ht, hs, -, -⟩ := s.drainStep_frame
    exact ⟨by show s.drainStep.task.Publishing P; rw [ht]; exact h.task,
      by show ∀ snap ∈ s.drainStep.snaps, _; rw [hs]; exact h.snaps⟩
  | walk x =>
    obtain ⟨ht, hs, -, -⟩ := walk_frame wh cfg s
    exact ⟨by show (s.walk wh cfg x).task.Publishing P; rw [ht]; exact h.task,
      by show ∀ snap ∈ (s.walk wh cfg x).snaps, _; rw [hs]; exact h.snaps⟩

/-! ## Invariants of a shard -/

/-- There is a current snapshot, a loaded one exists, a rewind asks for a seq, and what
is published is well formed. -/
structure Sound (wh : WireHash) (s : Shard) : Prop where
  current : 0 < s.snaps.length
  loaded : ∀ id, s.phase = .loaded id → id < s.snaps.length
  rewind : 0 < s.counters.rewind
  publishing : s.Publishing (Worker.Filed wh)

theorem sound_boot {lastSeq : ℕ} {cursors : Map ConsumerId ℕ} : (boot lastSeq cursors).Sound wh where
  current := Nat.one_pos
  loaded := nofun
  rewind := (by decide : 0 < noRewind)
  publishing := ⟨⟨Catalog.filed_init, nofun⟩, fun snap hs => .inl (mem_singleton.1 hs)⟩

theorem binding_filed (h : s.Publishing (Filed wh)) {a : ShardAction} : s.Binding wh (Filed wh) a := by
  cases a with
  | work => exact fun j _ _ hj => h.task.worker.binds hj
  | _ => trivial

theorem applyEffect_rewind_pos {c : SharedCounters} (h : 0 < c.rewind) {e : Effect} : 0 < (c.applyEffect e).rewind := by
  cases e with
  | rewindReleased m =>
    simp only [applyEffect, rewindReleased]
    split
    · exact h
    next hm =>
    have hmin : ∀ c : SharedCounters, 0 < c.rewind → 0 < (c.signalRewind m).rewind :=
      fun c hc => lt_min hc (Nat.pos_of_ne_zero hm)
    apply hmin
    split <;> exact h
  | rewindAll => exact lt_min h Nat.one_pos
  | _ => exact h

theorem command_rewind (h : 0 < s.counters.rewind) (a : CommandAction) : 0 < (s.command wh a).counters.rewind := by
  rw [command_eq]
  exact foldlRecOn _ applyEffect (motive := (0 < ·.rewind)) h fun _ h e _ => applyEffect_rewind_pos h

theorem applyRewind_rewind {c : SharedCounters} : c.applyRewind.rewind = noRewind := by
  unfold applyRewind takeRewind
  by_cases h : c.rewind = noRewind
  · simp only [if_pos h]
  · simp only [if_neg h]
    split <;> rfl

theorem drainStep_rewind (h : 0 < s.counters.rewind) : 0 < s.drainStep.counters.rewind := by
  unfold drainStep
  split
  · show 0 < s.counters.applyRewind.rewind
    rw [applyRewind_rewind]
    decide
  · split <;> exact h
  · exact h
  · exact h
  · exact h
  · exact h
  · next r dead n left _ =>
    rw [s.push_frame.2.2.1]
    exact h
  · exact h
  · next conn left _ =>
    rw [s.push_frame.2.2.1]
    exact h
  · exact h

theorem drainStep_loaded (h : s.Sound wh) {id : ℕ} (hid : s.drainStep.phase = .loaded id) : id < s.snaps.length := by
  unfold drainStep at hid
  split at hid
  · cases hid
  · split at hid
    · next heq _ _ _ => exact h.loaded id hid
    · cases hid
  · cases hid
    have := h.current
    omega
  · exact h.loaded id hid
  all_goals cases hid

/-- **The invariant survives every step.** -/
theorem Sound.step (h : s.Sound wh) (a : ShardAction) : (s.step wh cfg a).Sound wh := by
  have hpub : (s.step wh cfg a).Publishing (Filed wh) :=
    h.publishing.step (filed_lasting wh) (binding_filed h.publishing)
  have hcmd : ∀ s', Frame s s' → 0 < s'.counters.rewind → s'.Publishing (Filed wh) → s'.Sound wh := by
    intro s' hf hrw hp
    refine ⟨?_, fun id hid => ?_, hrw, hp⟩
    · exact lt_of_lt_of_le h.current hf.snaps.length_le
    · rw [hf.phase] at hid
      exact lt_of_lt_of_le (h.loaded id hid) hf.snaps.length_le
  cases a with
  | start j => exact hcmd _ (command_frame wh s (.start j)) (command_rewind h.rewind _) hpub
  | loopTop => exact hcmd _ (command_frame wh s .loopTop) (command_rewind h.rewind _) hpub
  | work => exact hcmd _ (work_frame wh s) (command_rewind h.rewind _) hpub
  | drain =>
    have hsnaps : s.drainStep.snaps = s.snaps := s.drainStep_frame.2.1
    refine ⟨?_, fun id hid => ?_, drainStep_rewind h.rewind, hpub⟩
    · show 0 < s.drainStep.snaps.length
      rw [hsnaps]
      exact h.current
    · show id < s.drainStep.snaps.length
      rw [hsnaps]
      exact drainStep_loaded h hid
  | walk x =>
    obtain ⟨-, hsnaps, hcounters, -⟩ := walk_frame wh cfg s
    refine ⟨?_, fun id hid => ?_, ?_, hpub⟩
    · show 0 < (s.walk wh cfg x).snaps.length
      rw [hsnaps]
      exact h.current
    · show id < (s.walk wh cfg x).snaps.length
      rw [hsnaps]
      have hphase : (s.walk wh cfg x).phase = .loaded id := hid
      unfold walk at hphase
      split at hphase
      · simp only at hphase
        split at hphase <;> cases hphase
      · exact h.loaded id hphase
    · show 0 < (s.walk wh cfg x).counters.rewind
      rw [hcounters]
      exact h.rewind

end Shard

end Arbitro
