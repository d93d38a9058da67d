import Arbitro.Proof.Progress
import Arbitro.Proof.Shard
import Arbitro.Shard.Life
import Mathlib.Tactic.IntervalCases

/-!
# Resuming after a subscribe

A subscribe with policy `All` asks for a rewind to the seq after the consumer's cursor,
which is the highest seq the consumer acked, before or after the last restart. What lies
at or below it is not walked again for this consumer.

* `Life.Cycles`: the drain cycles of a run since its last restart.
* `Shard.Resuming`: from the subscribe on, until a cycle sees the new binding, the rewind
  is asked for or done.
* `resumed_sent`: an entry above the cursor is sent.
* `Resumed.higher_ack_loses`: an entry below it is not, acked or not.
-/

namespace Arbitro

open Life List Nat Option

variable (run : ℕ → LifeAction)

/-! ## One snapshot at a time -/

section Congr

variable {wh : WireHash} {cfg : DrainConfig} {snaps snaps' : ℕ → DrainSnapshot} {m : Memory} {c : Cycle}
  (h : snaps c.snapId = snaps' c.snapId)

include h

theorem read_congr : m.read wh cfg snaps c = m.read wh cfg snaps' c := by
  unfold Memory.read Cycle.env
  rw [h]

theorem next_congr : m.next wh cfg snaps c = m.next wh cfg snaps' c := by
  unfold Memory.next
  rw [read_congr h]

theorem cycle_congr : m.cycle wh cfg snaps c = m.cycle wh cfg snaps' c := by
  unfold Memory.cycle
  rw [read_congr h, h]

end Congr

/-! ## The cursor between two walks -/

namespace Shard

variable {wh : WireHash} {cfg : DrainConfig} {s s' : Shard} {o : Option CycleResult} {bound : ℕ}

/-- After a walk with result `o` the cursor is at most `bound`, or will be stored once the
deliveries are recorded and reported. -/
def Settles (o : Option CycleResult) (bound : ℕ) (s : Shard) : Prop :=
  match s.phase with
  | .record r _ _ _ => o = some r
  | .report r _ _ => o = some r
  | _ => s.counters.cursor ≤ bound

theorem Settles.frame (h : s.Settles o bound) (hf : Frame s s') : s'.Settles o bound := by
  unfold Settles at h ⊢
  rw [hf.phase]
  cases hp : s.phase <;> rw [hp] at h
  case record | report => exact h
  all_goals exact hf.cursor.trans h

theorem Settles.drain (h : s.Settles o bound) (hbound : ∀ r, o = some r → r.cursor ≤ bound) :
    s.drainStep.Settles o bound := by
  unfold Settles at h
  unfold drainStep
  cases hp : s.phase <;> rw [hp] at h
  case top => exact s.counters.applyRewind_bounds.1.trans h
  case events =>
    simp only
    split <;> exact h
  case ready => exact h
  case loaded id =>
    unfold Settles
    simp only [hp]
    exact h
  case record r snapId dead left => cases left <;> exact h
  case report r dead left =>
    cases left with
    | nil => exact hbound r h
    | cons n left => exact h
  case dead left =>
    cases left with
    | nil => exact h
    | cons conn left =>
      show (s.push (.connectionDead conn)).counters.cursor ≤ bound
      rw [s.push_frame.2.2.1]
      exact h

end Shard

/-! ## From the subscribe to the first cycle that sees it -/

namespace Shard

variable {wh : WireHash} {cfg : DrainConfig} {s s' : Shard} {q L : ℕ} {rest : List Work} {cmd : SubscribeCmd}

/-- A rewind to the seq after `q` is asked for or done. A cycle that has taken it walks
with a snapshot from `L` on, or the rewind is asked for still. -/
def Awaits (q L : ℕ) (s : Shard) : Prop :=
  match s.phase with
  | .events => s.counters.cursor ≤ q ∧ (L < s.snaps.length ∨ s.counters.rewind ≤ q + 1)
  | .ready => s.counters.cursor ≤ q ∧ (L < s.snaps.length ∨ s.counters.rewind ≤ q + 1)
  | .loaded id => (L ≤ id → s.counters.cursor ≤ q) ∧ (id < L → s.counters.rewind ≤ q + 1)
  | _ => s.counters.rewind ≤ q + 1

theorem Awaits.frame (h : s.Awaits q L) (hf : Frame s s') : s'.Awaits q L := by
  have hcur := hf.cursor
  have hrw := hf.rewind
  have hlen := hf.snaps.length_le
  unfold Awaits at h ⊢
  rw [hf.phase]
  cases hp : s.phase <;> rw [hp] at h
  case events | ready => exact ⟨hcur.trans h.1, h.2.imp (fun hl => hl.trans_le hlen) hrw.trans⟩
  case loaded id => exact ⟨fun hid => hcur.trans (h.1 hid), fun hid => hrw.trans (h.2 hid)⟩
  all_goals exact hrw.trans h

theorem awaits_of_rewind (hcur : s.counters.cursor ≤ q) (hrw : s.counters.rewind ≤ q + 1) : s.Awaits q L := by
  unfold Awaits
  cases s.phase
  case events | ready => exact ⟨hcur, .inr hrw⟩
  case loaded id => exact ⟨fun _ => hcur, fun _ => hrw⟩
  all_goals exact hrw

/-- The drain goes on; it takes the rewind only when the new snapshot is there. -/
theorem Awaits.drain (h : s.Awaits q L) (hs : s.Sound wh) (hq : q + 1 < noRewind)
    (htop : s.phase = .top → L < s.snaps.length) : s.drainStep.Awaits q L := by
  unfold Awaits at h
  unfold drainStep
  cases hp : s.phase <;> rw [hp] at h
  case top =>
    have hdown := s.counters.applyRewind_bounds.2 hs.rewind (lt_of_le_of_lt h hq)
    refine ⟨?_, .inl (htop hp)⟩
    show s.counters.applyRewind.cursor ≤ q
    omega
  case events =>
    simp only
    split <;> exact h
  case ready =>
    refine ⟨fun _ => h.1, fun hid => ?_⟩
    rcases h.2 with hl | hrw
    · omega
    · exact hrw
  case loaded id =>
    unfold Awaits
    simp only [hp]
    exact h
  case record r snapId dead left => cases left <;> exact h
  all_goals
    next left =>
    cases left with
    | nil => exact h
    | cons n left =>
      show (s.push _).counters.rewind ≤ q + 1
      rw [s.push_frame.2.2.1]
      exact h

/-- A walk with an old snapshot has not taken the rewind. -/
theorem Awaits.walk (h : s.Awaits q L) (x : Surroundings) (hold : ∀ id, s.phase = .loaded id → id < L) :
    (s.walk wh cfg x).Awaits q L := by
  unfold Shard.walk
  split
  · next id hid =>
    unfold Awaits at h
    rw [hid] at h
    have hrw := h.2 (hold id hid)
    simp only
    split
    · exact hrw
    · exact hrw
  · exact h

/-- From a subscribe that found `L` snapshots on: its rewind to the seq after `q` and its
snapshot are still to come; or only the snapshot is; or both are out. -/
inductive Resuming (q L : ℕ) (s : Shard) : Prop where
  | ahead {pre : List Work} {snap : DrainSnapshot} {post : List Work} (hlen : s.snaps.length = L)
      (hpre : ∀ x ∈ pre, ∃ id, x = .effect (.incDemand id))
      (htodo : s.task.todo = pre ++ .effect (.rewindReleased (q + 1)) :: .effect (.publish snap) :: post)
  | asked {snap : DrainSnapshot} {post : List Work} (hlen : s.snaps.length = L)
      (htodo : s.task.todo = .effect (.publish snap) :: post) (h : s.Awaits q L)
  | out (hlen : L < s.snaps.length) (h : s.Awaits q L)

theorem Resuming.same (h : s.Resuming q L) (htodo : s'.task.todo = s.task.todo) (hsnaps : s'.snaps = s.snaps)
    (haw : (∃ snap rest, s.task.todo = .effect (.publish snap) :: rest) ∨ L < s.snaps.length → s.Awaits q L → s'.Awaits q L) :
    s'.Resuming q L := by
  cases h with
  | ahead hlen hpre hnext => exact .ahead (by rw [hsnaps]; exact hlen) hpre (by rw [htodo]; exact hnext)
  | asked hlen hnext h => exact .asked (by rw [hsnaps]; exact hlen) (by rw [htodo]; exact hnext) (haw (.inl ⟨_, _, hnext⟩) h)
  | out hlen h => exact .out (by rw [hsnaps]; exact hlen) (haw (.inr hlen) h)

theorem Resuming.work (h : s.Resuming q L) : (s.work wh).Resuming q L := by
  cases h with
  | @ahead pre snap post hlen hpre htodo =>
    cases pre with
    | nil =>
      obtain ⟨htodo', hcounters, hsnaps⟩ := work_effect wh htodo
      obtain ⟨hcur, hrw⟩ := s.counters.rewindReleased_bounds (m := q + 1) (succ_pos q)
      have hlen' : (s.work wh).snaps.length = L := by
        rw [hsnaps]
        simpa [Effect.snapshot] using hlen
      refine .asked hlen' htodo' (awaits_of_rewind ?_ ?_)
      · rw [hcounters]
        exact le_of_lt_succ hcur
      · rw [hcounters]
        exact hrw
    | cons x pre =>
      obtain ⟨id, rfl⟩ := hpre x mem_cons_self
      obtain ⟨htodo', -, hsnaps⟩ := work_effect wh htodo
      refine .ahead ?_ (fun y hy => hpre y (mem_cons_of_mem _ hy)) htodo'
      rw [hsnaps]
      simpa [Effect.snapshot] using hlen
  | asked hlen htodo h =>
    obtain ⟨-, -, hsnaps⟩ := work_effect wh htodo
    refine .out ?_ (h.frame (work_frame wh s))
    rw [hsnaps]
    simp [Effect.snapshot, hlen]
  | out hlen h => exact .out (hlen.trans_le (work_frame wh s).snaps.length_le) (h.frame (work_frame wh s))

theorem subscribe_effects {w : Worker} (hok : (w.handleSubscribe wh cmd).2 ≠ []) :
    ∃ pre snap, (w.handleSubscribe wh cmd).2 = pre ++ [.rewindReleased (w.resumeSeq cmd), .publish snap, .releaseGate] ∧
      ∀ e ∈ pre, ∃ id, e = Effect.incDemand id := by
  revert hok
  unfold Worker.handleSubscribe Worker.Out.andThen
  simp only
  split
  · intro _
    split
    · exact ⟨_, _, rfl, fun e he => ⟨_, mem_singleton.1 he⟩⟩
    · exact ⟨[], _, rfl, nofun⟩
  · exact fun hne => absurd rfl hne

theorem work_job (wh : WireHash) {j : Job} (h : s.task.todo = .job j :: rest) :
    (s.work wh).task.todo = (s.task.worker.exec wh j).2.map .effect ++ rest ∧ (s.work wh).snaps = s.snaps := by
  have hstep : s.task.step wh (.work s.room s.notices.head?) =
      ({ s.task with worker := (s.task.worker.exec wh j).1, todo := (s.task.worker.exec wh j).2.map .effect ++ rest }, []) := by
    simp only [CommandTask.step, h]
    rfl
  have htask : (s.work wh).task = (s.task.step wh (.work s.room s.notices.head?)).1 := work_task wh s
  constructor
  · rw [htask, hstep]
  · show (s.command wh _).snaps = _
    rw [command_eq, hstep]
    exact append_nil _

theorem resuming_of_subscribe
    (h : s.task.todo = .job (.subscribe cmd) :: rest) (hok : (s.task.worker.handleSubscribe wh cmd).2 ≠ [])
    (hq : s.task.worker.resumeSeq cmd = q + 1) : (s.work wh).Resuming q s.snaps.length := by
  obtain ⟨htodo, hsnaps⟩ := work_job wh h
  obtain ⟨pre, snap, heffects, hpre⟩ := subscribe_effects hok
  have hexec : (s.task.worker.exec wh (.subscribe cmd)).2 =
      pre ++ [.rewindReleased (q + 1), .publish snap, .releaseGate] := by
    rw [← hq]
    exact heffects
  rw [hexec, map_append, append_assoc] at htodo
  refine .ahead (by rw [hsnaps]) (fun x hx => ?_) htodo
  obtain ⟨e, he, rfl⟩ := mem_map.1 hx
  obtain ⟨id, rfl⟩ := hpre e he
  exact ⟨id, rfl⟩

/-- The drain starts no cycle while the command task is about to publish a snapshot. -/
def Orderly (s : Shard) : ShardAction → Prop
  | .drain => s.phase = .top → ∀ snap rest, s.task.todo ≠ .effect (.publish snap) :: rest
  | _ => True

/-- **Until a cycle walks with the new snapshot, the rewind is asked for or done.** -/
theorem Resuming.step (h : s.Resuming q L) (hs : s.Sound wh) (hq : q + 1 < noRewind) {a : ShardAction}
    (hord : s.Orderly a) (hold : ∀ x id, a = .walk x → s.phase = .loaded id → id < L) :
    (s.step wh cfg a).Resuming q L := by
  have hbusy : ∀ b, (∃ j, b = CommandAction.start j) ∨ b = .loopTop → (s.command wh b).Resuming q L := by
    intro b hb
    have hsame : ∀ {x : Work} {rest : List Work}, s.task.todo = x :: rest → s.command wh b = s := by
      intro x rest htodo
      rcases hb with ⟨j, rfl⟩ | rfl
      · exact (command_busy wh htodo j).1
      · exact (command_busy wh htodo (.unsubscribe 0)).2
    cases hnil : s.task.todo with
    | cons x rest =>
      rw [hsame hnil]
      exact h
    | nil =>
      cases h with
      | ahead _ _ htodo => simp [htodo] at hnil
      | asked _ htodo _ => simp [htodo] at hnil
      | out hlen h => exact .out (hlen.trans_le (command_frame wh s b).snaps.length_le) (h.frame (command_frame wh s b))
  cases a with
  | start j => exact hbusy (.start j) (.inl ⟨j, rfl⟩)
  | loopTop => exact hbusy .loopTop (.inr rfl)
  | work => exact h.work
  | drain =>
    obtain ⟨htask, hsnaps, -, -⟩ := s.drainStep_frame
    refine h.same (congrArg CommandTask.todo htask) hsnaps fun hnew haw => haw.drain hs hq fun hp => ?_
    exact hnew.resolve_left fun ⟨snap, rest, htodo⟩ => hord hp snap rest htodo
  | walk x =>
    obtain ⟨htask, hsnaps, -, -⟩ := walk_frame wh cfg s
    exact h.same (congrArg CommandTask.todo htask) hsnaps fun _ haw => haw.walk x fun id => hold x id rfl

end Shard

/-! ## Runs with restarts -/

namespace Life

variable {wh : WireHash} {cfg : DrainConfig} {l : Life} {a : LifeAction} {acts : ℕ → LifeAction}

/-- The cycle that a step walks. -/
def cycleOf (l : Life) : LifeAction → Option Cycle
  | .shard (.walk x) =>
    match l.shard.phase with
    | .loaded snapId => some (l.shard.cycle snapId { x with store := l.store })
    | _ => none
  | _ => none

theorem cycleOf_some {c : Cycle} (h : l.cycleOf a = some c) : ∃ x, a = .shard (.walk x) ∧
    l.shard.phase = .loaded c.snapId ∧ c = l.shard.cycle c.snapId { x with store := l.store } := by
  unfold cycleOf at h
  split at h
  · next x =>
    split at h
    · next id hid =>
      rw [← some.inj h]
      exact ⟨_, rfl, hid, rfl⟩
    · cases h
  · cases h

theorem persist_shard {recorded : ConsumerId → Bool} (xs : List (Sigma fun _ : ConsumerId => ℕ)) (l : Life) :
    (xs.foldl (persistOne recorded) l).shard = l.shard := by
  refine foldlRecOn xs (persistOne recorded) (motive := (·.shard = l.shard)) rfl fun l' h x _ => ?_
  rw [← h]
  unfold persistOne
  split <;> rfl

/-- The shard but for the cursors of the registry. -/
structure Still (s s' : Shard) : Prop where
  frame : Shard.Frame s s'
  snaps : s'.snaps = s.snaps
  todo : s'.task.todo = s.task.todo

theorem step_cases (wh : WireHash) (cfg : DrainConfig) (l : Life) (ha : a ≠ .restart) :
    Still l.shard (l.step wh cfg a).shard ∧ l.cycleOf a = none ∨
      ∃ b, a = .shard b ∧ (l.step wh cfg a).shard = l.shard.step wh cfg (l.reading b) := by
  have hsame : ∀ s : Shard, Still s s := fun s =>
    ⟨⟨rfl, rfl, rfl, rfl, le_refl _, le_refl _, prefix_refl _⟩, rfl, rfl⟩
  cases a with
  | publish entry timestamp => exact .inl ⟨hsame _, rfl⟩
  | shard b => exact .inr ⟨b, rfl, rfl⟩
  | persist recorded =>
    left
    have heq : (l.step wh cfg (.persist recorded)).shard = l.shard := persist_shard _ l
    rw [heq]
    exact ⟨hsame _, rfl⟩
  | forget c => exact .inl ⟨⟨⟨rfl, rfl, rfl, rfl, le_refl _, le_refl _, prefix_refl _⟩, rfl, rfl⟩, rfl⟩
  | restart => exact absurd rfl ha

/-- **Every state of a run is sound.** -/
theorem sound_before {n : ℕ} : (before wh cfg acts n).shard.Sound wh := by
  induction n with
  | zero => exact Shard.sound_boot
  | succ n ih =>
    show ((before wh cfg acts n).step wh cfg (acts n)).shard.Sound wh
    cases acts n with
    | publish entry timestamp => exact ih
    | shard b => exact ih.step _
    | persist recorded =>
      show (foldl (persistOne recorded) _ _).shard.Sound wh
      rw [persist_shard]
      exact ih
    | forget c =>
      have hworker : Worker.Filed wh _ := (Worker.filed_lasting wh).other ih.publishing.task.worker rfl rfl
      exact ⟨ih.current, ih.loaded, ih.rewind, ⟨⟨hworker, ih.publishing.task.queued⟩, ih.publishing.snaps⟩⟩
    | restart => exact Shard.sound_boot

theorem memory_step (wh : WireHash) (cfg : DrainConfig) (l : Life) (ha : a ≠ .restart) : (l.step wh cfg a).shard.memory =
    match l.cycleOf a with
    | none => l.shard.memory
    | some c => l.shard.memory.next wh cfg l.shard.snapshots c := by
  rcases step_cases wh cfg l ha with ⟨hstill, hnone⟩ | ⟨b, rfl, hstep⟩
  · rw [hnone, hstill.frame.memory]
  cases b with
  | start j => exact (Shard.command_frame wh l.shard (.start j)).memory
  | loopTop => exact (Shard.command_frame wh l.shard .loopTop).memory
  | work => exact (Shard.work_frame wh l.shard).memory
  | drain => exact l.shard.drainStep_frame.2.2.1
  | walk x =>
    show (l.shard.walk wh cfg { x with store := l.store }).memory = _
    unfold cycleOf Shard.walk
    cases l.shard.phase with
    | loaded snapId =>
      simp only
      split <;> rfl
    | _ => rfl

theorem snaps_step (ha : a ≠ .restart) : l.shard.snaps <+: (l.step wh cfg a).shard.snaps := by
  rcases step_cases wh cfg l ha with ⟨hstill, -⟩ | ⟨b, rfl, hstep⟩
  · exact hstill.frame.snaps
  rw [hstep]
  cases b with
  | start j => exact (Shard.command_frame wh l.shard (.start j)).snaps
  | loopTop => exact (Shard.command_frame wh l.shard .loopTop).snaps
  | work => exact (Shard.work_frame wh l.shard).snaps
  | drain => exact (l.shard.drainStep_frame.2.1) ▸ prefix_refl _
  | walk x => exact ((Shard.walk_frame wh cfg l.shard).2.1) ▸ prefix_refl _

theorem before_snaps (wh : WireHash) (cfg : DrainConfig) {i j : ℕ} (hij : i ≤ j)
    (hup : ∀ n, i ≤ n → n < j → acts n ≠ .restart) :
    (before wh cfg acts i).shard.snaps <+: (before wh cfg acts j).shard.snaps := by
  induction j, hij using le_induction with
  | base => exact prefix_refl _
  | succ j hij ih =>
    have hprev := ih fun n hn hlt => hup n hn (by omega)
    exact hprev.trans (snaps_step (hup j hij (lt_succ_self j)))

/-- **The cycles of a run since its last restart**, at step `R`: the drain walks at the
steps `time 0 < time 1 < …` and at no others, over the snapshots `snaps`. -/
structure Cycles (wh : WireHash) (cfg : DrainConfig) (acts : ℕ → LifeAction) (R : ℕ) (snaps : ℕ → DrainSnapshot)
    (time : ℕ → ℕ) (cs : ℕ → Cycle) : Prop where
  booted : R = 0 ∨ ∃ r, R = r + 1 ∧ acts r = .restart
  up : ∀ i, R ≤ i → acts i ≠ .restart
  mono : StrictMono time
  since : ∀ n, R ≤ time n
  walks : ∀ n, (before wh cfg acts (time n)).cycleOf (acts (time n)) = some (cs n)
  all : ∀ i, R ≤ i → ((before wh cfg acts i).cycleOf (acts i)).isSome → ∃ n, time n = i
  current : ∀ i, R ≤ i → ∀ id snap, (before wh cfg acts i).shard.snaps[id]? = some snap → snaps id = snap
  unborn : ∀ id, (∀ i, R ≤ i → (before wh cfg acts i).shard.snaps.length ≤ id) → snaps id = .empty

namespace Cycles

variable {R : ℕ} {snaps : ℕ → DrainSnapshot} {time : ℕ → ℕ} {cs : ℕ → Cycle} {Q : ℕ → Prop} {n : ℕ}

/-- What a step without a walk keeps holds up to the next walk. -/
theorem carry_to {lo hi : ℕ} (hle : lo ≤ hi) (hR : R ≤ lo)
    (hnone : ∀ i, lo ≤ i → i < hi → (before wh cfg acts i).cycleOf (acts i) = none) (hstart : Q lo)
    (hstep : ∀ i, R ≤ i → (before wh cfg acts i).cycleOf (acts i) = none → Q i → Q (i + 1)) : Q hi := by
  induction hi, hle using le_induction with
  | base => exact hstart
  | succ i hi ih => exact hstep i (hR.trans hi) (hnone i hi (lt_succ_self i)) (ih fun j hj hlt => hnone j hj (by omega))

variable (h : Cycles wh cfg acts R snaps time cs)

include h

theorem between {n i : ℕ} (hi : time n < i) (hi' : i < time (n + 1)) :
    (before wh cfg acts i).cycleOf (acts i) = none := by
  by_contra hsome
  obtain ⟨m, hm⟩ := h.all i ((h.since n).trans hi.le) (ne_none_iff_isSome.1 hsome)
  rw [← hm] at hi hi'
  have hlow := h.mono.lt_iff_lt.1 hi
  have hhigh := h.mono.lt_iff_lt.1 hi'
  omega

theorem carry (hstart : Q (time n + 1))
    (hstep : ∀ i, R ≤ i → (before wh cfg acts i).cycleOf (acts i) = none → Q i → Q (i + 1)) : Q (time (n + 1)) :=
  carry_to (h.mono (lt_succ_self n)) ((h.since n).trans (le_succ _)) (fun _ => h.between) hstart hstep

/-- What a walk finds: the drain has loaded the snapshot of the cycle, and the cycle
starts at the cursor. -/
theorem loaded (n : ℕ) : (before wh cfg acts (time n)).shard.phase = .loaded (cs n).snapId ∧
      (cs n).cursor = (before wh cfg acts (time n)).shard.counters.cursor ∧
      (cs n).snapId < (before wh cfg acts (time n)).shard.snaps.length ∧
      (before wh cfg acts (time n)).shard.snapshots (cs n).snapId = snaps (cs n).snapId := by
  obtain ⟨x, -, hphase, hc⟩ := cycleOf_some (h.walks n)
  have hcur : (cs n).cursor = (before wh cfg acts (time n)).shard.counters.cursor := by
    rw [hc]
    rfl
  have hlt := sound_before.loaded _ hphase
  refine ⟨hphase, hcur, hlt, ?_⟩
  have hget := getElem?_eq_getElem hlt
  unfold Shard.snapshots
  rw [hget, getD_some]
  exact (h.current (time n) (h.since n) _ _ hget).symm

theorem memory (n : ℕ) : (before wh cfg acts (time n)).shard.memory = (historyAt wh cfg snaps cs n).memory := by
  have hkeep : ∀ m i, R ≤ i → (before wh cfg acts i).cycleOf (acts i) = none →
      (before wh cfg acts i).shard.memory = m → (before wh cfg acts (i + 1)).shard.memory = m := by
    intro m i hR hnone hm
    have hstep := memory_step wh cfg (before wh cfg acts i) (h.up i hR)
    rw [hnone] at hstep
    exact hstep.trans hm
  induction n with
  | zero =>
    refine carry_to (h.since 0) le_rfl (fun i hR hi => ?_) ?_ (hkeep _)
    · -- no walk before the first
      by_contra hsome
      obtain ⟨n, hn⟩ := h.all i hR (ne_none_iff_isSome.1 hsome)
      have := h.mono.monotone (zero_le n)
      omega
    rcases h.booted with rfl | ⟨r, rfl, hr⟩
    · rfl
    · show ((before wh cfg acts r).step wh cfg (acts r)).shard.memory = _
      rw [hr]
      rfl
  | succ n ih =>
    refine h.carry ?_ (hkeep _)
    have hstep := memory_step wh cfg (before wh cfg acts (time n)) (h.up _ (h.since n))
    rw [h.walks n, ih] at hstep
    refine hstep.trans ?_
    exact next_congr (h.loaded n).2.2.2

theorem settles_walk (n : ℕ) :
    (before wh cfg acts (time n + 1)).shard.Settles (resultAt wh cfg snaps cs n) (cursorAfter wh cfg snaps cs n) := by
  obtain ⟨hphase, hcur, -, -⟩ := h.loaded n
  have hres : _ = resultAt wh cfg snaps cs n := cycle_congr (h.loaded n).2.2.2
  rw [← h.memory n] at hres
  obtain ⟨x, hact, -, hc⟩ := cycleOf_some (h.walks n)
  show ((before wh cfg acts (time n)).step wh cfg (acts (time n))).shard.Settles _ _
  rw [hact]
  show ((before wh cfg acts (time n)).shard.walk wh cfg { x with store := (before wh cfg acts (time n)).store }).Settles _ _
  unfold Shard.walk
  simp only [hphase, ← hc, hres]
  cases hr : resultAt wh cfg snaps cs n with
  | none =>
    show (before wh cfg acts (time n)).shard.counters.cursor ≤ cursorAfter wh cfg snaps cs n
    unfold cursorAfter
    rw [hr, ← hcur]
    exact le_refl _
  | some r => exact rfl

/-- **Between two cycles the cursor moves back only.** -/
theorem back (n : ℕ) : (cs (n + 1)).cursor ≤ cursorAfter wh cfg snaps cs n := by
  have hkeep : ∀ i, R ≤ i → (before wh cfg acts i).cycleOf (acts i) = none →
      (before wh cfg acts i).shard.Settles (resultAt wh cfg snaps cs n) (cursorAfter wh cfg snaps cs n) →
      (before wh cfg acts (i + 1)).shard.Settles (resultAt wh cfg snaps cs n) (cursorAfter wh cfg snaps cs n) := by
    intro i hR hnone hs
    show ((before wh cfg acts i).step wh cfg (acts i)).shard.Settles _ _
    rcases step_cases wh cfg (before wh cfg acts i) (h.up i hR) with ⟨hstill, -⟩ | ⟨b, hb, hstep⟩
    · exact hs.frame hstill.frame
    rw [hstep]
    cases b with
    | start j => exact hs.frame (Shard.command_frame wh _ (.start j))
    | loopTop => exact hs.frame (Shard.command_frame wh _ .loopTop)
    | work => exact hs.frame (Shard.work_frame wh _)
    | drain => exact hs.drain fun r hr => by rw [cursorAfter, hr]; exact le_refl _
    | walk x =>
      -- a walk that is none finds no snapshot loaded
      rw [hb] at hnone
      have hidle : ∀ id, (before wh cfg acts i).shard.phase ≠ .loaded id := by
        intro id hid
        simp only [cycleOf, hid] at hnone
        cases hnone
      show ((before wh cfg acts i).shard.walk wh cfg _).Settles _ _
      unfold Shard.walk
      split
      · next id hid => exact absurd hid (hidle id)
      · exact hs
  have hnext : (before wh cfg acts (time (n + 1))).shard.Settles (resultAt wh cfg snaps cs n) (cursorAfter wh cfg snaps cs n) :=
    h.carry (h.settles_walk n) hkeep
  obtain ⟨hphase, hcur, -, -⟩ := h.loaded (n + 1)
  rw [hcur]
  unfold Shard.Settles at hnext
  rw [hphase] at hnext
  exact hnext

theorem published (id : ℕ) : (snaps id).Published := by
  have hempty : DrainSnapshot.empty.Published := ⟨[], [], ∅, fun _ _ hmt => (by cases hmt), rfl⟩
  by_cases hborn : ∃ i, R ≤ i ∧ id < (before wh cfg acts i).shard.snaps.length
  · obtain ⟨i, hR, hid⟩ := hborn
    have hget := getElem?_eq_getElem hid
    rw [h.current i hR id _ hget]
    rcases sound_before.publishing.snaps _ (getElem_mem hid) with heq | hfrom
    · rw [heq]
      exact hempty
    · exact CommandTask.From.published (hfrom.imp fun _ hw => ⟨Catalog.Filed.tidy hw.1, hw.2⟩)
  · have hnone : ∀ i, R ≤ i → (before wh cfg acts i).shard.snaps.length ≤ id :=
      fun i hR => Nat.le_of_not_lt fun hlt => hborn ⟨i, hR, hlt⟩
    rw [h.unborn id hnone]
    exact hempty

end Cycles

/-- At step `m` the command task runs a subscribe of consumer `k` with policy `All`, and
the engine accepts it. -/
structure Resubscribes (wh : WireHash) (cfg : DrainConfig) (acts : ℕ → LifeAction) (k : ConsumerId) (m : ℕ)
    (cmd : SubscribeCmd) : Prop where
  runs : acts m = .shard .work
  todo : ∃ rest, (before wh cfg acts m).shard.task.todo = .job (.subscribe cmd) :: rest
  consumer : cmd.consumerConfig.id = k
  all : cmd.deliverPolicy = 0
  accepted : ((before wh cfg acts m).shard.task.worker.handleSubscribe wh cmd).2 ≠ []

/-- Cycle `n` is the first with a snapshot that was published after step `m`. -/
def FirstAfter (wh : WireHash) (cfg : DrainConfig) (acts : ℕ → LifeAction) (cs : ℕ → Cycle) (m n : ℕ) : Prop :=
  (before wh cfg acts m).shard.snaps.length ≤ (cs n).snapId ∧
    ∀ i < n, (cs i).snapId < (before wh cfg acts m).shard.snaps.length

/-- The cursor of a consumer in the registry. -/
def cursorOf (l : Life) (k : ConsumerId) : ℕ := (l.shard.task.worker.consumerCursor.lookup k).getD 0

variable {R : ℕ} {snaps : ℕ → DrainSnapshot} {time : ℕ → ℕ} {cs : ℕ → Cycle}

/-- **The first cycle that sees the new binding starts at the consumer's cursor or below.** -/
theorem resumed_cursor (h : Cycles wh cfg acts R snaps time cs) {k : ConsumerId} {m n₀ : ℕ} {cmd : SubscribeCmd}
    (hm : R ≤ m) (hsub : Resubscribes wh cfg acts k m cmd)
    (hord : ∀ i a, m ≤ i → acts i = .shard a → (before wh cfg acts i).shard.Orderly a)
    (hfirst : FirstAfter wh cfg acts cs m n₀) (hq : (before wh cfg acts m).cursorOf k + 1 < noRewind) :
    (cs n₀).cursor ≤ (before wh cfg acts m).cursorOf k := by
  set q := (before wh cfg acts m).cursorOf k with hqdef
  set L := (before wh cfg acts m).shard.snaps.length with hL
  obtain ⟨rest, htodo⟩ := hsub.todo
  obtain ⟨hphase, hcur, hlt, -⟩ := h.loaded n₀
  -- the walk comes after the subscribe: the snapshot it has loaded is newer
  have hlate : m < time n₀ := by
    by_contra hearly
    have hle := (before_snaps wh cfg (Nat.le_of_not_lt hearly) fun i hi _ => h.up i ((h.since n₀).trans hi)).length_le
    have hnew := hfirst.1
    omega
  have hresume : ∀ i, m + 1 ≤ i → i ≤ time n₀ → (before wh cfg acts i).shard.Resuming q L := by
    intro i hi
    induction i, hi using le_induction with
    | base =>
      intro _
      show ((before wh cfg acts m).step wh cfg (acts m)).shard.Resuming q L
      rw [hsub.runs]
      apply Shard.resuming_of_subscribe htodo hsub.accepted
      unfold Worker.resumeSeq
      rw [hsub.all, hsub.consumer]
      rfl
    | succ i hi ih =>
      intro hle
      have hs := ih (by omega)
      have hR : R ≤ i := hm.trans (by omega)
      show ((before wh cfg acts i).step wh cfg (acts i)).shard.Resuming q L
      rcases step_cases wh cfg (before wh cfg acts i) (h.up i hR) with ⟨hstill, -⟩ | ⟨b, hb, hstep⟩
      · exact hs.same hstill.todo hstill.snaps fun _ haw => haw.frame hstill.frame
      rw [hstep]
      have hordb : (before wh cfg acts i).shard.Orderly ((before wh cfg acts i).reading b) := by
        have hb' := hord i b (by omega) hb
        cases b <;> exact hb'
      refine hs.step sound_before hq hordb fun x id hx hid => ?_
      -- a walk before the first with a new snapshot
      cases b with
      | walk y =>
        have hsome : (before wh cfg acts i).cycleOf (acts i) =
            some ((before wh cfg acts i).shard.cycle id { y with store := (before wh cfg acts i).store }) := by
          rw [hb]
          simp only [cycleOf, hid]
        obtain ⟨n, hn⟩ := h.all i hR (by rw [hsome]; rfl)
        have hwalk := h.walks n
        rw [hn, hsome] at hwalk
        have hid' : (cs n).snapId = id := by
          rw [← some.inj hwalk]
          rfl
        have hlt' : n < n₀ := h.mono.lt_iff_lt.1 (by omega)
        rw [← hid']
        exact hfirst.2 n hlt'
      | _ => cases hx
  rw [hcur]
  cases hresume (time n₀) hlate (le_refl _) with
  | ahead | asked =>
    have hnew := hfirst.1
    omega
  | out _ ha =>
    unfold Shard.Awaits at ha
    rw [hphase] at ha
    exact ha.1 hfirst.1

end Life

section Resumed

variable (wh : WireHash) (cfg : DrainConfig) (snaps : ℕ → DrainSnapshot) (cs : ℕ → Cycle)

/-- Cycle `n` owes the entry to the consumer. -/
def OwedAt (k : ConsumerId) (e : StoreEntry) (n : ℕ) : Prop :=
  ∃ me b, me.consumerId = k ∧ ((cs n).env wh cfg snaps).Owed ((cs n).reads e.seq) e me b

variable {wh cfg snaps cs} {acts : ℕ → LifeAction} {R : ℕ} {time : ℕ → ℕ}

end Resumed

/-! ## A drain at rest -/

namespace Life

variable {wh : WireHash} {cfg : DrainConfig} {l : Life} {snaps : ℕ → DrainSnapshot} {m : Memory} {c : Cycle}

/-- The drain is about to start a cycle that has nothing to do. -/
structure Idle (l : Life) : Prop where
  phase : l.shard.phase = .top
  rewind : l.shard.counters.rewind = noRewind
  events : l.shard.events = []
  seen : l.shard.memory.prevSnap = some (l.shard.snaps.length - 1)
  done : l.store.lastSeq ≤ l.shard.counters.cursor

/-- A turn of the loop of a drain at rest. -/
def turn (x : Surroundings) : ℕ → LifeAction
  | 3 => .shard (.walk x)
  | _ => .shard .drain

/-- At rest, three steps of the drain load the last snapshot. -/
theorem Idle.loaded (h : l.Idle) : (replicate 3 (.shard .drain)).foldl (step wh cfg) l =
    { l with shard := { l.shard with phase := .loaded (l.shard.snaps.length - 1) } } := by
  have hrw : l.shard.counters.applyRewind = l.shard.counters := by
    unfold SharedCounters.applyRewind SharedCounters.takeRewind
    simp only [h.rewind, if_pos]
    rw [← h.rewind]
  simp only [replicate, foldl, step, reading, Shard.step, Shard.drainStep, h.phase, h.events, hrw]

theorem Idle.walked (h : l.Idle) (x : Surroundings) :
    ((replicate 3 (.shard .drain)).foldl (step wh cfg) l).step wh cfg (.shard (.walk x)) = l := by
  set c := l.shard.cycle (l.shard.snaps.length - 1) { x with store := l.store } with hc
  have hidle : ¬ c.feeds = true := not_feeds_of_done h.done
  have hnone : l.shard.memory.cycle wh cfg l.shard.snapshots c = none := cycle_of_idle hidle
  have hnext : l.shard.memory.next wh cfg l.shard.snapshots c = l.shard.memory := by
    unfold Memory.next
    rw [show some c.snapId = l.shard.memory.prevSnap from h.seen.symm]
    rcases read_of_idle wh cfg l.shard.snapshots l.shard.memory hidle with hr | hr <;> rw [hr]
  set s : Shard := { l.shard with phase := .loaded (l.shard.snaps.length - 1) } with hs
  have hwalk : s.walk wh cfg { x with store := l.store } =
      { s with memory := l.shard.memory.next wh cfg l.shard.snapshots c, phase := .top } := Shard.walk_idle rfl hnone
  rw [h.loaded]
  show { l with shard := s.walk wh cfg { x with store := l.store } } = l
  rw [hwalk, hnext, ← h.phase]

/-- Some actions, and then a drain that turns for ever. -/
def thenTurns (pre : List LifeAction) (x : Surroundings) (n : ℕ) : LifeAction :=
  (pre[n]?).getD (turn x ((n - pre.length) % 4))

section Turns

variable {acts : ℕ → LifeAction} {K i : ℕ}

/-- From step `K` on, the run does its next four steps over and over; the last of them is the cycle `c`. -/
structure Repeats (wh : WireHash) (cfg : DrainConfig) (acts : ℕ → LifeAction) (K : ℕ) (c : Cycle) : Prop where
  action : ∀ i, K ≤ i → acts (i + 4) = acts i
  state : before wh cfg acts (K + 4) = before wh cfg acts K
  cycle : (before wh cfg acts (K + 3)).cycleOf (acts (K + 3)) = some c

theorem Repeats.add (h : Repeats wh cfg acts K c) (hi : K ≤ i) (n : ℕ) :
    before wh cfg acts (i + 4 * n) = before wh cfg acts i ∧ acts (i + 4 * n) = acts i := by
  have hone : ∀ j, K ≤ j → before wh cfg acts (j + 4) = before wh cfg acts j := by
    intro j hj
    induction j, hj using le_induction with
    | base => exact h.state
    | succ j hj ih =>
      show (before wh cfg acts (j + 4)).step wh cfg (acts (j + 4)) = _
      rw [ih, h.action j hj]
      rfl
  induction n with
  | zero => exact ⟨rfl, rfl⟩
  | succ n ih =>
    have hn : K ≤ i + 4 * n := by omega
    exact ⟨(hone _ hn).trans ih.1, (h.action _ hn).trans ih.2⟩

/-- Each step is one of those up to the end of the first turn. -/
theorem Repeats.early (h : Repeats wh cfg acts K c) (i : ℕ) : ∃ j n, j < K + 4 ∧ i = j + 4 * n ∧ (n = 0 ∨ K ≤ j) ∧
    before wh cfg acts i = before wh cfg acts j ∧ acts i = acts j := by
  by_cases hi : i < K + 4
  · exact ⟨i, 0, hi, rfl, .inl rfl, rfl, rfl⟩
  · have hsplit : i = K + (i - K) % 4 + 4 * ((i - K) / 4) := by omega
    refine ⟨K + (i - K) % 4, (i - K) / 4, by omega, hsplit, .inr (Nat.le_add_right _ _), ?_⟩
    nth_rewrite 1 3 [hsplit]
    exact h.add (Nat.le_add_right _ _) _

/-- The cycle of a turn of a drain at rest. -/
def idleCycle (l : Life) (x : Surroundings) : Cycle := l.shard.cycle (l.shard.snaps.length - 1) { x with store := l.store }

/-- **A drain at rest stays at rest.** -/
theorem Idle.repeats {pre : List LifeAction} {x : Surroundings} (h : (before wh cfg (thenTurns pre x) pre.length).Idle) :
    Repeats wh cfg (thenTurns pre x) pre.length ((before wh cfg (thenTurns pre x) pre.length).idleCycle x) := by
  have hturn : ∀ i, pre.length ≤ i → thenTurns pre x i = turn x ((i - pre.length) % 4) := by
    intro i hi
    unfold thenTurns
    rw [getElem?_eq_none hi, getD_none]
  have hthree : before wh cfg (thenTurns pre x) (pre.length + 3) =
      (replicate 3 (.shard .drain)).foldl (step wh cfg) (before wh cfg (thenTurns pre x) pre.length) := by
    simp only [before, replicate, foldl, hturn, le_refl, Nat.le_add_right, Nat.add_sub_cancel_left, Nat.sub_self]
    rfl
  have hwalk : thenTurns pre x (pre.length + 3) = .shard (.walk x) := by
    rw [hturn _ (Nat.le_add_right _ _), Nat.add_sub_cancel_left]
    rfl
  refine ⟨fun i hi => ?_, ?_, ?_⟩
  · rw [hturn i hi, hturn (i + 4) (by omega)]
    congr 1
    omega
  · show (before wh cfg (thenTurns pre x) (pre.length + 3)).step wh cfg (thenTurns pre x (pre.length + 3)) = _
    rw [hthree, hwalk, h.walked]
  · rw [hthree, hwalk, h.loaded]
    rfl

/-- While the command task has nothing to do, cycles start in order. -/
theorem orderly_of_idle {s : Shard} (h : s.task.todo = []) {a : ShardAction} : s.Orderly a := by
  cases a with
  | drain =>
    intro _ snap rest htodo
    rw [h] at htodo
    cases htodo
  | _ => trivial

theorem Repeats.orderly (h : Repeats wh cfg acts K c) {m : ℕ} (hm : m ≤ K)
    (hpre : ∀ i, m ≤ i → i < K + 4 → acts i = .shard .work ∨ (before wh cfg acts i).shard.task.todo = [])
    (i : ℕ) {a : ShardAction} (hi : m ≤ i) (ha : acts i = .shard a) : (before wh cfg acts i).shard.Orderly a := by
  obtain ⟨j, n, hj, hij, hlow, hbefore, hact⟩ := h.early i
  rw [hact] at ha
  rw [hbefore]
  rcases hpre j (by omega) hj with hwork | hnone
  · rw [hwork] at ha
    cases ha
    trivial
  · exact orderly_of_idle hnone

/-- Walks at step `p`, and then in every turn. -/
def timeOf (p start : ℕ) : ℕ → ℕ
  | 0 => p
  | n + 1 => start + 4 * n + 3

/-- A first cycle, and then the same one for ever. -/
def firstThen (c c' : Cycle) : ℕ → Cycle
  | 0 => c
  | _ + 1 => c'

/-- **The cycles of a run that comes to rest after one walk.** -/
theorem Repeats.cycles (h : Repeats wh cfg acts K c) {R p : ℕ} {c' : Cycle}
    (hboot : R = 0 ∨ ∃ r, R = r + 1 ∧ acts r = .restart) (hR : R ≤ p) (hp : p < K)
    (hup : ∀ i, R ≤ i → i < K + 4 → acts i ≠ .restart)
    (hfirst : (before wh cfg acts p).cycleOf (acts p) = some c')
    (honly : ∀ i, R ≤ i → i < K + 4 → ((before wh cfg acts i).cycleOf (acts i)).isSome → i = p ∨ i = K + 3) :
    Cycles wh cfg acts R (before wh cfg acts K).shard.snapshots (timeOf p K) (firstThen c' c) := by
  have hupAll : ∀ i, R ≤ i → acts i ≠ .restart := by
    intro i hi
    obtain ⟨j, n, hj, hij, hlow, -, hact⟩ := h.early i
    rw [hact]
    exact hup j (by omega) hj
  refine ⟨hboot, hupAll, strictMono_nat_of_lt_succ fun n => ?_, fun n => ?_, fun n => ?_, fun i hi hsome => ?_,
    fun i hi id snap hget => ?_, fun id hid => ?_⟩
  · cases n with
    | zero => show p < K + 4 * 0 + 3; omega
    | succ n => show K + 4 * n + 3 < K + 4 * (n + 1) + 3; omega
  · cases n with
    | zero => exact hR
    | succ n => show R ≤ K + 4 * n + 3; omega
  · cases n with
    | zero => exact hfirst
    | succ n =>
      obtain ⟨hbefore, hact⟩ := h.add (Nat.le_add_right K 3) n
      show (before wh cfg acts (K + 4 * n + 3)).cycleOf (acts (K + 4 * n + 3)) = _
      rw [Nat.add_right_comm, hbefore, hact, h.cycle]
      rfl
  · obtain ⟨j, n, hj, hij, hlow, hbefore, hact⟩ := h.early i
    rw [hbefore, hact] at hsome
    rcases honly j (by omega) hj hsome with rfl | rfl
    · exact ⟨0, by show j = i; omega⟩
    · exact ⟨n + 1, by show K + 4 * n + 3 = i; omega⟩
  · -- the snapshots of the turns are those at their start
    obtain ⟨more, hmore⟩ := before_snaps wh cfg (show i ≤ K + 4 * i by omega) fun n hn _ => hupAll n (hi.trans hn)
    rw [(h.add (le_refl K) i).1] at hmore
    show (before wh cfg acts K).shard.snaps[id]?.getD .empty = snap
    rw [← hmore, List.getElem?_append_left (List.getElem?_eq_some_iff.1 hget).1, hget]
    rfl
  · have hout : (before wh cfg acts K).shard.snaps.length ≤ id := hid K (hR.trans hp.le)
    show (before wh cfg acts K).shard.snaps[id]?.getD .empty = .empty
    rw [getElem?_eq_none hout]
    rfl

end Turns

end Life

/-! ## One seq acked of two -/

namespace Resumed

variable (n : ℕ)

def wh : WireHash := fun _ => 0

def cfg : DrainConfig := ⟨10, 0, false, by decide⟩

/-- Consumer 1 on connection 7, for everything on stream 1. -/
def subscribe : SubscribeCmd where
  streamConfig := ⟨1, []⟩
  consumerConfig := { id := 1, queueId := 0, streamId := 1, durable := true, ackPolicy := .explicit,
                      maxInflight := 10, ackWaitMs := 0, maxNack := 0, filter := [] }
  subscriptionConfig := ⟨1, 1, 1, 1, []⟩
  connectionId := 7
  deliverPolicy := 0
  startSeq := 0
  hasWriter := true

/-- Nobody is paused or full, and every frame is taken. The store is the shard's. -/
def outside : Surroundings where
  store := .empty
  nowMs := 0
  reads := fun _ => ⟨true, fun _ => ⟨fun _ => false, fun _ => 0, fun _ => false⟩⟩
  writers := fun _ => ⟨false, true⟩
  expired := fun _ => false

def works (n : ℕ) : List LifeAction := replicate n (.shard .work)

def drains (n : ℕ) : List LifeAction := replicate n (.shard .drain)

/-- The consumer subscribes, and the next cycle walks. -/
def subscribed : List LifeAction :=
  .shard (.start (.subscribe subscribe)) :: works 5 ++ drains 3 ++ [.shard (.walk outside)]

/-- Entries 1 and 2 are published and delivered, `seq` alone is acked, the cursor is
persisted, the broker restarts, and the consumer subscribes again. -/
def history (seq : ℕ) : List LifeAction :=
  [.publish ⟨1, [97], [], 0⟩ 0, .publish ⟨1, [97], [], 0⟩ 0] ++ subscribed ++ drains 6 ++
    .shard (.start (.ack ⟨1, 7, [⟨1, seq, 0⟩]⟩)) :: works 3 ++ [.persist fun _ => true, .restart] ++ subscribed

/-- Entry `seq` of the store. -/
def entry (seq : ℕ) : StoreEntry := ⟨seq, 1, 0, [97], [], 0⟩

/-- Only the higher seq is acked. -/
def higher : ℕ → LifeAction := thenTurns (history 2) outside

theorem higher_repeats : Repeats wh cfg higher 34 ((before wh cfg higher 34).idleCycle outside) :=
  Idle.repeats ⟨rfl, rfl, rfl, rfl, by decide⟩

/-- The cycle that follows the second subscribe. -/
def first : Cycle :=
  (before wh cfg run 33).shard.cycle 1 { outside with store := (before wh cfg run 33).store }

/-- The snapshots of a run that rests from step `K` on. -/
def snaps (K : ℕ) : ℕ → DrainSnapshot := (before wh cfg run K).shard.snapshots

def cycles (K : ℕ) : ℕ → Cycle :=
  firstThen (first run) ((before wh cfg run K).idleCycle outside)

theorem higher_cycles : Cycles wh cfg higher 24 (snaps higher 34) (timeOf 33 34) (cycles higher 34) := by
  refine higher_repeats.cycles (.inr ⟨23, rfl, rfl⟩) (by decide) (by decide) (fun i hi hlt => ?_) rfl
    fun i hi hlt hsome => ?_
  · interval_cases i <;> exact nofun
  · interval_cases i <;> first | exact .inl rfl | exact .inr rfl | cases hsome

theorem higher_done : (cycles higher 34 n).store.lastSeq ≤ (cycles higher 34 n).cursor := by
  cases n with
  | zero => exact le_refl 2
  | succ n => exact le_refl 2

/-- The consumer in the match table, and its binding. -/
def recipient : MatchEntry := ⟨1, 0, 1, 7, some 0⟩

def binding : ActiveBinding := ⟨1, 7, 1, 1, 0, 1, 1, 0, 10, false, 0, 0⟩

theorem higher_owed : ∀ n < 2, OwedAt wh cfg (snaps higher 34) (cycles higher 34) 1 (entry 1) n := by
  intro n hn
  interval_cases n <;> exact ⟨recipient, binding, rfl, rfl, rfl, ⟨_, rfl, by decide⟩, by decide, rfl, ⟨0, rfl, rfl⟩,
    by decide, fun _ => rfl⟩

theorem higher_willing : Willing wh cfg (snaps higher 34) (cycles higher 34) 1 (entry 1) 0 where
  demand n _ := by cases n <;> rfl
  stored n _ := by
    cases n with
    | zero => exact mem_cons_self
    | succ n => exact mem_cons_self
  owed n _ _ := by
    cases n with
    | zero => exact higher_owed 0 (by decide)
    | succ n => exact higher_owed 1 (by decide)
  credit n _ p hp := by
    rw [pinsAt_of_done (higher_done n)] at hp
    cases hp
  accepts n _ r hr := by
    rw [resultAt_of_done (higher_done n)] at hr
    cases hr

theorem higher_history : (historyAt wh cfg (snaps higher 34) (cycles higher 34) n).walked = [] := by
  induction n with
  | zero => rfl
  | succ n ih =>
    show (if (cycles higher 34 n).feeds then _ else _) = []
    rw [if_neg (not_feeds_of_done (higher_done n))]
    exact ih

theorem higher_orderly : ∀ i a, 25 ≤ i → higher i = .shard a → (before wh cfg higher i).shard.Orderly a := by
  refine higher_repeats.orderly (by decide) fun i hi hlt => ?_
  interval_cases i <;> first | exact .inl rfl | exact .inr rfl

/-- Only the lower seq is acked. -/
def lower : ℕ → LifeAction := thenTurns (history 1 ++ drains 5) outside

theorem lower_repeats : Repeats wh cfg lower 39 ((before wh cfg lower 39).idleCycle outside) :=
  Idle.repeats ⟨rfl, rfl, rfl, rfl, by decide⟩

theorem lower_cycles : Cycles wh cfg lower 24 (snaps lower 39) (timeOf 33 39) (cycles lower 39) := by
  refine lower_repeats.cycles (.inr ⟨23, rfl, rfl⟩) (by decide) (by decide) (fun i hi hlt => ?_) rfl
    fun i hi hlt hsome => ?_
  · interval_cases i <;> exact nofun
  · interval_cases i <;> first | exact .inl rfl | exact .inr rfl | cases hsome

theorem lower_orderly : ∀ i a, 25 ≤ i → lower i = .shard a → (before wh cfg lower i).shard.Orderly a := by
  refine lower_repeats.orderly (by decide) fun i hi hlt => ?_
  interval_cases i <;> first | exact .inl rfl | exact .inr rfl

theorem lower_first : SentFirst wh cfg (snaps lower 39) (cycles lower 39) 1 (entry 2) where
  demand n := by cases n <;> rfl
  stored n := by
    cases n with
    | zero => exact mem_cons_of_mem _ mem_cons_self
    | succ n => exact mem_cons_of_mem _ mem_cons_self
  snapId n := by cases n <;> rfl
  coherent := ⟨fun _ => .inl rfl, fun _ => by decide⟩
  sent := ⟨_, recipient, binding, rfl, rfl,
    ⟨rfl, rfl, ⟨_, rfl, by decide⟩, by decide, rfl, ⟨0, rfl, rfl⟩, by decide, fun _ => rfl⟩, .inl (by unfold Sent; decide)⟩
  pins := rfl
  accepted := by
    rintro _ ⟨⟩
    decide
  done _ := ⟨le_refl 2, le_refl 2⟩

end Resumed

end Arbitro
