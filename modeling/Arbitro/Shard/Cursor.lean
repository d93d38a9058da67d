import Arbitro.Shard.Drain

/-!
# The race on the cursor

The drain task and the command task both store to the cursor word, and the command
task asks for a rewind through a second word. Here every access to the two words is a
step of its own: `take_rewind`, the load and the store of `apply_rewind`, the load of
`drain_read`, the store of `advance_cursor`; the load and the conditional store of
`rewind_released` and its `signal_rewind`. Each task keeps what it has loaded in its
program counter, so a step acts on a value that may have gone stale.

The command side is one task: its calls to `rewind_released` do not overlap.
-/

namespace Arbitro

/-- Where the drain task stands in its cycle. -/
inductive DrainPc where
  /-- Before `take_rewind`. -/
  | top
  /-- `take_rewind` returned a signal. -/
  | taken (rw : ℕ)
  /-- `apply_rewind` has loaded the cursor. -/
  | applying (rw cur : ℕ)
  /-- The rewind is dealt with, `drain_read` has not loaded the cursor. -/
  | ready
  /-- `drain_read` has loaded the cursor, which is the cursor of the cycle. -/
  | loaded (c : Cycle)
  /-- The window is walked and flushed, `advance_cursor` has not stored. -/
  | walked (r : CycleResult)

/-- Where the command task stands in `rewind_released`. -/
inductive RewindPc where
  | idle
  /-- The cursor is loaded. -/
  | loaded (minSeq cur : ℕ)
  /-- The conditional store is done, the signal is not sent. -/
  | stored (minSeq : ℕ)

structure CursorRace where
  counters : SharedCounters
  memory : Memory := {}
  drain : DrainPc := .top
  command : RewindPc := .idle
  /-- The seqs covered by a rewind that has returned and not walked since. No task reads it. -/
  owing : ℕ → Bool := fun _ => false

/-- The accesses to the two words. `readCursor` brings the other inputs of its cycle along. -/
inductive CursorAction where
  | takeRewind
  | loadCursor
  | storeRewind
  | readCursor (c : Cycle)
  | walk
  | advance
  | call (minSeq : ℕ)
  | storeReleased
  | signal

namespace CursorRace

variable (wireHash32 : WireHash) (cfg : DrainConfig) (snaps : ℕ → DrainSnapshot) (s : CursorRace)

/-- The next step of the drain task. -/
def drainStep (a : CursorAction) : CursorRace :=
  match a, s.drain with
  | .takeRewind, .top =>
    match s.counters.takeRewind with
    | (counters, none) => { s with counters := counters, drain := .ready }
    | (counters, some rw) => { s with counters := counters, drain := .taken rw }
  | .loadCursor, .taken rw => { s with drain := .applying rw s.counters.cursor }
  | .storeRewind, .applying rw cur =>
    { s with
      counters := if 0 < rw ∧ rw - 1 < cur then s.counters.setCursor (rw - 1) else s.counters
      drain := .ready }
  | .readCursor c, .ready => { s with drain := .loaded { c with cursor := s.counters.cursor } }
  | .walk, .loaded c =>
    let memory := s.memory.next wireHash32 cfg snaps c
    match s.memory.cycle wireHash32 cfg snaps c with
    | none => { s with memory := memory, drain := .top }
    | some r =>
      { s with
        memory := memory
        drain := .walked r
        owing := fun q => s.owing q && !(decide (r.read.start ≤ q) && decide (q < r.read.stop)) }
  | .advance, .walked r => { s with counters := s.counters.setCursor r.cursor, drain := .top }
  | _, _ => s

variable (a : CursorAction)

/-- The next step of the command task. A call with `min_seq == 0` returns at once. -/
def commandStep : CursorRace :=
  match a, s.command with
  | .call minSeq, .idle =>
    if minSeq = 0 then s else { s with command := .loaded minSeq s.counters.cursor }
  | .storeReleased, .loaded minSeq cur =>
    { s with
      counters := if minSeq - 1 < cur then s.counters.setCursor (minSeq - 1) else s.counters
      command := .stored minSeq }
  | .signal, .stored minSeq =>
    { s with
      counters := s.counters.signalRewind minSeq
      command := .idle
      owing := fun q => s.owing q || decide (minSeq ≤ q) }
  | _, _ => s

/-- One access of either task; an action its task is not at does nothing. -/
def step : CursorRace :=
  match a with
  | .call _ | .storeReleased | .signal => s.commandStep a
  | _ => s.drainStep wireHash32 cfg snaps a

/-- Both tasks at rest, no rewind asked for. -/
def start (counters : SharedCounters) (memory : Memory) : CursorRace where
  counters := { counters with rewind := noRewind }
  memory := memory

/-- The seq at which the step starts a walk. -/
def walkStart : Option ℕ :=
  match a, s.drain with
  | .walk, .loaded c => (s.memory.cycle wireHash32 cfg snaps c).map (·.read.start)
  | _, _ => none

/-- The seqs at which the drain cycles of a run start their walks, in order. -/
def walks : CursorRace → List CursorAction → List ℕ
  | _, [] => []
  | s, a :: as =>
    (s.walkStart wireHash32 cfg snaps a).toList ++ walks (s.step wireHash32 cfg snaps a) as

/-- The step moves the cursor forward over `q`, which an earlier rewind covers and no walk
has visited since. -/
def Passes (q : ℕ) : Prop :=
  s.owing q = true ∧ s.counters.cursor < q ∧ q ≤ (s.step wireHash32 cfg snaps a).counters.cursor

/-- The conditional store of `rewind_released` does not raise the cursor. -/
def Lowers : Prop :=
  match a, s.command with
  | .storeReleased, .loaded minSeq cur => minSeq - 1 < cur → minSeq - 1 ≤ s.counters.cursor
  | _, _ => True

end CursorRace

end Arbitro
