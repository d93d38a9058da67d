import Arbitro.Cluster.Storage

/-!
# The apply loop

`apply_loop` hands the committed entries of the Raft log to the state machine. At every tick it
reads all entries between the last one applied and the commit index at once, into a buffer that
is doubled, up to a cap, when they do not fit.

The state machine decodes an entry and keeps the command; how commands are written is a parameter.
What the worker behind the channel does with them is not part of this model.
-/

namespace Arbitro

namespace RaftLog

/-- The loop of `read_entries`, from an offset of the buffer. -/
def fill (bufLen : ℕ) : ℕ → List LogEntry → Except RaftError (List LogEntry)
  | _, [] => .ok []
  | offset, e :: es =>
    if bufLen < offset + e.payload.length then .error (.storage "payload_buf too small")
    else
      match fill bufLen (offset + e.payload.length) es with
      | .ok out => .ok (e :: out)
      | .error err => .error err

/-- `read_entries`: the entries with an index in `[first, stop)`. -/
def Storage.readEntries (s : Storage) (first stop bufLen : ℕ) : Except RaftError (List LogEntry) :=
  fill bufLen 0 ((s.log.dropWhile (·.index.toNat < first)).takeWhile (·.index.toNat < stop))

def payloadBufMax : ℕ := 16 * 1024 * 1024

/-- `ArbitroStateMachine`: the commands applied, and those sent to the worker. -/
structure StateMachine (C : Type) where
  applied : List C := []
  sent : List C := []
  deriving DecidableEq, Repr

/-- `apply`. An entry that does not decode is an error and changes nothing. -/
def StateMachine.apply {C : Type} (decode : Bytes → Option C) (m : StateMachine C) (entry : Bytes) : StateMachine C :=
  match decode entry with
  | none => m
  | some cmd => { applied := m.applied ++ [cmd], sent := m.sent ++ [cmd] }

structure ApplyLoop (C : Type) where
  lastApplied : ℕ := 0
  /-- The length of the payload buffer. -/
  payloadBuf : ℕ := 64 * 1024
  machine : StateMachine C := {}
  /-- The entries that have been handed to the state machine. -/
  handed : List LogEntry := []
  deriving DecidableEq, Repr

namespace ApplyLoop

variable {C : Type} (decode : Bytes → Option C)

/-- The loop over the entries read. -/
def applyEntry (applyUpper : ℕ) (a : ApplyLoop C) (e : LogEntry) : ApplyLoop C :=
  if a.lastApplied < e.index.toNat ∧ e.index.toNat ≤ applyUpper then
    { a with
      machine := a.machine.apply decode e.payload
      lastApplied := e.index.toNat
      handed := a.handed ++ [e] }
  else a

/-- A tick of the interval, with the commit index it observes. -/
def tick (s : Storage) (committed : ℕ) (a : ApplyLoop C) : ApplyLoop C :=
  if committed ≤ a.lastApplied then a
  else
    let applyUpper := min committed s.lastLogPosition.1.toNat
    if applyUpper ≤ a.lastApplied then a
    else
      match s.readEntries (a.lastApplied + 1) (applyUpper + 1) a.payloadBuf with
      | .ok entries => entries.foldl (applyEntry decode applyUpper) a
      | .error _ =>
        if a.payloadBuf < payloadBufMax then { a with payloadBuf := min (a.payloadBuf * 2) payloadBufMax } else a

end ApplyLoop

/-- A node's storage, the commit index it observes, and its apply loop. -/
structure Follower (C : Type) where
  storage : Storage
  committed : ℕ := 0
  loop : ApplyLoop C := {}
  deriving DecidableEq, Repr

inductive FollowerAction where
  /-- The Raft node has changed the log. -/
  | store (s : Storage)
  | commit (index : ℕ)
  | tick
  /-- The process starts anew: nothing is known to be committed, and the state machine is empty. -/
  | restart
  deriving DecidableEq, Repr

def Follower.step {C : Type} (decode : Bytes → Option C) (w : Follower C) : FollowerAction → Follower C
  | .store s => { w with storage := s }
  | .commit index => { w with committed := index }
  | .tick => { w with loop := w.loop.tick decode w.storage w.committed }
  | .restart => { w with committed := 0, loop := {} }

end RaftLog

end Arbitro
