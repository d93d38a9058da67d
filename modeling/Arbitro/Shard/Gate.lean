import Mathlib.Data.List.Basic

/-!
# The gate of a drain worker

Publishers append to the store of a shard and then release its gate; the drain worker sleeps in
`acquire` while there is nothing to deliver. An action is one atomic step of a publisher or of the
worker: an access to the flag, one call on `Notify`, an append, or a walk under the lock of the store.
-/

namespace Arbitro

/-- Where a publisher is. A release on behalf of an ack or a command has no entry. -/
inductive Publisher where
  | idle
  /-- Before the store of the flag in `release`. -/
  | appended (entry : Option ℕ)
  /-- Before `notify_one` in `release`. -/
  | opened (entry : Option ℕ)

/-- Where the drain worker is. -/
inductive GatePhase where
  /-- In `acquire`, before the load of the flag. -/
  | acquiring
  /-- In `acquire`, before the first poll of `notified`. -/
  | polling
  /-- In `acquire`, waiting to be notified. -/
  | parked
  /-- Behind `acquire`. -/
  | acquired
  /-- At the top of the inner loop. -/
  | top
  /-- Before `lock`. -/
  | clearing
  /-- Before the walk. -/
  | reading
  /-- In `reopen_if_pending`, before the store of the flag. -/
  | reopening
  /-- In `reopen_if_pending`, before `notify_one`. -/
  | notifying
  /-- Before or in the sleep of a stalled cycle. -/
  | resting
  /-- Before `park_verdict`. -/
  | deciding
  | exited
  deriving DecidableEq

structure GateSystem where
  /-- The flag `open`. -/
  isOpen : Bool := false
  /-- Does `Notify` store a permit? -/
  permit : Bool := false
  running : Bool := true
  publishers : ℕ → Publisher := fun _ => .idle
  worker : GatePhase := .acquiring
  /-- The entries appended so far; they are numbered from 0. -/
  appended : ℕ := 0
  /-- The entries that the last walk has found in the store. -/
  seen : ℕ := 0
  /-- The entries whose release has returned. -/
  completed : List ℕ := []

variable (s : GateSystem)

inductive GateAction where
  /-- The next step of a publisher; an idle one begins, with an append or without. -/
  | publish (p : ℕ) (appends : Bool)
  /-- The next step of the worker; a walk may leave more to deliver. -/
  | drain (morePending : Bool)
  | stop

namespace GateSystem

/-- `Notify::notify_one`: a task that waits is notified, else one permit is stored. -/
def notifyOne : GateSystem :=
  if s.worker = .parked then { s with worker := .acquiring } else { s with permit := true }

def publish (p : ℕ) (appends : Bool) : GateSystem :=
  let move (x : Publisher) := Function.update s.publishers p x
  match s.publishers p with
  | .idle =>
    if appends then { s with appended := s.appended + 1, publishers := move (.appended (some s.appended)) }
    else { s with publishers := move (.appended none) }
  | .appended entry => { s with isOpen := true, publishers := move (.opened entry) }
  | .opened entry => { s.notifyOne with completed := s.completed ++ entry.toList, publishers := move .idle }

/-- `DrainWorker::run`. -/
def drain (morePending : Bool) : GateSystem :=
  match s.worker with
  | .acquiring => { s with worker := if s.isOpen then .acquired else .polling }
  | .polling =>
    if s.permit then { s with permit := false, worker := .acquiring } else { s with worker := .parked }
  | .parked => s
  | .acquired => { s with worker := if s.running then .top else .exited }
  | .top => { s with worker := if s.running then .clearing else .exited }
  | .clearing => { s with isOpen := false, worker := .reading }
  | .reading => { s with seen := s.appended, worker := if morePending then .reopening else .resting }
  | .reopening => { s with isOpen := true, worker := .notifying }
  | .notifying => { s.notifyOne with worker := .resting }
  | .resting => { s with worker := .deciding }
  | .deciding => { s with worker := if s.isOpen then .top else .acquiring }
  | .exited => s

def step : GateAction → GateSystem
  | .publish p appends => s.publish p appends
  | .drain morePending => s.drain morePending
  | .stop => { s with running := false }

end GateSystem

end Arbitro
