import Arbitro.Engine.Basic

/-!
# Shared counters

The atomics the drain and the command task of a shard share. Every method is one
atomic read-modify-write on one word (`signal_rewind` and the saturating
decrements retry until their compare-and-swap lands), so each is one function of
the state.
-/

namespace Arbitro

/-- `NO_REWIND`: the rewind word when nothing is asked for. -/
def noRewind : ℕ := 2 ^ 64 - 1

structure SharedCounters where
  consumer : ConsumerId → ℕ := fun _ => 0
  queue : QueueId → ℕ := fun _ => 0
  demand : StreamId → ℕ := fun _ => 0
  totalDemand : ℕ := 0
  paused : ConsumerId → Bool := fun _ => false
  cursor : ℕ := 0
  rewind : ℕ := noRewind

variable (c : SharedCounters)

namespace SharedCounters

def incInflight (consumerId : ConsumerId) (queueId : QueueId) : SharedCounters :=
  { c with
    consumer := Function.update c.consumer consumerId (c.consumer consumerId + 1)
    queue := Function.update c.queue queueId (c.queue queueId + 1) }

/-- `dec_inflight_bulk`: saturates at zero. `dec_inflight` is the case `count = 1`. -/
def decInflightBulk (consumerId : ConsumerId) (queueId : QueueId) (count : ℕ) : SharedCounters :=
  { c with
    consumer := Function.update c.consumer consumerId (c.consumer consumerId - count)
    queue := Function.update c.queue queueId (c.queue queueId - count) }

def hasAnyDemand : Bool := 0 < c.totalDemand

def hasDemand (id : StreamId) : Bool := 0 < c.demand id

/-- `inc_demand`: a wrapping `fetch_add`. -/
def incDemand (id : StreamId) : SharedCounters :=
  { c with
    demand := Function.update c.demand id ((c.demand id + 1) % 2 ^ 32)
    totalDemand := (c.totalDemand + 1) % 2 ^ 32 }

/-- `dec_demand`: a wrapping `fetch_sub`. -/
def decDemand (id : StreamId) : SharedCounters :=
  { c with
    demand := Function.update c.demand id ((c.demand id + (2 ^ 32 - 1)) % 2 ^ 32)
    totalDemand := (c.totalDemand + (2 ^ 32 - 1)) % 2 ^ 32 }

def setPaused (id : ConsumerId) (val : Bool) : SharedCounters :=
  { c with paused := Function.update c.paused id val }

def setCursor (val : ℕ) : SharedCounters := { c with cursor := val }

/-- `signal_rewind`: signals compose to the least one. -/
def signalRewind (target : ℕ) : SharedCounters :=
  { c with rewind := min c.rewind target }

/-- `take_rewind`: the pending signal, and the word reset. -/
def takeRewind : SharedCounters × Option ℕ :=
  ({ c with rewind := noRewind }, if c.rewind = noRewind then none else some c.rewind)

/-- `apply_rewind`, run at the top of a drain cycle: consume the signal and move
the cursor back. -/
def applyRewind : SharedCounters :=
  match c.takeRewind with
  | (c', none) => c'
  | (c', some rw) => if 0 < rw ∧ rw - 1 < c'.cursor then c'.setCursor (rw - 1) else c'

/-- `rewind_released`, run by the command task. -/
def rewindReleased (minSeq : ℕ) : SharedCounters :=
  if minSeq = 0 then c
  else (if minSeq - 1 < c.cursor then c.setCursor (minSeq - 1) else c).signalRewind minSeq

end SharedCounters

end Arbitro
