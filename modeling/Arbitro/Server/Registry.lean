import Arbitro.Engine.Subject

/-!
# Ids and names

`IdPool` hands out dense ids and recycles the one freed last. The streams of `NameRegistry`
are found by the hash of their name. Windows, quotas and replica counts of a stream are left
out; what the admission rules say of a create is part of the request.
-/

namespace Arbitro

/-- `IdPool`; the top of the free list is its head. -/
structure IdPool where
  nextSlot : ℕ := 0
  freeSlots : List ℕ := []
  generations : List ℕ := []
  maxSlots : ℕ
  deriving DecidableEq, Repr

namespace IdPool

variable (p : IdPool)

/-- `alloc`: the slot with its generation. -/
def alloc : Option ((ℕ × ℕ) × IdPool) :=
  match p.freeSlots with
  | slot :: free =>
    let generation := (p.generations.getD slot 0 + 1) % 2 ^ 32
    some ((slot, generation), { p with freeSlots := free, generations := p.generations.set slot generation })
  | [] =>
    if p.maxSlots ≤ p.nextSlot then none
    else some ((p.nextSlot, 0), { p with nextSlot := p.nextSlot + 1, generations := p.generations ++ [0] })

/-- The slot that `alloc` hands out. -/
def next : ℕ := p.freeSlots.headD p.nextSlot

/-- `free`: an error for a slot that was never handed out, or is free. -/
def free (slot : ℕ) : Option IdPool :=
  if p.generations.length ≤ slot ∨ slot ∈ p.freeSlots then none else some { p with freeSlots := slot :: p.freeSlots }

/-- The registry frees a slot and does not look at the error. -/
def release (slot : ℕ) : IdPool := (p.free slot).getD p

def isCurrent (slot generation : ℕ) : Bool := p.generations[slot]?.any (· == generation)

/-- `restore_from`; a `PoolSnapshot` has the fields of the pool. -/
def restoreFrom (snapshot : IdPool) : Option IdPool :=
  if snapshot.nextSlot ≠ snapshot.generations.length then none
  else if ¬ snapshot.freeSlots.Nodup then none
  else if ∃ s ∈ snapshot.freeSlots, snapshot.generations.length ≤ s then none
  else some snapshot

def replayAlloc (slot generation : ℕ) : Option IdPool :=
  if p.maxSlots ≤ slot then none
  else
    let grown := p.generations ++ List.replicate (slot + 1 - p.generations.length) 0
    some { p with
      generations := grown.set slot generation
      freeSlots := p.freeSlots.filter (· ≠ slot)
      nextSlot := max p.nextSlot (slot + 1) }

def replayFree (slot : ℕ) : Option IdPool := p.free slot

end IdPool

def maxSlotCount : ℕ := 4096

/-- The streams of `NameRegistry`. -/
structure StreamRegistry where
  streamsByWire : Map SubjectHash StreamId := ∅
  streamsNameByWire : Map SubjectHash Bytes := ∅
  streamPool : IdPool := { maxSlots := maxSlotCount }

variable (r : StreamRegistry) (wire : SubjectHash)

namespace StreamRegistry

def streamSeq : Option StreamId := r.streamsByWire.lookup wire

/-- `get_or_create_stream`, as the replay of the log calls it: the id and whether it is new, or
nothing when the pool is exhausted. -/
def getOrCreateStream : Option (StreamId × Bool × StreamRegistry) :=
  match r.streamsByWire.lookup wire with
  | some id => some (id, false, r)
  | none => r.streamPool.alloc.map fun a =>
    (a.1.1, true, { r with streamsByWire := r.streamsByWire.insert wire a.1.1, streamPool := a.2 })

/-- `get_or_create_stream_checked`, as requests call it: another name with the same hash is
refused, and so is what the rules do not admit. -/
def getOrCreateStreamChecked (name : Bytes) (admitted : Bool) : Option (StreamId × Bool × StreamRegistry) :=
  match r.streamsByWire.lookup wire with
  | some id =>
    if ((r.streamsNameByWire.lookup wire).map (· == name)).getD true && admitted then some (id, false, r) else none
  | none =>
    if admitted then
      r.streamPool.alloc.map fun a =>
        (a.1.1, true,
          { streamsByWire := r.streamsByWire.insert wire a.1.1
            streamsNameByWire := r.streamsNameByWire.insert wire name
            streamPool := a.2 })
    else none

def removeStream : StreamRegistry :=
  match r.streamsByWire.lookup wire with
  | none => r
  | some id =>
    { streamsByWire := r.streamsByWire.erase wire
      streamsNameByWire := r.streamsNameByWire.erase wire
      streamPool := r.streamPool.release id }

end StreamRegistry

end Arbitro
