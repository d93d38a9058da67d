import Arbitro.Shard.Snapshot
import Arbitro.Shard.Store

/-!
# Eviction by age

`evict_expired` runs every few seconds on the command task. It walks the journal from the
front, or from where the last call stopped, looks for the first entry of each stream that is
not expired, and truncates the journal at the least of them.
-/

namespace Arbitro

/-- What `evict_expired` reads and writes: the retention of the streams, the journal, the
cursor and the cache it keeps between calls, and the clock. -/
structure Evictor where
  streamRetention : Map StreamId StreamRetention
  backend : Backend
  store : Journal
  evictResumeSeq : ℕ := 0
  /-- The timestamp of the first entry a walk found valid, by stream. -/
  streamOldestTs : Map StreamId ℕ := ∅
  nowMs : ℕ

variable (s : Evictor)

/-- What the walk carries: the streams it need not look at any more, the least valid seq
so far (0 for none) and the timestamps for the cache. -/
structure EvictWalk where
  resolved : List Bool
  minValidSeq : ℕ := 0
  tsUpdates : List (StreamId × ℕ) := []

namespace EvictWalk

def constrain (x : EvictWalk) (seq : ℕ) : EvictWalk :=
  if x.minValidSeq = 0 ∨ seq < x.minValidSeq then { x with minValidSeq := seq } else x

/-- The closure `evict_expired` passes to `for_each`. -/
def visit (cutoffTs : List ℕ) (x : EvictWalk) (e : StoreEntry) : EvictWalk :=
  match x.resolved[e.streamId]? with
  | none => x.constrain e.seq
  | some true => x
  | some false =>
    let cutoff := cutoffTs.getD e.streamId 0
    if cutoff = 0 then { x with resolved := x.resolved.set e.streamId true }.constrain e.seq
    else if cutoff ≤ e.timestamp then
      { x with
        resolved := x.resolved.set e.streamId true
        tsUpdates := x.tsUpdates ++ [(e.streamId, e.timestamp)] }.constrain e.seq
    else x

end EvictWalk

def evictWalkCap : ℕ := 10000

namespace Evictor

def maxAge (id : StreamId) : ℕ := ((s.streamRetention.lookup id).map (·.maxAgeMs)).getD 0

def hasAgeStreams : Bool := s.streamRetention.values.any fun r => 0 < r.maxAgeMs

/-- One more than the greatest stream id of the retention map. -/
def streamSlots : ℕ := (s.streamRetention.keys.max?).getD 0 + 1

/-- `cutoff_ts` of a stream: 0 for no age limit. -/
def cutoffOf (id : StreamId) : ℕ := if 0 < s.maxAge id then s.nowMs - s.maxAge id else 0

def cutoffTs : List ℕ := (List.range s.streamSlots).map s.cutoffOf

/-- Is the stream's cached timestamp at or after its cutoff? The walk does not look at such
a stream. -/
def skipped (id : StreamId) : Bool :=
  0 < s.maxAge id && (s.streamOldestTs.lookup id).any (s.cutoffOf id ≤ ·)

def resolved : List Bool := (List.range s.streamSlots).map s.skipped

/-- Where the walk starts and where it stops. -/
def walkStart : ℕ := max s.store.firstSeq s.evictResumeSeq
def walkEnd : ℕ := min (s.walkStart + evictWalkCap) (s.store.lastSeq + 1)

def walk : EvictWalk :=
  (s.store.forEach s.walkStart s.walkEnd).foldl (EvictWalk.visit s.cutoffTs) { resolved := s.resolved }

def evictExpired : Evictor :=
  if !s.hasAgeStreams || s.store.index.isEmpty then s
  else
    let x := s.walk
    let oldest := x.tsUpdates.foldl (fun m u => m.insert u.1 u.2) s.streamOldestTs
    if s.store.firstSeq < x.minValidSeq then
      let r := s.store.truncateFront s.backend x.minValidSeq
      { s with
        store := r.1
        streamOldestTs := if 0 < r.2 then ∅ else oldest
        evictResumeSeq := 0 }
    else if s.walkEnd < s.store.lastSeq + 1 then
      { s with streamOldestTs := oldest, evictResumeSeq := s.walkEnd }
    else { s with streamOldestTs := oldest, evictResumeSeq := 0 }

inductive Action where
  | append (entry : EntryRef) (timestamp : ℕ)
  | advance (ms : ℕ)
  | evict

def step : Action → Evictor
  | .append entry timestamp => { s with store := s.store.append entry timestamp }
  | .advance ms => { s with nowMs := s.nowMs + ms }
  | .evict => s.evictExpired

end Evictor

end Arbitro
