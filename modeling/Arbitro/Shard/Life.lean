import Arbitro.Shard.System

/-!
# A shard across restarts

What survives a restart of the broker is the store and the command log; of the log only
the consumer cursors matter here, of which the last record counts. The drain starts at
the end of the store. What recovery replays into the command task are commands like
others, so they are part of the run.
-/

namespace Arbitro

/-- `Store::append`, seen by the drain. -/
def StoreView.append (store : StoreView) (entry : EntryRef) (timestamp : ℕ) : StoreView where
  entries := store.entries ++
    [⟨store.lastSeq + 1, entry.streamId, timestamp, entry.subject, entry.payload, entry.flags⟩]
  lastSeq := store.lastSeq + 1
  sorted := by
    rw [List.pairwise_append]
    refine ⟨store.sorted, List.pairwise_singleton _ _, fun a ha b hb => ?_⟩
    rw [List.mem_singleton.1 hb]
    exact Nat.lt_succ_of_le (store.bounded a ha).2
  bounded := by
    intro e he
    rcases List.mem_append.1 he with he | he
    · exact ⟨(store.bounded e he).1, Nat.le_succ_of_le (store.bounded e he).2⟩
    · rw [List.mem_singleton.1 he]
      exact ⟨Nat.succ_pos _, le_refl _⟩

structure Life where
  shard : Shard := .boot 0 ∅
  store : StoreView := .empty
  /-- `CursorPersister::last_persisted`. -/
  lastPersisted : Map ConsumerId ℕ := ∅
  /-- The last `CMD_CURSOR_UPDATE` of each consumer in the command log. -/
  logged : Map ConsumerId ℕ := ∅
  /-- What was acked before the last restart. No task reads it. -/
  ackedBefore : List (ConsumerId × ℕ) := []

inductive LifeAction where
  | publish (entry : EntryRef) (timestamp : ℕ)
  /-- A step of one of the shard's tasks; a walk reads the store as it is. -/
  | shard (a : ShardAction)
  /-- `persist_changed`; `recorded` says for which consumers the log takes the record. -/
  | persist (recorded : ConsumerId → Bool)
  /-- The registry drops a consumer, its cursor with it. -/
  | forget (c : ConsumerId)
  | restart

namespace Life

variable (wireHash32 : WireHash) (cfg : DrainConfig)

/-- The deliveries acked so far. -/
def acked (l : Life) : List (ConsumerId × ℕ) := l.ackedBefore ++ l.shard.acked

/-- The action as the shard takes it. -/
def reading (l : Life) : ShardAction → ShardAction
  | .walk x => .walk { x with store := l.store }
  | a => a

/-- One cursor of `persist_changed`. -/
def persistOne (recorded : ConsumerId → Bool) (l : Life) (x : Sigma fun _ : ConsumerId => ℕ) : Life :=
  if x.2 = 0 ∨ x.2 ≤ (l.lastPersisted.lookup x.1).getD 0 ∨ recorded x.1 = false then l
  else { l with lastPersisted := l.lastPersisted.insert x.1 x.2, logged := l.logged.insert x.1 x.2 }

/-- Replace the cursors of the registry. -/
def setCursors (s : Shard) (cursors : Map ConsumerId ℕ) : Shard :=
  { s with task := { s.task with worker := { s.task.worker with consumerCursor := cursors } } }

def step (l : Life) : LifeAction → Life
  | .publish entry timestamp => { l with store := l.store.append entry timestamp }
  | .shard a => { l with shard := l.shard.step wireHash32 cfg (l.reading a) }
  | .persist recorded => l.shard.task.worker.consumerCursor.entries.foldl (persistOne recorded) l
  | .forget c => { l with shard := setCursors l.shard (l.shard.task.worker.consumerCursor.erase c) }
  | .restart =>
    { l with shard := .boot l.store.lastSeq l.logged, lastPersisted := ∅, ackedBefore := l.acked }

/-- The state before step `n` of an infinite run. -/
def before (actions : ℕ → LifeAction) : ℕ → Life
  | 0 => {}
  | n + 1 => (before actions n).step wireHash32 cfg (actions n)

end Life

end Arbitro
