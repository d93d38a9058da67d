import Mathlib.Data.List.Basic

/-!
# A slot of the dedup store

The client remembers, per stream and consumer, the seqs its handlers acked. The store has
two back ends, in memory and as a write-ahead log; a slot is what both keep in memory.
-/

namespace Arbitro

/-- `MemSlot` or `WalSlot`. -/
inductive SlotKind where
  | memory
  | wal
  deriving DecidableEq, Repr

/-- A live set with the times of recording, the order of recording, and the bounds that
`fresh` reads without the lock. -/
structure Slot where
  kind : SlotKind
  cap : ℕ
  set : List (ℕ × ℕ) := []
  fifo : List ℕ := []
  minSeq : ℕ := 0
  maxSeq : ℕ := 0
  tombed : Bool := false
  deriving DecidableEq, Repr

variable (s : Slot)

namespace Slot

def keys : List ℕ := s.set.map Prod.fst

/-- `set.contains_key`. -/
def has (seq : ℕ) : Bool := s.keys.contains seq

/-- The least of some seqs, 0 for none. -/
def least (seqs : List ℕ) : ℕ := seqs.foldl (fun m seq => if m = 0 ∨ seq < m then seq else m) 0

/-- `fresh`: outside the recorded range. -/
def fresh (seq : ℕ) : Bool := s.maxSeq = 0 || s.maxSeq < seq || seq < s.minSeq

def seen (seq : ℕ) : Bool := !s.fresh seq && s.has seq

/-- Drop from the live set. -/
def retain (p : ℕ × ℕ → Bool) : Slot := { s with set := s.set.filter p }

/-- Forget the oldest recordings while there are more than `cap`. -/
def evict : Slot :=
  let old := s.fifo.take (s.fifo.length - s.cap)
  { s.retain fun x => !old.contains x.1 with fifo := s.fifo.drop (s.fifo.length - s.cap) }

/-- `record`, through `check_record`. -/
def record (now seq : ℕ) : Slot :=
  if s.tombed || s.has seq then s
  else
    let s' := { s with set := s.set ++ [(seq, now)], fifo := s.fifo ++ [seq] }.evict
    { s' with
      maxSeq := max s.maxSeq seq
      minSeq := if s.minSeq = 0 ∨ seq < s.minSeq then seq else s.minSeq }

/-- `compact_fifo`: the seqs that are still live, and the least of them. -/
def compactFifo : Slot :=
  if s.fifo.isEmpty then s
  else
    let kept := s.fifo.filter s.has
    { s with fifo := kept, minSeq := least kept }

/-- `confirm_up_to`: drop every live seq up to a cursor. -/
def confirmUpTo (cursor : ℕ) : Slot :=
  let s' := s.retain fun x => cursor < x.1
  if s'.set.length = s.set.length then s
  else
    match s.kind with
    | .memory => { s' with minSeq := least s'.keys }
    | .wal => s'.compactFifo

/-- What `sweep_loop` does to one slot of a log with a time to live. -/
def sweep (cutoff : ℕ) : Slot :=
  let s' := s.retain fun x => cutoff ≤ x.2
  if s.kind = .memory ∨ s'.set.length = s.set.length then s else s'.compactFifo

/-- `delete_slot`, for those that still hold the slot. -/
def delete : Slot := { s with set := [], fifo := [], minSeq := 0, maxSeq := 0, tombed := true }

end Slot

end Arbitro
