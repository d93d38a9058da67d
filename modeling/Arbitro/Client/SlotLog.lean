import Arbitro.Client.Slot
import Mathlib.Data.List.Dedup
import Mathlib.Data.List.Sort

/-!
# The log behind a slot

The log-backed store appends a frame for each change of a slot and reads them back when it is
opened. Evictions are not logged, and a snapshot or a compaction puts one time on all it
lists. The store in memory starts empty.
-/

namespace Arbitro

/-- The frames of one slot. -/
inductive SlotFrame where
  | record (ts seq : ℕ)
  -- `OP_CONFIRM` or `OP_EXPIRE`
  | confirm (seq : ℕ)
  | confirmUpTo (cursor : ℕ)
  | snapshot (ts : ℕ) (seqs : List ℕ)
  deriving DecidableEq, Repr

namespace SlotFrame

/-- `apply_replay`; a cutoff of 0 drops nothing. -/
def applyReplay (cutoff : ℕ) (live : List (ℕ × ℕ)) : SlotFrame → List (ℕ × ℕ)
  | record ts seq => if ts < cutoff then live else live.filter (·.1 != seq) ++ [(seq, ts)]
  | confirm seq => live.filter (·.1 != seq)
  | confirmUpTo cursor => live.filter (cursor < ·.1)
  | snapshot ts seqs => if ts < cutoff then [] else seqs.dedup.map (·, ts)

/-- `scan_bytes`, with the entries by seq. -/
def scan (cutoff : ℕ) (log : List SlotFrame) : List (ℕ × ℕ) :=
  (log.foldl (applyReplay cutoff) []).insertionSort (·.1 ≤ ·.1)

end SlotFrame

def Slot.confirm (s : Slot) (seq : ℕ) : Slot := s.retain (·.1 != seq)

/-- A slot, the time to live (0 for none) and the slot's frames. -/
structure SlotLog where
  ttl : ℕ
  slot : Slot
  log : List SlotFrame := []
  deriving DecidableEq, Repr

inductive SlotAction where
  | record (now seq : ℕ)
  | confirm (seq : ℕ)
  | confirmUpTo (cursor : ℕ)
  | sweep (now : ℕ)
  | snapshot (now : ℕ)
  | compact (now : ℕ)
  | reopen (now : ℕ)
  deriving DecidableEq, Repr

namespace SlotLog

def cutoff (s : SlotLog) (now : ℕ) : ℕ := if s.ttl = 0 then 0 else now - s.ttl

/-- `replay` on what a scan found. -/
def opened (slot : Slot) (live : List (ℕ × ℕ)) : Slot where
  kind := slot.kind
  cap := slot.cap
  set := live
  fifo := live.map Prod.fst
  minSeq := (live.head?.map Prod.fst).getD 0
  maxSeq := (live.getLast?.map Prod.fst).getD 0

/-- A snapshot frame, unless nothing is live. -/
def snapshotOf (now : ℕ) (live : List (ℕ × ℕ)) : List SlotFrame :=
  if live.isEmpty then [] else [.snapshot now ((live.map Prod.fst).insertionSort (· ≤ ·))]

def step (s : SlotLog) : SlotAction → SlotLog
  | .record now seq =>
    { s with
      slot := s.slot.record now seq
      log := if s.slot.tombed || s.slot.has seq then s.log else s.log ++ [.record now seq] }
  | .confirm seq => { s with slot := s.slot.confirm seq, log := s.log ++ [.confirm seq] }
  | .confirmUpTo cursor =>
    { s with
      slot := s.slot.confirmUpTo cursor
      log := if s.slot.keys.any (· ≤ cursor) then s.log ++ [.confirmUpTo cursor] else s.log }
  | .sweep now =>
    match s.slot.kind with
    | .memory => s
    | .wal =>
      { s with
        slot := s.slot.sweep (s.cutoff now)
        log := s.log ++ (s.slot.set.filter (·.2 < s.cutoff now)).map (.confirm ·.1) }
  | .snapshot now => { s with log := s.log ++ snapshotOf now s.slot.set }
  | .compact now => { s with log := snapshotOf now (SlotFrame.scan (s.cutoff now) s.log) }
  | .reopen now =>
    match s.slot.kind with
    | .memory => { s with slot := opened s.slot [] }
    | .wal => { s with slot := opened s.slot (SlotFrame.scan (s.cutoff now) s.log) }

def run (s : SlotLog) (as : List SlotAction) : SlotLog := as.foldl step s

end SlotLog

end Arbitro
