import Arbitro.Engine.Basic
import Mathlib.Data.Finset.Card

/-!
# The drain's book of a consumer

Per consumer the drain keeps the number of unsettled deliveries of each subject,
a mirror of the contiguous-acked floor, and the seqs above it that must not be
sent (again): delivered or acked, and not released. The command task changes it
only through `DrainEvent`s.
-/

namespace Arbitro

/-- Cap on the suppression set (`SUPPRESS_CAP`). -/
def suppressCap : ℕ := 4096

/-- `ConsumerSubjects`, with the two invariants its documentation states: no count
is zero and `total` is the sum of the counts. -/
structure ConsumerSubjects where
  inflight : Map SubjectHash ℕ
  total : ℕ
  ackFloor : ℕ
  suppressed : Finset ℕ
  pos : ∀ h n, inflight.lookup h = some n → 0 < n
  sum : total = inflight.total id

namespace ConsumerSubjects

/-- `ConsumerSubjects::new`. -/
def empty : ConsumerSubjects where
  inflight := ∅
  total := 0
  ackFloor := 0
  suppressed := ∅
  pos := by intro h n hn; cases hn
  sum := by rw [Map.total_empty]

variable (cs : ConsumerSubjects)

def get (h : SubjectHash) : ℕ := (cs.inflight.lookup h).getD 0

theorem share_eq_get (h : SubjectHash) : Map.share id cs.inflight h = cs.get h := by
  unfold get
  cases hl : cs.inflight.lookup h with
  | none => exact Map.share_of_none hl
  | some n => exact Map.share_of_lookup hl

/-- `raise_ack_floor`: only ever up; drops what the floor now covers. -/
def raiseAckFloor (floor : ℕ) : ConsumerSubjects :=
  if cs.ackFloor < floor then
    { cs with ackFloor := floor, suppressed := cs.suppressed.filter (floor < ·) }
  else cs

/-- `BTreeSet::pop_first`: all but the least element. -/
def popFirst (s : Finset ℕ) : Finset ℕ := s.filter fun x => ∃ y ∈ s, y < x

/-- `suppress`. At the cap the lowest seq is evicted, also when `seq` is in the
set already. -/
def suppress (seq : ℕ) : ConsumerSubjects :=
  if seq ≤ cs.ackFloor then cs
  else
    let kept := if suppressCap ≤ cs.suppressed.card then popFirst cs.suppressed else cs.suppressed
    { cs with suppressed := insert seq kept }

def release (seq : ℕ) : ConsumerSubjects := { cs with suppressed := cs.suppressed.erase seq }

def isSuppressed (seq : ℕ) : Bool := seq ≤ cs.ackFloor ∨ seq ∈ cs.suppressed

def inc (h : SubjectHash) : ConsumerSubjects :=
  { cs with
    inflight := cs.inflight.insert h (cs.get h + 1)
    total := cs.total + 1
    pos := by
      intro k n hn
      rw [Map.lookup_insert_eq] at hn
      split at hn
      · cases hn; omega
      · exact cs.pos k n hn
    sum := by
      have ht := Map.total_insert id cs.inflight h (cs.get h + 1)
      rw [cs.share_eq_get] at ht
      rw [cs.sum]
      simp only [id] at ht
      omega }

/-- `dec`: removes the entry at zero. -/
def dec (h : SubjectHash) : ConsumerSubjects :=
  match hl : cs.inflight.lookup h with
  | none => cs
  | some n =>
    { cs with
      inflight := if n - 1 = 0 then cs.inflight.erase h else cs.inflight.insert h (n - 1)
      total := cs.total - 1
      pos := by
        intro k m hm
        split at hm
        · rw [Map.lookup_erase_eq] at hm
          split at hm
          · cases hm
          · exact cs.pos k m hm
        · rw [Map.lookup_insert_eq] at hm
          split at hm
          · cases hm; omega
          · exact cs.pos k m hm
      sum := by
        have hs := cs.sum
        have hn := cs.pos h n hl
        split
        · have ht := Map.total_erase id cs.inflight h
          rw [Map.share_of_lookup hl] at ht
          simp only [id] at ht
          omega
        · have ht := Map.total_insert id cs.inflight h (n - 1)
          rw [Map.share_of_lookup hl] at ht
          simp only [id] at ht
          omega }

end ConsumerSubjects

/-! ## Events from the command task -/

/-- What an event does to its seq in the suppression set. -/
inductive SuppressOp where
  /-- A genuine ack: the seq is done for ever. -/
  | acked
  /-- Released without an ack: the seq is owed again. -/
  | released
  /-- Only the counter is corrected. -/
  | none
  deriving DecidableEq, Repr

/-- The payload of `DrainEvent::Ack`. -/
structure AckEvent where
  consumerId : ConsumerId
  subjectHash : SubjectHash
  ackFloor : ℕ
  seq : ℕ
  op : SuppressOp
  deriving DecidableEq, Repr

inductive DrainEvent where
  | ack (e : AckEvent)
  | consumerRemoved (consumerId : ConsumerId)
  deriving DecidableEq, Repr

/-- `consumer_subjects`: one optional slot per consumer, made on first use. -/
abbrev Slots := ConsumerId → Option ConsumerSubjects

namespace Slots

variable (slots : Slots)

def get (c : ConsumerId) (h : SubjectHash) : ℕ := ((slots c).map (·.get h)).getD 0

/-- The suppression check of the recipient loop: no slot suppresses nothing. -/
def isSuppressed (c : ConsumerId) (seq : ℕ) : Bool := ((slots c).map (·.isSuppressed seq)).getD false

/-- `consumer_subjects_slot_mut`, then `f`. -/
def modify (c : ConsumerId) (f : ConsumerSubjects → ConsumerSubjects) : Slots :=
  Function.update slots c (some (f ((slots c).getD .empty)))

/-- One event of `drain_event_ring`. The floor is raised first, so an ack in order
never touches the set; a consumer without a slot is left alone. -/
def applyEvent : DrainEvent → Slots
  | .ack e =>
    match slots e.consumerId with
    | Option.none => slots
    | some cs =>
      let cs := (cs.dec e.subjectHash).raiseAckFloor e.ackFloor
      Function.update slots e.consumerId <| some <|
        match e.op with
        | .acked => cs.suppress e.seq
        | .released => cs.release e.seq
        | .none => cs
  | .consumerRemoved c => Function.update slots c Option.none

end Slots

end Arbitro
