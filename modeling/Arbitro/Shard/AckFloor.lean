import Arbitro.Lib.Contig
import Arbitro.Engine.Basic

/-!
# Contiguous-acked floors

Per consumer, the highest floor such that every seq at or below it was acked,
with the seqs acked out of order above it. Owned by the command task.
-/

namespace Arbitro

/-- Cap on the out-of-order set (`OOO_CAP`). -/
def oooCap : ℕ := 1024

/-- `FloorSlot`: the buffered seqs leave a gap above the floor. -/
structure FloorSlot where
  floor : ℕ
  ooo : Finset ℕ
  gap : ∀ s ∈ ooo, floor + 1 < s

namespace FloorSlot

/-- `FloorSlot::default`. -/
def empty : FloorSlot := ⟨0, ∅, by simp⟩

/-- Set the floor, drop what it covers (`split_off`) and absorb the run above it. -/
def raiseTo (floor : ℕ) (ooo : Finset ℕ) : FloorSlot where
  floor := (Contig.absorb (ooo.filter (floor < ·)).card floor (ooo.filter (floor < ·))).1
  ooo := (Contig.absorb (ooo.filter (floor < ·)).card floor (ooo.filter (floor < ·))).2
  gap := (Contig.absorb_spec _ _ _ le_rfl fun _ hs => (Finset.mem_filter.1 hs).2).2.2.2

/-- `FloorSlot::record`: at the cap an out-of-order seq is not buffered, and the
floor stalls. Every buffered seq is above the floor, so the filter in `raiseTo`
drops nothing here. -/
def record (s : FloorSlot) (seq : ℕ) : FloorSlot :=
  if hlow : seq ≤ s.floor then s
  else if hnext : seq = s.floor + 1 then raiseTo seq s.ooo
  else if s.ooo.card < oooCap then
    ⟨s.floor, insert seq s.ooo, by
      intro x hx
      rcases Finset.mem_insert.1 hx with rfl | hx
      · omega
      · exact s.gap x hx⟩
  else s

/-- `AckFloors::seed` on one slot: never lowers a floor. -/
def seed (s : FloorSlot) (floor : ℕ) : FloorSlot :=
  if s.floor < floor then raiseTo floor s.ooo else s

end FloorSlot

/-- `AckFloors`: one optional slot per consumer. -/
abbrev AckFloors := ConsumerId → Option FloorSlot

namespace AckFloors

def slot (f : AckFloors) (c : ConsumerId) : FloorSlot := (f c).getD .empty

def recordAcked (f : AckFloors) (c : ConsumerId) (seq : ℕ) : AckFloors :=
  Function.update f c (some ((f.slot c).record seq))

def seed (f : AckFloors) (c : ConsumerId) (floor : ℕ) : AckFloors :=
  Function.update f c (some ((f.slot c).seed floor))

/-- `floor`: 0 when nothing was acked contiguously. -/
def floor (f : AckFloors) (c : ConsumerId) : ℕ := (f.slot c).floor

/-- `remove`, when a consumer entity is deleted. -/
def remove (f : AckFloors) (c : ConsumerId) : AckFloors := Function.update f c none

end AckFloors

end Arbitro
