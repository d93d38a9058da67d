import Mathlib.Data.Finset.Card
import Mathlib.Data.Finset.Max

/-!
# Contiguous prefixes with a reorder buffer

Numbers arrive in any order. A floor is kept below which nothing is missing, and
a set of numbers that arrived early. Raising the floor absorbs the run of
buffered numbers that has become contiguous.

* `Contig.absorb`: the loop that swallows the run.
* `Contig.absorb_spec`: it raises the floor only over buffered numbers, keeps
  the others, and stops at a gap.
-/

namespace Contig

/-- While the number after the floor is buffered, take it out and raise the floor.
The first argument bounds the number of turns. -/
def absorb : ℕ → ℕ → Finset ℕ → ℕ × Finset ℕ
  | 0, floor, buf => (floor, buf)
  | n + 1, floor, buf =>
    if floor + 1 ∈ buf then absorb n (floor + 1) (buf.erase (floor + 1)) else (floor, buf)

/-- **What absorbing does**, with as many turns as there are buffered numbers, all
of them above the floor. -/
theorem absorb_spec : ∀ (n floor : ℕ) (buf : Finset ℕ), buf.card ≤ n → (∀ s ∈ buf, floor < s) →
    let r := absorb n floor buf
    floor ≤ r.1 ∧ (∀ s, floor < s → s ≤ r.1 → s ∈ buf) ∧ (∀ s, s ∈ r.2 ↔ s ∈ buf ∧ r.1 < s) ∧
      ∀ s ∈ r.2, r.1 + 1 < s := by
  intro n
  induction n with
  | zero =>
    intro floor buf hcard _
    have hbuf : buf = ∅ := Finset.card_eq_zero.1 (Nat.le_zero.1 hcard)
    subst hbuf
    refine ⟨le_rfl, fun s h1 h2 => ?_, fun s => by simp [absorb], fun s hs => by simp [absorb] at hs⟩
    simp only [absorb] at h2
    omega
  | succ n ih =>
    intro floor buf hcard hlow
    by_cases hnext : floor + 1 ∈ buf
    · have hcard' : (buf.erase (floor + 1)).card ≤ n := by
        rw [Finset.card_erase_of_mem hnext]; omega
      have hlow' : ∀ s ∈ buf.erase (floor + 1), floor + 1 < s := by
        intro s hs
        have h1 := hlow s (Finset.mem_of_mem_erase hs)
        have h2 := Finset.ne_of_mem_erase hs
        omega
      obtain ⟨h1, h2, h3, h4⟩ := ih (floor + 1) (buf.erase (floor + 1)) hcard' hlow'
      simp only [absorb, hnext, if_true]
      refine ⟨by omega, fun s hs hs' => ?_, fun s => ?_, h4⟩
      · by_cases hsf : s = floor + 1
        · rw [hsf]; exact hnext
        · exact Finset.mem_of_mem_erase (h2 s (by omega) hs')
      · rw [h3]
        refine ⟨fun h => ⟨Finset.mem_of_mem_erase h.1, h.2⟩, fun h => ⟨?_, h.2⟩⟩
        exact Finset.mem_erase.2 ⟨by omega, h.1⟩
    · simp only [absorb, hnext, if_false]
      refine ⟨le_rfl, fun s h1 h2 => by omega, fun s => ⟨fun h => ⟨h, hlow s h⟩, fun h => h.1⟩, ?_⟩
      intro s hs
      have h1 := hlow s hs
      have h2 : s ≠ floor + 1 := by rintro rfl; exact hnext hs
      omega

end Contig
