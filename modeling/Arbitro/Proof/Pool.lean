import Mathlib.Data.List.Induction
import Arbitro.Server.Registry

/-!
# The id pool

A pool with the log of its successful operations. The generation of a slot counts how often the
slot was handed out, which is what keeps the pairs apart, and the log read back gives the pool.
-/

namespace Arbitro

open List IdPool

/-- An entry of the log: a slot with the generation it was allocated with, or a slot freed. -/
structure PoolRecord where
  slot : ℕ
  generation : Option ℕ

inductive PoolOp where
  | alloc
  | free (slot : ℕ)

namespace IdPool

variable {p p' : IdPool} {slot g : ℕ} {used : ℕ → Prop}

/-- The ids in use are dense, and no id is both in use and free. -/
structure Holds (p : IdPool) (used : ℕ → Prop) : Prop where
  used : ∀ s, used s → s < p.nextSlot ∧ s ∉ p.freeSlots
  free : ∀ s ∈ p.freeSlots, s < p.nextSlot
  nodup : p.freeSlots.Nodup
  count : p.generations.length = p.nextSlot
  room : p.nextSlot ≤ p.maxSlots

theorem alloc_next (h : p.alloc = some ((slot, g), p')) : slot = p.next := by
  unfold IdPool.alloc at h
  unfold IdPool.next
  split at h
  case h_1 s free hfree =>
    obtain ⟨⟨rfl, -⟩, -⟩ : (s = slot ∧ _ = g) ∧ _ = p' := by simpa using h
    rw [hfree]
    rfl
  case h_2 hfree =>
  rw [hfree]
  split at h
  · cases h
  · obtain ⟨⟨rfl, -⟩, -⟩ : (p.nextSlot = slot ∧ 0 = g) ∧ _ = p' := by simpa using h
    rfl

theorem Holds.alloc (h : p.Holds used) (ha : p.alloc = some ((slot, g), p')) :
    ¬ used slot ∧ slot < p.maxSlots ∧ p'.maxSlots = p.maxSlots ∧ p'.Holds fun s => used s ∨ s = slot := by
  unfold IdPool.alloc at ha
  split at ha
  case h_1 s free hfree =>
    obtain ⟨⟨rfl, rfl⟩, rfl⟩ : (s = slot ∧ _ = g) ∧ _ = p' := by simpa using ha
    have hs : s ∈ p.freeSlots := by rw [hfree]; exact mem_cons_self
    have hnodup := h.nodup
    rw [hfree, nodup_cons] at hnodup
    refine ⟨fun hu => (h.used s hu).2 hs, (h.free s hs).trans_le h.room, rfl, ⟨fun x hx => ?_, fun x hx => ?_,
      hnodup.2, by simpa using h.count, h.room⟩⟩
    · rcases hx with hx | rfl
      · refine ⟨(h.used x hx).1, fun hmem => (h.used x hx).2 ?_⟩
        rw [hfree]
        exact mem_cons_of_mem _ hmem
      · exact ⟨h.free x hs, hnodup.1⟩
    · apply h.free
      rw [hfree]
      exact mem_cons_of_mem _ hx
  case h_2 hfree =>
    split at ha
    · cases ha
    case isFalse hroom =>
    obtain ⟨⟨rfl, rfl⟩, rfl⟩ : (p.nextSlot = slot ∧ 0 = g) ∧ _ = p' := by simpa using ha
    have hcount := h.count
    refine ⟨fun hu => absurd (h.used _ hu).1 (Nat.lt_irrefl _), by omega, rfl, ⟨fun x hx => ?_, fun x hx => ?_, h.nodup,
      by simpa using hcount, by show p.nextSlot + 1 ≤ p.maxSlots; omega⟩⟩
    · show x < p.nextSlot + 1 ∧ x ∉ p.freeSlots
      rw [hfree]
      rcases hx with hx | rfl
      · exact ⟨Nat.lt_succ_of_lt (h.used x hx).1, not_mem_nil⟩
      · exact ⟨Nat.lt_succ_self _, not_mem_nil⟩
    · exact Nat.lt_succ_of_lt (h.free x hx)

theorem Holds.release (h : p.Holds used) (slot : ℕ) : (p.release slot).Holds fun s => used s ∧ s ≠ slot := by
  unfold IdPool.release IdPool.free
  split
  · exact { h with used := fun x hx => h.used x hx.1 }
  case isFalse hif =>
  rw [h.count, not_or, not_le] at hif
  refine ⟨fun x hx => ⟨(h.used x hx.1).1, ?_⟩, forall_mem_cons.2 ⟨hif.1, h.free⟩, nodup_cons.2 ⟨hif.2, h.nodup⟩,
    h.count, h.room⟩
  exact not_mem_cons_of_ne_of_not_mem hx.2 (h.used x hx.1).2

def replayRecord (p : IdPool) (r : PoolRecord) : Option IdPool :=
  match r.generation with
  | some g => p.replayAlloc r.slot g
  | none => p.replayFree r.slot

/-- How often a slot was handed out, by its generation. -/
def rounds (p : IdPool) (s : ℕ) : ℕ := (p.generations[s]?.map (· + 1)).getD 0

/-- What `alloc` hands out, and that `replay_alloc` of it does the same. -/
theorem alloc_replays (h : p.Holds used) (ha : p.alloc = some ((slot, g), p'))
    (hwrap : p.rounds slot < 2 ^ 32) : g = p.rounds slot ∧ p.replayAlloc slot g = some p' ∧
      ∀ s, p'.generations[s]? = if s = slot then some g else p.generations[s]? := by
  have hcount := h.count
  have hroom := h.room
  unfold rounds at hwrap ⊢
  unfold alloc at ha
  split at ha
  case h_1 s free hfree =>
    obtain ⟨⟨rfl, rfl⟩, rfl⟩ : (s = slot ∧ _ = g) ∧ _ = p' := by simpa using ha
    have hlt := h.free s (by rw [hfree]; exact mem_cons_self)
    have hnot := h.nodup
    rw [hfree, nodup_cons] at hnot
    have hkeep : free.filter (· ≠ s) = free := filter_eq_self.2 fun x hx => by
      simpa using ne_of_mem_of_not_mem hx hnot.1
    obtain ⟨k, hk⟩ : ∃ k, p.generations[s]? = some k := ⟨_, getElem?_eq_getElem (hcount ▸ hlt)⟩
    rw [hk] at hwrap ⊢
    rw [show ((some k).getD 0 + 1) % 4294967296 = k + 1 from Nat.mod_eq_of_lt hwrap]
    refine ⟨rfl, ?_, fun x => ?_⟩
    · unfold replayAlloc
      rw [if_neg (by omega), Nat.sub_eq_zero_of_le (by omega), hfree, filter_cons_of_neg (by simp), hkeep,
        max_eq_left (by omega)]
      simp
    · rw [getElem?_set]
      grind
  case h_2 hfree =>
    split at ha
    · cases ha
    case isFalse hmax =>
    obtain ⟨⟨rfl, rfl⟩, rfl⟩ : (p.nextSlot = slot ∧ 0 = g) ∧ _ = p' := by simpa using ha
    refine ⟨by simp [← hcount], ?_, fun x => ?_⟩
    · unfold replayAlloc
      rw [if_neg hmax, hcount, Nat.add_sub_cancel_left, max_eq_right (by omega), hfree]
      simp [← hcount]
    · grind

end IdPool

/-- A pool and the log of what it did, the last record first. -/
structure LoggedPool where
  pool : IdPool
  log : List PoolRecord := []

namespace LoggedPool

variable {r : LoggedPool} (maxSlots : ℕ) (ops : List PoolOp)

def step (r : LoggedPool) : PoolOp → LoggedPool
  | .alloc => match r.pool.alloc with
    | some ((slot, g), pool) => ⟨pool, ⟨slot, some g⟩ :: r.log⟩
    | none => r
  | .free slot => match r.pool.free slot with
    | some pool => ⟨pool, ⟨slot, none⟩ :: r.log⟩
    | none => r

def run (maxSlots : ℕ) (ops : List PoolOp) : LoggedPool := ops.foldl step ⟨{ maxSlots := maxSlots }, []⟩

/-- The pairs handed out, the last first. -/
def handed (r : LoggedPool) : List (ℕ × ℕ) := r.log.filterMap fun x => x.generation.map (x.slot, ·)

/-- The last record of the slot is an allocation. -/
def Allocated (r : LoggedPool) (s : ℕ) : Prop := ∃ x, r.log.find? (·.slot = s) = some x ∧ x.generation.isSome

structure OK (r : LoggedPool) (maxSlots : ℕ) : Prop where
  holds : r.pool.Holds r.Allocated
  count : ∀ s, r.handed.countP (·.1 = s) = r.pool.rounds s
  latest : ∀ s, r.handed.find? (·.1 = s) = r.pool.generations[s]?.map (s, ·)
  past : ∀ x ∈ r.handed, x.2 < r.pool.rounds x.1
  nodup : r.handed.Nodup
  replays : r.log.reverse.foldlM IdPool.replayRecord { maxSlots := maxSlots } = some r.pool

theorem OK.step {maxSlots : ℕ} (h : r.OK maxSlots) (op : PoolOp)
    (hreuse : ∀ s, (r.step op).handed.countP (·.1 = s) ≤ 2 ^ 32) : (r.step op).OK maxSlots := by
  cases op with
  | alloc =>
    unfold LoggedPool.step at hreuse ⊢
    cases ha : r.pool.alloc with
    | none => exact h
    | some a =>
    obtain ⟨⟨slot, g⟩, pool⟩ := a
    rw [ha] at hreuse
    have hhanded : handed ⟨pool, ⟨slot, some g⟩ :: r.log⟩ = (slot, g) :: r.handed := rfl
    have hcount : ∀ s, (handed ⟨pool, ⟨slot, some g⟩ :: r.log⟩).countP (·.1 = s) =
        r.pool.rounds s + if slot = s then 1 else 0 := by
      intro s
      rw [hhanded, countP_cons, h.count]
      simp
    have hwrap := hreuse slot
    rw [hcount, if_pos rfl] at hwrap
    obtain ⟨hg, hreplay, hgens⟩ := alloc_replays h.holds ha hwrap
    have hrounds : ∀ s, pool.rounds s = r.pool.rounds s + if slot = s then 1 else 0 := by
      intro s
      simp only [rounds, hgens, eq_comm (a := s)]
      split
      case isTrue heq => rw [← heq, hg]; rfl
      case isFalse => rfl
    obtain ⟨-, -, -, hholds⟩ := h.holds.alloc ha
    refine ⟨{ hholds with used := fun s hs => hholds.used s ?_ }, fun s => (hcount s).trans (hrounds s).symm,
      fun s => ?_, fun x hx => ?_, nodup_cons.2 ⟨fun hmem => (h.past _ hmem).ne hg, h.nodup⟩, ?_⟩
    · obtain ⟨x, hx, hsome⟩ := hs
      rw [find?_cons] at hx
      split at hx
      case h_1 heq => exact .inr (by simpa [eq_comm] using heq)
      case h_2 => exact .inl ⟨x, hx, hsome⟩
    · rw [hhanded, find?_cons, hgens, h.latest]
      by_cases heq : slot = s
      · simp [heq]
      · simp [heq, Ne.symm heq]
    · rw [hrounds]
      rcases mem_cons.1 hx with rfl | hx
      · simp [hg]
      · exact Nat.lt_add_right _ (h.past x hx)
    · rw [reverse_cons, foldlM_append, h.replays]
      simpa [replayRecord] using hreplay
  | free slot =>
    simp only [LoggedPool.step]
    cases hfree : r.pool.free slot with
    | none => exact h
    | some p =>
    have hgens : p.generations = r.pool.generations := by
      unfold free at hfree
      split at hfree
      · cases hfree
      · cases hfree
        rfl
    have hrounds : p.rounds = r.pool.rounds := by
      unfold rounds
      rw [hgens]
    have hholds := h.holds.release slot
    rw [IdPool.release, hfree] at hholds
    refine ⟨{ hholds with used := fun s hs => hholds.used s ?_ }, fun s => ?_, fun s => ?_, fun x hx => ?_, h.nodup, ?_⟩
    · obtain ⟨x, hx, hsome⟩ := hs
      rw [find?_cons] at hx
      split at hx
      case h_1 => cases hx; cases hsome
      case h_2 hne => exact ⟨⟨x, hx, hsome⟩, fun heq => by simp [heq] at hne⟩
    · rw [hrounds]; exact h.count s
    · rw [hgens]; exact h.latest s
    · rw [hrounds]; exact h.past x hx
    · rw [reverse_cons, foldlM_append, h.replays]
      simpa [replayRecord, replayFree] using hfree

theorem handed_suffix {op : PoolOp} : r.handed <:+ (r.step op).handed := by
  refine IsSuffix.filterMap _ ?_
  unfold step
  split <;> split <;> simp

theorem ok_run
    (hreuse : ∀ s, (run maxSlots ops).handed.countP (·.1 = s) ≤ 2 ^ 32) : (run maxSlots ops).OK maxSlots := by
  unfold run at hreuse ⊢
  induction ops using reverseRecOn with
  | nil =>
    refine ⟨⟨?_, by simp, by simp, rfl, Nat.zero_le _⟩, fun _ => rfl, fun _ => rfl, by simp [handed], .nil, rfl⟩
    rintro s ⟨x, ⟨⟩, -⟩
  | append_singleton ops op ih =>
    rw [foldl_append] at hreuse ⊢
    exact (ih fun s => (handed_suffix.sublist.countP_le).trans (hreuse s)).step op hreuse

/-- **A slot is handed out only while it is free, each time with a new generation**, which is
current until the slot is handed out again. The log read back, and a snapshot, give the pool. -/
theorem pool_sound
    (hreuse : ∀ s, (run maxSlots ops).handed.countP (·.1 = s) ≤ 2 ^ 32) :
    let r := run maxSlots ops
    (∀ s g pool, r.pool.alloc = some ((s, g), pool) → ¬ r.Allocated s) ∧ r.handed.Nodup ∧
      (∀ s g, r.pool.isCurrent s g = true ↔ r.handed.find? (·.1 = s) = some (s, g)) ∧
      r.log.reverse.foldlM IdPool.replayRecord { maxSlots := maxSlots } = some r.pool ∧
      IdPool.restoreFrom r.pool = some r.pool := by
  have h := ok_run maxSlots ops hreuse
  refine ⟨fun s g pool ha => (h.holds.alloc ha).1, h.nodup, fun s g => ?_, h.replays, ?_⟩
  · rw [h.latest, IdPool.isCurrent]
    cases (run maxSlots ops).pool.generations[s]? <;> simp
  · unfold IdPool.restoreFrom
    rw [if_neg (by simp [h.holds.count]), if_neg (by simp [h.holds.nodup]), if_neg]
    rintro ⟨s, hs, hle⟩
    rw [h.holds.count] at hle
    exact absurd (h.holds.free s hs) (by omega)

/-- Slot 0 is freed and handed out again. -/
theorem pool_sound_reused :
    let r := run 2 [.alloc, .alloc, .free 0, .alloc]
    r.handed = [(0, 1), (1, 0), (0, 0)] ∧ r.handed.Nodup ∧ r.pool.isCurrent 0 0 = false ∧
      IdPool.restoreFrom r.pool = some r.pool := by
  obtain ⟨-, hnodup, -, -, hrestore⟩ := pool_sound 2 [.alloc, .alloc, .free 0, .alloc]
    fun s => countP_le_length.trans (by decide)
  exact ⟨rfl, hnodup, rfl, hrestore⟩

end LoggedPool

end Arbitro
