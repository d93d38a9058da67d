import Mathlib.Data.List.Basic
import Mathlib.Logic.Function.Basic

/-!
# Counting sort into buckets

Items with keys below a bound are placed, bucket after bucket, into one array: count
the keys, sum the counts up to the start of each bucket, and put every item at its
bucket's write cursor. Arrays are functions of the index.

* `bucket_eq`: a bucket holds the items with its key, in their original order.
-/

namespace CountingSort

open List Function

variable {α : Type} (key : α → ℕ)

/-- The counting pass: cell `i + 1` counts the items of bucket `i`. -/
def counts (xs : List α) : ℕ → ℕ :=
  xs.foldl (fun c x => Function.update c (key x + 1) (c (key x + 1) + 1)) fun _ => 0

/-- The running sums: where each bucket starts. -/
def starts (c : ℕ → ℕ) : ℕ → ℕ
  | 0 => c 0
  | i + 1 => c (i + 1) + starts c i

/-- Put an item at the cursor of its bucket, and move the cursor on. -/
def place (s : (ℕ → ℕ) × (ℕ → Option α)) (x : α) : (ℕ → ℕ) × (ℕ → Option α) :=
  (Function.update s.1 (key x) (s.1 (key x) + 1), Function.update s.2 (s.1 (key x)) (some x))

/-- The cells of a bucket. -/
def bucket (xs : List α) (i : ℕ) : List α :=
  let start := starts (counts key xs)
  let placed := (xs.foldl (place key) (start, fun _ => none)).2
  (List.range (start (i + 1) - start i)).filterMap fun j => placed (start i + j)

variable {key} (xs : List α) (i : ℕ)

/-- The size of a bucket. -/
def size (key : α → ℕ) (xs : List α) (i : ℕ) : ℕ := xs.countP (key · == i)

theorem size_cons (x : α) (xs : List α) (i : ℕ) :
    size key (x :: xs) i = size key xs i + if key x = i then 1 else 0 := by
  unfold size
  rw [countP_cons]
  simp

theorem counts_eq : counts key xs 0 = 0 ∧ ∀ i, counts key xs (i + 1) = size key xs i := by
  have hfold : ∀ (xs : List α) (c : ℕ → ℕ),
      let c' := xs.foldl (fun c x => update c (key x + 1) (c (key x + 1) + 1)) c
      c' 0 = c 0 ∧ ∀ i, c' (i + 1) = c (i + 1) + size key xs i := by
    intro xs
    induction xs with
    | nil => intro c; exact ⟨rfl, fun i => rfl⟩
    | cons x xs ih =>
      intro c
      obtain ⟨h0, hi⟩ := ih (update c (key x + 1) (c (key x + 1) + 1))
      refine ⟨h0.trans (by simp), fun i => (hi i).trans ?_⟩
      rw [size_cons]
      by_cases h : key x = i
      · subst h
        simp
        omega
      · rw [update_of_ne (by omega), if_neg h]
        rfl
  obtain ⟨h0, hi⟩ := hfold xs fun _ => 0
  exact ⟨h0, fun i => (hi i).trans (Nat.zero_add _)⟩

theorem starts_succ : starts (counts key xs) (i + 1) = starts (counts key xs) i + size key xs i := by
  show counts key xs (i + 1) + starts (counts key xs) i = _
  rw [(counts_eq xs).2, Nat.add_comm]

/-- A bucket ends before every later one starts. -/
theorem starts_apart {i j : ℕ} (h : i < j) : starts (counts key xs) i + size key xs i ≤ starts (counts key xs) j := by
  obtain ⟨d, rfl⟩ := Nat.exists_eq_add_of_lt h
  induction d with
  | zero => exact Nat.le_of_eq (starts_succ xs i).symm
  | succ d ih =>
    have := ih (by omega)
    have hnext : starts (counts key xs) (i + d + 1 + 1) = _ := starts_succ xs (i + d + 1)
    rw [show i + (d + 1) + 1 = i + d + 1 + 1 by omega]
    omega

/-- **The placing pass**: every bucket is filled in order from its cursor on, and no other
cell is written. -/
theorem foldl_place : ∀ (xs : List α) (s : (ℕ → ℕ) × (ℕ → Option α)), (∀ i j, i < j → s.1 i + size key xs i ≤ s.1 j) →
    let placed := (xs.foldl (place key) s).2
    (∀ i j, j < size key xs i → placed (s.1 i + j) = (xs.filter (key · == i))[j]?) ∧
      ∀ p, (∀ i, p < s.1 i ∨ s.1 i + size key xs i ≤ p) → placed p = s.2 p := by
  intro xs
  induction xs with
  | nil => intro s _; exact ⟨fun i j hj => absurd hj (Nat.not_lt_zero j), fun p _ => rfl⟩
  | cons x xs ih =>
    intro s hapart
    have hcur : ∀ i, (place key s x).1 i = s.1 i + if key x = i then 1 else 0 := by
      intro i
      show update s.1 (key x) (s.1 (key x) + 1) i = _
      rw [update_apply]
      by_cases h : i = key x
      · rw [if_pos h, if_pos h.symm, h]
      · rw [if_neg h, if_neg (Ne.symm h), Nat.add_zero]
    have hcell : ∀ p, (place key s x).2 p = if p = s.1 (key x) then some x else s.2 p := fun p => update_apply _ _ _ _
    obtain ⟨hin, hout⟩ := ih (place key s x) fun i j hij => by
      have := hapart i j hij
      rw [size_cons] at this
      rw [hcur, hcur]
      omega
    refine ⟨fun i j hj => ?_, fun p hp => ?_⟩
    · rw [size_cons] at hj
      by_cases hk : key x = i
      · rw [filter_cons_of_pos (by simpa using hk)]
        cases j with
        | zero =>
          -- the item's own cell is behind every cursor
          refine (hout (s.1 i) fun k => ?_).trans (by rw [hcell, hk, if_pos rfl]; rfl)
          rw [hcur]
          rcases Nat.lt_trichotomy k i with hlt | heq | hlt
          · have := hapart k i hlt
            rw [size_cons] at this
            omega
          · subst heq
            rw [if_pos hk]
            omega
          · have := hapart i k hlt
            rw [size_cons, if_pos hk] at this
            omega
        | succ j =>
          have h := hin i j (by rw [if_pos hk] at hj; omega)
          rw [hcur, if_pos hk] at h
          rw [getElem?_cons_succ, ← h, Nat.add_right_comm]
          rfl
      · rw [filter_cons_of_neg (by simpa using hk)]
        have h := hin i j (by rw [if_neg hk] at hj; omega)
        rw [hcur, if_neg hk, Nat.add_zero] at h
        exact h
    · have hne : p ≠ s.1 (key x) := by
        have := hp (key x)
        rw [size_cons, if_pos rfl] at this
        omega
      refine (hout p fun i => ?_).trans (by rw [hcell, if_neg hne])
      have := hp i
      rw [size_cons] at this
      rw [hcur]
      omega

/-- **A bucket holds the items with its key, in their original order.** -/
theorem bucket_eq : bucket key xs i = xs.filter (key · == i) := by
  obtain ⟨hin, -⟩ := @foldl_place _ key xs (starts (counts key xs), fun _ => none) fun i j => starts_apart xs
  have hlen : (xs.filter (key · == i)).length = size key xs i := countP_eq_length_filter.symm
  unfold bucket
  simp only [starts_succ, Nat.add_sub_cancel_left]
  rw [filterMap_congr (g := fun j => (xs.filter (key · == i))[j]?) fun j hj => hin i j (mem_range.1 hj), ← hlen]
  generalize xs.filter (key · == i) = l
  induction l with
  | nil => rfl
  | cons x l ih =>
    simp only [length_cons, range_succ_eq_map, filterMap_cons, getElem?_cons_zero, filterMap_map,
      comp_def, Nat.succ_eq_add_one, getElem?_cons_succ, ih]

end CountingSort
