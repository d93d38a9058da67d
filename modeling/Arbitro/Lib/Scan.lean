import Mathlib.Data.List.Basic

/-!
# Scanning a log

A reader walks over a log from a position `σ`. At each position it stops, or moves on and
may have read an item. A walk is given a bound on its moves.

* `walk_of_reads`: moves that are known to be made, up to a position where the reader
  stops, are the walk.
* `reads_walk`: a walk is made of moves, which is how facts are carried along it.
* `walk_stops`, `walk_enough`: where every move brings a measure down, a bound of that measure
  is no bound: the walk ends where the reader stops, and does not depend on the bound.
-/

namespace Scan

variable {σ α : Type} (next : σ → Option (Option α × σ))

/-- What is read within so many moves, and the position reached. -/
def walk : ℕ → σ → List α × σ
  | 0, s => ([], s)
  | fuel + 1, s =>
    match next s with
    | none => ([], s)
    | some (item, t) => (item.toList ++ (walk fuel t).1, (walk fuel t).2)

/-- `Reads s n xs t`: `n` moves lead from `s` to `t` and read `xs`. -/
inductive Reads : σ → ℕ → List α → σ → Prop
  | nil (s : σ) : Reads s 0 [] s
  | cons {s t u : σ} {n : ℕ} {item : Option α} {xs : List α} (move : next s = some (item, t))
      (rest : Reads t n xs u) : Reads s (n + 1) (item.toList ++ xs) u

variable {next} {μ : σ → ℕ}

theorem walk_of_stop {s : σ} (h : next s = none) (fuel : ℕ) : walk next fuel s = ([], s) := by
  cases fuel with
  | zero => rfl
  | succ fuel => simp only [walk, h]

/-- **The moves a reader makes before it stops are its walk.** -/
theorem walk_of_reads {s t : σ} {n fuel : ℕ} {xs : List α} (h : Reads next s n xs t)
    (hstop : next t = none) (hfuel : n ≤ fuel) : walk next fuel s = (xs, t) := by
  induction h generalizing fuel with
  | nil s => exact walk_of_stop hstop fuel
  | @cons s t u n item xs move _ ih =>
    obtain ⟨k, rfl⟩ : ∃ k, fuel = k + 1 := ⟨fuel - 1, by omega⟩
    have hrest : walk next k t = (xs, u) := ih hstop (by omega)
    simp only [walk, move, hrest]

theorem reads_walk (fuel : ℕ) (s : σ) :
    ∃ n, Reads next s n (walk next fuel s).1 (walk next fuel s).2 := by
  induction fuel generalizing s with
  | zero => exact ⟨0, .nil s⟩
  | succ fuel ih =>
    cases hs : next s with
    | none =>
      refine ⟨0, ?_⟩
      simp only [walk, hs]
      exact .nil s
    | some p =>
      obtain ⟨item, t⟩ := p
      obtain ⟨n, hrest⟩ := ih t
      refine ⟨n + 1, ?_⟩
      simp only [walk, hs]
      exact .cons hs hrest

/-- A walk whose moves bring a measure down ends where the reader stops. -/
theorem walk_stops (hμ : ∀ s item t, next s = some (item, t) → μ t < μ s) (fuel : ℕ) (s : σ) (h : μ s < fuel) :
    next (walk next fuel s).2 = none := by
  induction fuel generalizing s with
  | zero => omega
  | succ fuel ih =>
    cases hs : next s with
    | none => simp only [walk, hs]
    | some p =>
      obtain ⟨item, t⟩ := p
      have hdown := hμ s item t hs
      have hend := ih t (by omega)
      simpa only [walk, hs] using hend

theorem walk_enough (hμ : ∀ s item t, next s = some (item, t) → μ t < μ s) (m n : ℕ) (s : σ) (hm : μ s < m)
    (hn : μ s < n) : walk next m s = walk next n s := by
  induction m generalizing n s with
  | zero => omega
  | succ m ih =>
    obtain ⟨k, rfl⟩ : ∃ k, n = k + 1 := ⟨n - 1, by omega⟩
    cases hs : next s with
    | none => simp only [walk, hs]
    | some p =>
      obtain ⟨item, t⟩ := p
      have hdown := hμ s item t hs
      have hrest := ih k t (by omega) (by omega)
      simp only [walk, hs, hrest]

end Scan
