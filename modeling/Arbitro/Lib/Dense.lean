import Mathlib.Data.Nat.Basic

/-!
# Dense vectors that grow on write

A vector indexed by small numbers, read with a default outside its length and
grown with that default before a write: the lookup table of a program that hands
out consecutive ids.
-/

namespace Dense

open List

variable {α : Type} (d : α) (v : List α) {extra : ℕ}

/-- Read slot `i`, the default when it was never written. -/
def get (v : List α) (i : ℕ) : α := v.getD i d

/-- Make slot `i` exist, growing to `i + extra`. -/
def grow (extra : ℕ) (v : List α) (i : ℕ) : List α :=
  if v.length ≤ i then v ++ List.replicate (i + extra - v.length) d else v

/-- Grow, then overwrite slot `i` with a function of what it held. -/
def update (extra : ℕ) (v : List α) (i : ℕ) (f : α → α) : List α := (grow d extra v i).modify i f

theorem get_append_replicate (n j : ℕ) : get d (v ++ replicate n d) j = get d v j := by
  unfold get
  simp only [getD_eq_getElem?_getD, getElem?_append, getElem?_replicate]
  split
  · rfl
  · next h => rw [getElem?_eq_none (by omega)]; split <;> rfl

theorem get_grow (v : List α) (i j : ℕ) : get d (grow d extra v i) j = get d v j := by
  unfold grow
  split
  · exact get_append_replicate d v _ j
  · rfl

theorem lt_length_grow (he : 0 < extra) (v : List α) (i : ℕ) : i < (grow d extra v i).length := by
  unfold grow
  split
  · simp only [length_append, length_replicate]; omega
  · omega

theorem get_modify {v : List α} {i : ℕ} (f : α → α) (j : ℕ) (h : f d = d ∨ i < v.length) :
    get d (v.modify i f) j = if j = i then f (get d v i) else get d v j := by
  unfold get
  simp only [getD_eq_getElem?_getD, getElem?_modify]
  by_cases hj : j = i
  · subst hj
    cases hv : v[j]? with
    | some a => simp
    | none =>
      have hle : v.length ≤ j := getElem?_eq_none_iff.1 hv
      rcases h with h | h
      · simp [h]
      · omega
  · simp [hj, Ne.symm hj]

theorem get_update (he : 0 < extra) (v : List α) (i j : ℕ) (f : α → α) :
    get d (update d extra v i f) j = if j = i then f (get d v i) else get d v j := by
  unfold update
  rw [get_modify d f j (.inr (lt_length_grow d he v i)), get_grow, get_grow]

theorem get_set_default (i j : ℕ) : get d (v.set i d) j = if j = i then d else get d v j := by
  unfold get
  simp only [getD_eq_getElem?_getD, getElem?_set]
  by_cases hj : j = i
  · subst hj; simp only [if_true]; split <;> rfl
  · simp [hj, Ne.symm hj]

end Dense
