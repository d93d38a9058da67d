import Mathlib.Data.List.Induction

/-!
# Rooted trees grown edge by edge

Nodes are numbers handed out in order, node 0 is the root, and `edge i l` is the child
of node `i` under label `l`. Such a graph is a tree as long as every new edge leads to
the next free number.

* `Grown.walk_inj`: at most one path leads from the root to a node.
* `Grown.grow`, `Grown.walk_leaf_iff`: a new leaf keeps the tree, and every old path.
-/

namespace Tree

open Option

variable {L : Type}

/-- The node a path leads to. -/
def walk (edge : ℕ → L → Option ℕ) : ℕ → List L → Option ℕ
  | i, [] => some i
  | i, l :: ls => (edge i l).bind fun j => walk edge j ls

/-- Children are numbered below `n` and above their parent, and have one parent edge. -/
structure Grown (edge : ℕ → L → Option ℕ) (n : ℕ) : Prop where
  root : 0 < n
  below : ∀ i l j, edge i l = some j → i < j ∧ j < n
  parent : ∀ i l i' l' j, edge i l = some j → edge i' l' = some j → i = i' ∧ l = l'

variable {edge edge' : ℕ → L → Option ℕ} {n : ℕ} {l : L} {i : ℕ}

theorem walk_snoc {j : ℕ} {ls : List L} : ∀ {i}, walk edge i (ls ++ [l]) = some j ↔
    ∃ k, walk edge i ls = some k ∧ edge k l = some j := by
  induction ls with
  | nil => simp [walk]
  | cons q ls ih =>
    simp only [List.cons_append, walk, bind_eq_some_iff, ih]
    grind

theorem Grown.walk_lt (h : Grown edge n) (ls : List L) : ∀ {i j}, i < n → walk edge i ls = some j → j < n := by
  induction ls with
  | nil => intro i j hi hw; cases hw; exact hi
  | cons l ls ih =>
    intro i j hi hw
    obtain ⟨k, hk, hw⟩ := bind_eq_some_iff.1 hw
    exact ih (h.below i l k hk).2 hw

/-- **At most one path leads to a node.** -/
theorem Grown.walk_inj (h : Grown edge n) : ∀ {ls ls' : List L} {j : ℕ}, walk edge 0 ls = some j →
    walk edge 0 ls' = some j → ls = ls' := by
  intro ls
  induction ls using List.reverseRecOn with
  | nil =>
    intro ls' j hw hw'
    cases hw
    -- no edge leads back to the root
    cases ls' using List.reverseRecOn with
    | nil => rfl
    | append_singleton qs q =>
      obtain ⟨k, -, hk⟩ := walk_snoc.1 hw'
      have hlt := (h.below k q 0 hk).1
      omega
  | append_singleton ls l ih =>
    intro ls' j hw hw'
    obtain ⟨k, hk, hkj⟩ := walk_snoc.1 hw
    cases ls' using List.reverseRecOn with
    | nil =>
      cases hw'
      have hlt := (h.below k l 0 hkj).1
      omega
    | append_singleton qs q =>
      obtain ⟨k', hk', hkj'⟩ := walk_snoc.1 hw'
      obtain ⟨rfl, rfl⟩ := h.parent k l k' q j hkj hkj'
      rw [ih hk hk']

/-- The edges after a new leaf `n` was hung under node `i` by label `l`. -/
def Leaf (edge edge' : ℕ → L → Option ℕ) (i : ℕ) (l : L) (n : ℕ) : Prop :=
  edge i l = none ∧ ∀ k q j, edge' k q = some j ↔ edge k q = some j ∨ (k = i ∧ q = l ∧ j = n)

theorem Grown.grow (h : Grown edge n) (hi : i < n) (hleaf : Leaf edge edge' i l n) :
    Grown edge' (n + 1) where
  root := by omega
  below k q j hj := by
    rcases (hleaf.2 k q j).1 hj with hj | ⟨rfl, -, rfl⟩
    · have hb := h.below k q j hj
      omega
    · omega
  parent k q k' q' j hj hj' := by
    rcases (hleaf.2 k q j).1 hj with hj | ⟨rfl, rfl, rfl⟩
    · rcases (hleaf.2 k' q' j).1 hj' with hj' | ⟨-, -, rfl⟩
      · exact h.parent k q k' q' j hj hj'
      · have hb := (h.below k q _ hj).2
        omega
    · rcases (hleaf.2 k' q' _).1 hj' with hj' | ⟨rfl, rfl, -⟩
      · have hb := (h.below k' q' _ hj').2
        omega
      · exact ⟨rfl, rfl⟩

/-- Old nodes keep their path. -/
theorem walk_leaf (hleaf : Leaf edge edge' i l n) (ls : List L) : ∀ {k j}, walk edge k ls = some j →
    walk edge' k ls = some j := by
  induction ls with
  | nil => intro k j hw; exact hw
  | cons q ls ih =>
    intro k j hw
    obtain ⟨m, hm, hw⟩ := bind_eq_some_iff.1 hw
    exact bind_eq_some_iff.2 ⟨m, (hleaf.2 k q m).2 (.inl hm), ih hw⟩

/-- **A new leaf opens one path**: to any other node there are only the paths there were. -/
theorem Grown.walk_leaf_iff (h : Grown edge n) (hleaf : Leaf edge edge' i l n) (ls : List L) :
    ∀ {k j}, k < n → j ≠ n → (walk edge' k ls = some j ↔ walk edge k ls = some j) := by
  induction ls with
  | nil => intro k j _ _; exact Iff.rfl
  | cons q ls ih =>
    intro k j hk hj
    refine ⟨fun hw => ?_, walk_leaf hleaf _⟩
    obtain ⟨m, hm, hw⟩ := bind_eq_some_iff.1 hw
    rcases (hleaf.2 k q m).1 hm with hm | ⟨rfl, rfl, rfl⟩
    · exact bind_eq_some_iff.2 ⟨m, hm, (ih (h.below k q m hm).2 hj).1 hw⟩
    -- the leaf has no children, so a path through it ends there
    cases ls with
    | nil => cases hw; exact absurd rfl hj
    | cons q' ls =>
      obtain ⟨m', hm', -⟩ := bind_eq_some_iff.1 hw
      rcases (hleaf.2 m q' m').1 hm' with hm' | ⟨rfl, -, -⟩
      · have hb := h.below m q' m' hm'
        omega
      · omega

end Tree
