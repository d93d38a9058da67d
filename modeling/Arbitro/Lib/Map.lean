import Mathlib.Data.List.AList
import Mathlib.Algebra.BigOperators.Group.List.Basic
import Mathlib.Algebra.Order.Group.Multiset

/-!
# Finite maps and what they add up to

A finite map is Mathlib's `AList`: an association list without duplicate keys.
Where a program keeps a map of records next to a counter or a set that should
summarise them, the summary is compared with `Map.total`, the sum of a measure
of the records in a commutative monoid (a number, a multiset).

* `Map.total_erase`, `Map.total_insert`: what removing or writing one key does
  to the sum.
-/

/-- A finite map from `K` to `V`. -/
abbrev Map (K V : Type) := AList (fun _ : K => V)

namespace Map

open List

variable {K V M : Type} [DecidableEq K] [AddCommMonoid M] {m : Map K V} (f : V → M) {k : K} {v : V}

/-- The values of a map, in the order of its association list. -/
def values (m : Map K V) : List V := m.entries.map Sigma.snd

/-- The sum of a measure over the values. -/
def total (f : V → M) (m : Map K V) : M := (m.values.map f).sum

/-- The measure of the value stored at `k`, zero when there is none. -/
def share (f : V → M) (m : Map K V) (k : K) : M := ((m.lookup k).map f).getD 0

omit [DecidableEq K] in
@[simp] theorem total_empty : total f (∅ : Map K V) = 0 := rfl

theorem share_of_lookup {f : V → M} (h : m.lookup k = some v) : share f m k = f v := by
  simp [share, h]

theorem share_of_none {f : V → M} (h : m.lookup k = none) : share f m k = 0 := by
  simp [share, h]

theorem mem_values_of_lookup (h : m.lookup k = some v) : v ∈ m.values := by
  have h' : Sigma.mk k v ∈ m.entries := AList.mem_lookup_iff.1 h
  exact mem_map.2 ⟨_, h', rfl⟩

theorem lookup_of_mem_values (h : v ∈ m.values) : ∃ k, m.lookup k = some v := by
  obtain ⟨⟨k, w⟩, hm, rfl⟩ := mem_map.1 h
  exact ⟨k, AList.mem_lookup_iff.2 hm⟩

theorem sum_kerase (l : List (Sigma fun _ : K => V)) :
    ((l.kerase k).map fun e => f e.2).sum + ((l.dlookup k).map f).getD 0 = (l.map fun e => f e.2).sum := by
  induction l with
  | nil => simp
  | cons e l ih =>
    obtain ⟨k', v⟩ := e
    by_cases h : k = k'
    · subst h; simp [add_comm]
    · rw [kerase_cons_ne (by simpa using h), dlookup_cons_ne l ⟨k', v⟩ (by simpa using h)]
      simp only [map_cons, sum_cons]
      rw [add_assoc, ih]

theorem entries_erase : (m.erase k).entries = m.entries.kerase k := rfl

theorem total_erase (m : Map K V) (k : K) : total f (m.erase k) + share f m k = total f m := by
  simpa [total, share, values, entries_erase, AList.lookup, map_map, Function.comp_def]
    using sum_kerase f m.entries

theorem total_insert (m : Map K V) (k : K) (v : V) : total f (m.insert k v) + share f m k = f v + total f m := by
  have h : total f (m.insert k v) = f v + total f (m.erase k) := by
    simp [total, values, entries_erase, AList.entries_insert]
  rw [h, add_assoc, total_erase]

theorem lookup_insert_eq (m : Map K V) (k k' : K) (v : V) :
    (m.insert k v).lookup k' = if k' = k then some v else m.lookup k' := by
  split
  · next h => subst h; exact AList.lookup_insert m
  · next h => exact AList.lookup_insert_ne h

theorem lookup_erase_eq (k k' : K) : (m.erase k).lookup k' = if k' = k then none else m.lookup k' := by
  split
  · next h => subst h; exact AList.lookup_erase k' m
  · next h => exact AList.lookup_erase_ne h

/-! ### New keys, and values with one key -/

variable {x : V} {k' : K}

theorem of_lookup_erase (h : (m.erase k).lookup k' = some x) : k' ≠ k ∧ m.lookup k' = some x := by
  rw [lookup_erase_eq] at h
  split at h
  · cases h
  · next hne => exact ⟨hne, h⟩

theorem of_lookup_insert (h : (m.insert k v).lookup k' = some x) : k' = k ∧ x = v ∨ k' ≠ k ∧ m.lookup k' = some x := by
  rw [lookup_insert_eq] at h
  split at h
  · next heq => exact .inl ⟨heq, (Option.some.inj h).symm⟩
  · next hne => exact .inr ⟨hne, h⟩

theorem forall_insert {P : K → V → Prop} (hv : P k v) (h : ∀ k x, m.lookup k = some x → P k x) :
    ∀ k' x, (m.insert k v).lookup k' = some x → P k' x := by
  intro k' x hx
  rcases of_lookup_insert hx with ⟨rfl, rfl⟩ | ⟨-, hx⟩
  · exact hv
  · exact h k' x hx

theorem lookup_insert_of (hk : m.lookup k = none) (h : m.lookup k' = some x) : (m.insert k v).lookup k' = some x := by
  rw [lookup_insert_eq, if_neg]
  · exact h
  · rintro rfl
    cases hk.symm.trans h

theorem lookup_erase_of (hk : m.lookup k = some v) (h : m.lookup k' = some x) (hne : x ≠ v) :
    (m.erase k).lookup k' = some x := by
  rw [lookup_erase_eq, if_neg]
  · exact h
  · rintro rfl
    exact hne (Option.some.inj (h.symm.trans hk))

theorem exists_lookup_insert (hk : m.lookup k = none) :
    (∃ k', (m.insert k v).lookup k' = some x) ↔ (∃ k', m.lookup k' = some x) ∨ x = v := by
  constructor
  · rintro ⟨k', h⟩
    exact (of_lookup_insert h).symm.imp (fun h => ⟨k', h.2⟩) And.right
  · rintro (⟨k', h⟩ | rfl)
    · exact ⟨k', lookup_insert_of hk h⟩
    · exact ⟨k, AList.lookup_insert m⟩

/-- No value is stored under two keys. -/
def Unique (m : Map K V) : Prop := ∀ k k' v, m.lookup k = some v → m.lookup k' = some v → k = k'

theorem Unique.insert (h : m.Unique) (hv : ¬ ∃ k, m.lookup k = some v) : Unique (m.insert k v) := by
  intro k₁ k₂ x h1 h2
  rcases of_lookup_insert h1 with ⟨e1, rfl⟩ | ⟨-, h1⟩ <;> rcases of_lookup_insert h2 with ⟨e2, hx⟩ | ⟨-, h2⟩
  · exact e1.trans e2.symm
  · exact absurd ⟨k₂, h2⟩ hv
  · exact absurd ⟨k₁, hx ▸ h1⟩ hv
  · exact h k₁ k₂ x h1 h2

theorem Unique.erase (h : m.Unique) : Unique (m.erase k) := by
  exact fun k₁ k₂ x h1 h2 => h k₁ k₂ x (of_lookup_erase h1).2 (of_lookup_erase h2).2

theorem Unique.exists_lookup_erase (h : m.Unique) (hk : m.lookup k = some v) :
    (∃ k', (m.erase k).lookup k' = some x) ↔ (∃ k', m.lookup k' = some x) ∧ x ≠ v := by
  constructor
  · rintro ⟨k', hk'⟩
    obtain ⟨hne, hk'⟩ := of_lookup_erase hk'
    refine ⟨⟨k', hk'⟩, ?_⟩
    rintro rfl
    exact hne (h k' k x hk' hk)
  · exact fun ⟨⟨k', hk'⟩, hne⟩ => ⟨k', lookup_erase_of hk hk' hne⟩

/-- Change the value of an entry, or drop it. -/
def retainEntry (f : K → V → Option V) (e : Sigma fun _ : K => V) : Option (Sigma fun _ : K => V) :=
  (f e.1 e.2).map fun v => ⟨e.1, v⟩

omit [DecidableEq K] in
theorem keys_retain_sublist {f : K → V → Option V} {l : List (Sigma fun _ : K => V)} :
    (l.filterMap (retainEntry f)).keys.Sublist l.keys := by
  induction l with
  | nil => exact List.Sublist.slnil
  | cons e l ih =>
    cases h : f e.1 e.2 with
    | none =>
      rw [filterMap_cons_none (by rw [retainEntry, h]; rfl)]
      exact ih.cons e.1
    | some v =>
      rw [filterMap_cons_some (by rw [retainEntry, h]; rfl)]
      exact ih.cons_cons e.1

/-- Change every value, or drop it. -/
def retain (f : K → V → Option V) (m : Map K V) : Map K V :=
  ⟨m.entries.filterMap (retainEntry f), List.Nodup.sublist keys_retain_sublist m.nodupKeys⟩

theorem lookup_retain (f : K → V → Option V) : (m.retain f).lookup k = (m.lookup k).bind (f k) := by
  apply Option.ext
  intro v
  have hmem : v ∈ (m.retain f).lookup k ↔ Sigma.mk k v ∈ (m.retain f).entries := AList.mem_lookup_iff
  rw [← Option.mem_def, hmem, ← Option.mem_def, Option.mem_bind_iff]
  constructor
  · intro h
    obtain ⟨⟨k', v'⟩, he, hf⟩ := mem_filterMap.1 h
    obtain ⟨w, hw, heq⟩ := Option.map_eq_some_iff.1 hf
    cases heq
    exact ⟨v', AList.mem_lookup_iff.2 he, hw⟩
  · rintro ⟨v', he, hf⟩
    exact mem_filterMap.2 ⟨⟨k, v'⟩, AList.mem_lookup_iff.1 he, Option.map_eq_some_iff.2 ⟨v, hf, rfl⟩⟩

/-- What a multiset-valued measure adds up to, element by element. -/
theorem mem_total {α : Type} {f : V → Multiset α} {x : α} : x ∈ total f m ↔ ∃ k v, m.lookup k = some v ∧ x ∈ f v := by
  have hsum : x ∈ total f m ↔ ∃ v ∈ m.values, x ∈ f v := by
    unfold total
    induction m.values with
    | nil => simp
    | cons v vs ih => simp [ih]
  rw [hsum]
  constructor
  · rintro ⟨v, hv, hx⟩
    obtain ⟨k, hk⟩ := lookup_of_mem_values hv
    exact ⟨k, v, hk, hx⟩
  · rintro ⟨k, v, hk, hx⟩
    exact ⟨v, mem_values_of_lookup hk, hx⟩

end Map
