import Arbitro.Lib.Map

/-!
# Secondary indices of a finite map

A map of records `m : Map K V` is often kept beside indices under some key of the
records. `Lists`, `Names` and `Counts` say that an index mirrors the map: it lists
the records under each key, names the one record under a key, or counts them.

* `Lists.insert`, `Names.insert`, `Counts.insert`: entering a new record.
* `Lists.erase`, `Names.erase`, `Counts.erase`: taking a record out.
* `Lists.rewrite`, `Names.rewrite`, `Counts.rewrite`: a record may change in place as
  long as it keeps its key.

`Points` is half of `Names`: where several records share a key, the index points at one
of them, or at none.
-/

namespace Index

open List Option

variable {I K V : Type} [DecidableEq I] [DecidableEq K] {key : V → I} {m : Map K V} {k : K} {v : V}
  {idx : Map I K} {w : V} {i : I} {k' : K}

/-- The index lists, once each, the records under every key. -/
def Lists (key : V → I) (idx : Map I (List K)) (m : Map K V) : Prop :=
  ∀ i, ((idx.lookup i).getD []).Nodup ∧
    ∀ k, k ∈ (idx.lookup i).getD [] ↔ ∃ v, m.lookup k = some v ∧ key v = i

/-- The index names the record under every key that has one, and has no other keys. -/
def Names (key : V → I) (idx : Map I K) (m : Map K V) : Prop :=
  ∀ i k, idx.lookup i = some k ↔ ∃ v, m.lookup k = some v ∧ key v = i

/-- Where the index points there is a record under the key. -/
def Points (key : V → I) (idx : Map I K) (m : Map K V) : Prop :=
  ∀ i k, idx.lookup i = some k → ∃ v, m.lookup k = some v ∧ key v = i

/-- The number of records under a key. -/
def tally (key : V → I) (m : Map K V) (i : I) : ℕ := m.total fun v => if key v = i then 1 else 0

/-- The index holds the number of records under every key that has any. -/
def Counts (key : V → I) (idx : Map I ℕ) (m : Map K V) : Prop :=
  ∀ i, idx.lookup i = if tally key m i = 0 then none else some (tally key m i)

/-! ## Entering a record -/

omit [DecidableEq I] in
theorem lookup_insert_iff (hk : m.lookup k = none) : (∃ w, (m.insert k v).lookup k' = some w ∧ key w = i) ↔
      (∃ w, m.lookup k' = some w ∧ key w = i) ∨ (k' = k ∧ key v = i) := by
  by_cases h : k' = k
  · subst h; simp [hk]
  · simp [h]

theorem Lists.insert {idx : Map I (List K)} (h : Lists key idx m) (hk : m.lookup k = none) :
    Lists key (idx.insert (key v) ((idx.lookup (key v)).getD [] ++ [k])) (m.insert k v) := by
  intro i
  obtain ⟨hnodup, hmem⟩ := h i
  by_cases hi : i = key v
  · subst hi
    have hnew : k ∉ (idx.lookup (key v)).getD [] := by
      intro hin
      obtain ⟨w, hw, -⟩ := (hmem k).1 hin
      rw [hk] at hw; cases hw
    rw [AList.lookup_insert, getD_some]
    refine ⟨?_, fun k' => ?_⟩
    · rw [nodup_append]
      refine ⟨hnodup, nodup_singleton k, ?_⟩
      rintro a ha b hb rfl
      rw [mem_singleton.1 hb] at ha
      exact hnew ha
    · rw [lookup_insert_iff hk, mem_append, hmem k', mem_singleton]
      simp
  · rw [Map.lookup_insert_eq, if_neg hi]
    refine ⟨hnodup, fun k' => ?_⟩
    rw [lookup_insert_iff hk, hmem k']
    simp [Ne.symm hi]

theorem Names.insert (h : Names key idx m) (hk : m.lookup k = none)
    (hfree : ∀ k' w, m.lookup k' = some w → key w ≠ key v) : Names key (idx.insert (key v) k) (m.insert k v) := by
  intro i k'
  rw [lookup_insert_iff hk, Map.lookup_insert_eq]
  by_cases hi : i = key v
  · subst hi
    rw [if_pos rfl, some.injEq]
    constructor
    · rintro rfl; exact .inr ⟨rfl, rfl⟩
    · rintro (⟨w, hw, hkey⟩ | ⟨rfl, -⟩)
      · exact absurd hkey (hfree k' w hw)
      · rfl
  · rw [if_neg hi, h i k']
    simp [Ne.symm hi]

theorem Points.insert (h : Points key idx m) (hk : m.lookup k = none) :
    Points key (idx.insert (key v) k) (m.insert k v) := by
  intro i k' hi
  rw [lookup_insert_iff hk]
  rcases Map.of_lookup_insert hi with ⟨rfl, rfl⟩ | ⟨-, hi⟩
  · exact .inr ⟨rfl, rfl⟩
  · exact .inl (h i k' hi)

theorem tally_insert (hk : m.lookup k = none) :
    tally key (m.insert k v) i = tally key m i + if key v = i then 1 else 0 := by
  have h := Map.total_insert (fun w => if key w = i then 1 else 0) m k v
  rw [Map.share_of_none hk, add_zero] at h
  unfold tally
  rw [h, add_comm]

omit [DecidableEq K] in
theorem Counts.getD {idx : Map I ℕ} (h : Counts key idx m) (i : I) : (idx.lookup i).getD 0 = tally key m i := by
  rw [h i]
  split
  · next hz => rw [hz]; rfl
  · rfl

theorem exists_of_tally_ne_zero (h : tally key m i ≠ 0) : ∃ k v, m.lookup k = some v ∧ key v = i := by
  by_contra hnone
  apply h
  apply sum_eq_zero
  intro n hn
  obtain ⟨v, hv, rfl⟩ := mem_map.1 hn
  obtain ⟨k, hk⟩ := Map.lookup_of_mem_values hv
  exact if_neg fun hkey => hnone ⟨k, v, hk, hkey⟩

theorem Counts.insert {idx : Map I ℕ} (h : Counts key idx m) (hk : m.lookup k = none) :
    Counts key (idx.insert (key v) ((idx.lookup (key v)).getD 0 + 1)) (m.insert k v) := by
  intro i
  rw [tally_insert hk, Map.lookup_insert_eq, h.getD]
  by_cases hi : i = key v
  · subst hi; simp
  · rw [if_neg hi, if_neg (Ne.symm hi), add_zero]
    exact h i

/-! ## Taking a record out -/

omit [DecidableEq I] in
theorem lookup_erase_iff :
    (∃ w, (m.erase k).lookup k' = some w ∧ key w = i) ↔ k' ≠ k ∧ ∃ w, m.lookup k' = some w ∧ key w = i := by
  rw [Map.lookup_erase_eq]
  by_cases h : k' = k
  · simp [h]
  · simp [h]

variable (hk : m.lookup k = some v)

include hk

theorem Lists.erase {idx idx' : Map I (List K)} (h : Lists key idx m)
    (hidx : ∀ i, (idx'.lookup i).getD [] =
      if i = key v then ((idx.lookup i).getD []).filter (· ≠ k) else (idx.lookup i).getD []) :
    Lists key idx' (m.erase k) := by
  intro i
  obtain ⟨hnodup, hmem⟩ := h i
  rw [hidx i]
  by_cases hi : i = key v
  · rw [if_pos hi]
    refine ⟨hnodup.filter _, fun k' => ?_⟩
    rw [lookup_erase_iff, mem_filter, hmem k', decide_eq_true_eq]
    tauto
  rw [if_neg hi]
  refine ⟨hnodup, fun k' => ?_⟩
  rw [lookup_erase_iff, hmem k']
  constructor
  · rintro ⟨w, hw, hkey⟩
    refine ⟨?_, w, hw, hkey⟩
    rintro rfl
    rw [hk] at hw; cases hw
    exact hi hkey.symm
  · exact fun h => h.2

theorem Names.erase (h : Names key idx m) : Names key (idx.erase (key v)) (m.erase k) := by
  intro i k'
  rw [lookup_erase_iff, Map.lookup_erase_eq]
  by_cases hi : i = key v
  · rw [if_pos hi]
    have hown : idx.lookup i = some k := (h i k).2 ⟨v, hk, hi.symm⟩
    constructor
    · intro hx; cases hx
    · rintro ⟨hne, hw⟩
      have hother := (h i k').2 hw
      rw [hown] at hother
      exact absurd (some.inj hother).symm hne
  rw [if_neg hi, h i k']
  constructor
  · rintro ⟨w, hw, hkey⟩
    refine ⟨?_, w, hw, hkey⟩
    rintro rfl
    rw [hk] at hw; cases hw
    exact hi hkey.symm
  · exact fun h => h.2

theorem Points.erase {idx idx' : Map I K} (h : Points key idx m)
    (hidx : ∀ i k', idx'.lookup i = some k' → idx.lookup i = some k' ∧ (i = key v → k' ≠ k)) :
    Points key idx' (m.erase k) := by
  intro i k' hi
  obtain ⟨hold, hne⟩ := hidx i k' hi
  obtain ⟨w, hw, hkey⟩ := h i k' hold
  rw [lookup_erase_iff]
  refine ⟨?_, w, hw, hkey⟩
  rintro rfl
  rw [hk] at hw
  cases hw
  exact hne hkey.symm rfl

theorem tally_erase (i : I) : tally key (m.erase k) i + (if key v = i then 1 else 0) = tally key m i := by
  have h := Map.total_erase (fun w => if key w = i then 1 else 0) m k
  rwa [Map.share_of_lookup hk] at h

theorem Counts.erase {idx idx' : Map I ℕ} (h : Counts key idx m)
    (hidx : ∀ i, idx'.lookup i = if i = key v then
      (if (idx.lookup i).getD 0 - 1 = 0 then none else some ((idx.lookup i).getD 0 - 1)) else idx.lookup i) :
    Counts key idx' (m.erase k) := by
  intro i
  have ht : tally key (m.erase k) i + (if key v = i then 1 else 0) = tally key m i := tally_erase hk i
  rw [hidx i, h.getD]
  by_cases hi : i = key v
  · rw [if_pos hi.symm] at ht
    have hlow : tally key m i - 1 = tally key (m.erase k) i := by omega
    rw [if_pos hi, hlow]
  · rw [if_neg (Ne.symm hi), add_zero] at ht
    rw [if_neg hi, ht]
    exact h i

/-! ## Changing a record in place -/

omit [DecidableEq I] in
theorem lookup_rewrite_iff (hkey : key w = key v) :
    (∃ x, (m.insert k w).lookup k' = some x ∧ key x = i) ↔ ∃ x, m.lookup k' = some x ∧ key x = i := by
  by_cases h : k' = k
  · subst h; simp [hk, hkey]
  · simp [h]

theorem Lists.rewrite {idx : Map I (List K)} (h : Lists key idx m) (hkey : key w = key v) : Lists key idx (m.insert k w) := by
  intro i
  refine ⟨(h i).1, fun k' => ?_⟩
  rw [lookup_rewrite_iff hk hkey]
  exact (h i).2 k'

theorem Names.rewrite (h : Names key idx m) (hkey : key w = key v) : Names key idx (m.insert k w) := by
  intro i k'
  rw [lookup_rewrite_iff hk hkey]
  exact h i k'

theorem Points.rewrite (h : Points key idx m) (hkey : key w = key v) : Points key idx (m.insert k w) := by
  intro i k' hi
  rw [lookup_rewrite_iff hk hkey]
  exact h i k' hi

theorem Counts.rewrite {idx : Map I ℕ} (h : Counts key idx m) (hkey : key w = key v) : Counts key idx (m.insert k w) := by
  intro i
  have ht := Map.total_insert (fun x => if key x = i then 1 else 0) m k w
  rw [Map.share_of_lookup hk, hkey, add_comm] at ht
  have heq : tally key (m.insert k w) i = tally key m i := Nat.add_left_cancel ht
  rw [heq]
  exact h i

end Index
