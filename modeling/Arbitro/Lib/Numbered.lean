import Mathlib.Data.List.TakeWhile

/-!
# Sorted and consecutively numbered lists

* `takeWhile_of_pairwise`: where a condition once missed is missed from there on, looking for the first
  miss is filtering.
* `mark_key`: where a search finds the one item with a key, marking the item found is marking those with
  the key.

The items of a numbered list carry the numbers `k`, `k + 1`, and so on.

* `Numbered.span_lt`: looking for a number is arithmetic.
* `Numbered.range_eq`: so the items with numbers in a range are a slice.
-/

variable {α : Type} {f : α → ℕ} {l : List α}

theorem takeWhile_of_pairwise {p : α → Bool} (h : l.Pairwise fun x y => p y = true → p x = true) :
    l.takeWhile p = l.filter p ∧ l.dropWhile p = l.filter (!p ·) := by
  induction l with
  | nil => exact ⟨rfl, rfl⟩
  | cons x l ih =>
    obtain ⟨hhead, htail⟩ := List.pairwise_cons.1 h
    obtain ⟨htake, hdrop⟩ := ih htail
    by_cases hx : p x = true
    · simp [hx, htake, hdrop]
    have hmiss : ∀ y ∈ l, ¬ p y = true := fun y hy hp => hx (hhead y hy hp)
    have hall : l.filter (!p ·) = l := List.filter_eq_self.2 (by simpa using hmiss)
    simp [hx, List.filter_eq_nil_iff.2 hmiss, hall]

/-- Marking the item that a search by key finds, unless it is marked already. -/
theorem mark_key (key : α → ℕ) {dead : α → Bool} {mark : α → α} (hmark : ∀ x, dead x = true → mark x = x)
    {n : ℕ} {o : Option ℕ} : (∀ i, o = some i ↔ ∃ x, l[i]? = some x ∧ key x = n) →
    (match o with
      | none => (l, false)
      | some i => if (l[i]?.map dead).getD false then (l, false) else (l.modify i mark, true)) =
      (l.map fun x => if key x == n then mark x else x, l.any fun x => key x == n && !dead x) := by
  intro ho
  cases o with
  | none =>
    have hnone : ∀ x ∈ l, (key x == n) = false := by
      intro x hx
      obtain ⟨i, hi⟩ := List.mem_iff_getElem?.1 hx
      exact beq_eq_false_iff_ne.2 fun hkey => nomatch (ho i).2 ⟨x, hi, hkey⟩
    refine Prod.ext ?_ (List.any_eq_false.2 fun x hx => by simp [hnone x hx]).symm
    exact ((List.map_congr_left fun x hx => by rw [hnone x hx]; rfl).trans (List.map_id l)).symm
  | some i =>
    obtain ⟨d, hd, rfl⟩ := (ho i).1 rfl
    have honly : ∀ k x, l[k]? = some x → key x = key d → i = k := fun k x hk hkey =>
      Option.some.inj ((ho k).2 ⟨x, hk, hkey⟩)
    have hthis : ∀ x ∈ l, key x = key d → x = d := by
      intro x hx hkey
      obtain ⟨k, hk⟩ := List.mem_iff_getElem?.1 hx
      rw [← honly k x hk hkey, hd] at hk
      exact (Option.some.inj hk).symm
    have hany : (l.any fun x => key x == key d && !dead x) = !dead d := by
      rw [Bool.eq_iff_iff, List.any_eq_true]
      simp only [Bool.and_eq_true, beq_iff_eq]
      exact ⟨fun ⟨x, hx, hkey, hlive⟩ => hthis x hx hkey ▸ hlive, fun hlive => ⟨d, List.mem_of_getElem? hd, rfl, hlive⟩⟩
    simp only [hd, Option.map_some, Option.getD_some, hany]
    cases hdead : dead d with
    | true =>
      refine Prod.ext ((List.map_congr_left fun x hx => ?_).trans (List.map_id l)).symm rfl
      split
      next hkey => rw [hthis x hx (beq_iff_eq.1 hkey), hmark d hdead, id]
      · rfl
    | false =>
      refine Prod.ext (List.ext_getElem? fun k => ?_) rfl
      show (l.modify i mark)[k]? = _
      rw [List.getElem?_modify, List.getElem?_map]
      cases hk : l[k]? with
      | none => simp
      | some x =>
        by_cases hik : i = k
        · rw [← hik, hd] at hk
          simp [hik, Option.some.inj hk]
        · have hne : key x ≠ key d := fun hkey => hik (honly k x hk hkey)
          simp [hik, hne]

/-- The items are numbered from `k` on. -/
def Numbered (f : α → ℕ) : ℕ → List α → Prop
  | _, [] => True
  | k, x :: xs => f x = k ∧ Numbered f (k + 1) xs

namespace Numbered

open List

variable {xs : List α} {k : ℕ}

theorem append_iff {xs ys : List α} : Numbered f k (xs ++ ys) ↔ Numbered f k xs ∧ Numbered f (k + xs.length) ys := by
  induction xs generalizing k with
  | nil => simp [Numbered]
  | cons x xs ih =>
    rw [cons_append, Numbered, Numbered, ih, length_cons, and_assoc, Nat.add_right_comm, Nat.add_assoc k]

theorem take (h : Numbered f k xs) (n : ℕ) : Numbered f k (xs.take n) := by
  rw [← take_append_drop n xs] at h
  exact (append_iff.1 h).1

theorem drop {k n : ℕ} (h : Numbered f k xs) (hn : n ≤ xs.length) : Numbered f (k + n) (xs.drop n) := by
  rw [← take_append_drop n xs] at h
  have hdrop := (append_iff.1 h).2
  rwa [length_take_of_le hn] at hdrop

theorem map_eq (h : Numbered f k xs) : xs.map f = range' k xs.length := by
  induction xs generalizing k with
  | nil => rfl
  | cons x xs ih => rw [map_cons, h.1, ih h.2, length_cons, range'_succ]

theorem span_lt (a : ℕ) (h : Numbered f k xs) : xs.takeWhile (fun x => decide (f x < a)) = xs.take (a - k) ∧
    xs.dropWhile (fun x => decide (f x < a)) = xs.drop (a - k) := by
  induction xs generalizing k with
  | nil => simp
  | cons x xs ih =>
    obtain ⟨htake, hdrop⟩ := ih h.2
    by_cases hlt : k < a
    · obtain ⟨n, hn⟩ : ∃ n, a - k = n + 1 := ⟨a - k - 1, by omega⟩
      have hn' : a - (k + 1) = n := by omega
      simp [h.1, hlt, htake, hdrop, hn, hn']
    · have hn : a - k = 0 := by omega
      simp [h.1, hlt, hn]

/-- **The items with numbers in a range are a slice.** -/
theorem range_eq (h : Numbered f k xs) (a b : ℕ) :
    (xs.dropWhile fun x => decide (f x < k + a)).takeWhile (fun x => decide (f x < k + b)) = (xs.take b).drop a := by
  rw [(h.span_lt _).2, Nat.add_sub_cancel_left, drop_take]
  by_cases ha : a ≤ xs.length
  · rw [((h.drop ha).span_lt _).1, Nat.add_sub_add_left]
  · rw [drop_of_length_le (by omega)]
    simp

theorem getLast {x : α} (h : Numbered f k xs) (hx : xs.getLast? = some x) : f x + 1 = k + xs.length := by
  obtain ⟨front, rfl⟩ := getLast?_eq_some_iff.1 hx
  have hlast := (append_iff.1 h).2.1
  rw [length_append, length_singleton]
  omega

end Numbered
