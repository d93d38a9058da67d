import Arbitro.Shard.Snapshot

/-!
# Match tables and published snapshots

The entries of a match table, and what stamping makes of them: in a published
snapshot a stamped index leads to the binding with the entry's connection,
consumer and subscription, and two bindings share a group index exactly when
they share connection and consumer. Entries that agree in everything but the stamp
are equal.
-/

namespace Arbitro

open MatchTable List Dense

namespace MatchTable

variable {mt : MatchTable} {e : MatchEntry} {l : List MatchEntry} {subject : Bytes}

/-- The entries a lookup or a resolve can return. -/
def Has (mt : MatchTable) (e : MatchEntry) : Prop :=
  (∃ h, e ∈ mt.exact h) ∨ e ∈ mt.catchAll ∨ e ∈ mt.patternEntries

/-- No entry carries a binding index: the catalog's own tables. -/
def Unstamped (mt : MatchTable) : Prop := ∀ e, mt.Has e → e.bindingIdx = none

theorem has_mapEntries {f : MatchEntry → MatchEntry} : (mt.mapEntries f).Has e ↔ ∃ e₀, mt.Has e₀ ∧ f e₀ = e := by
  unfold Has mapEntries
  simp only [mem_map]
  constructor
  · rintro (⟨h, e₀, he, rfl⟩ | ⟨e₀, he, rfl⟩ | ⟨e₀, he, rfl⟩)
    · exact ⟨e₀, .inl ⟨h, he⟩, rfl⟩
    · exact ⟨e₀, .inr (.inl he), rfl⟩
    · exact ⟨e₀, .inr (.inr he), rfl⟩
  · rintro ⟨e₀, ⟨h, he⟩ | he | he, rfl⟩
    · exact .inl ⟨h, e₀, he, rfl⟩
    · exact .inr (.inl ⟨e₀, he, rfl⟩)
    · exact .inr (.inr ⟨e₀, he, rfl⟩)

theorem mem_pushDedup {a : MatchEntry} (h : e ∈ pushDedup l a) : e ∈ l ∨ e = a := by
  unfold pushDedup at h
  split at h
  · exact .inl h
  · simpa using h

theorem mem_foldl_pushDedup {base : List MatchEntry} (h : e ∈ l.foldl pushDedup base) : e ∈ base ∨ e ∈ l := by
  induction l generalizing base with
  | nil => exact .inl h
  | cons a l ih =>
    rcases ih h with h | h
    · rcases mem_pushDedup h with h | rfl
      · exact .inl h
      · exact .inr mem_cons_self
    · exact .inr (mem_cons_of_mem _ h)

theorem has_of_lookup {h : SubjectHash} (he : e ∈ mt.lookupVerified h subject) : mt.Has e := by
  rcases mem_append.1 he with he | he
  · split at he
    · exact .inl ⟨h, he⟩
    · cases he
  · exact .inr (.inl he)

theorem resolvePatternsReadonly_eq {out : List MatchEntry} :
    mt.resolvePatternsReadonly subject out =
      ((mt.patternTrie.findMatches subject).filterMap (mt.patternEntries[·]?)).foldl pushDedup out := by
  unfold resolvePatternsReadonly
  rw [foldl_filterMap]
  congr 1
  funext out i
  cases mt.patternEntries[i]? <;> rfl

theorem has_of_resolve (he : e ∈ mt.resolvePatternsReadonly subject []) : mt.Has e := by
  rw [resolvePatternsReadonly_eq] at he
  obtain ⟨i, -, hi⟩ := mem_filterMap.1 ((mem_foldl_pushDedup he).resolve_left not_mem_nil)
  exact .inr (.inr (mem_of_getElem? hi))

theorem unstamped_new : new.Unstamped := by
  rintro e (⟨h, he⟩ | he | he) <;> cases he

theorem Unstamped.addPattern (h : mt.Unstamped) (pattern : Bytes) (he : e.bindingIdx = none) :
    (mt.addPattern pattern e).Unstamped := by
  rintro x (hx | hx | hx)
  · exact h x (.inl hx)
  · exact h x (.inr (.inl hx))
  · rcases mem_append.1 hx with hx | hx
    · exact h x (.inr (.inr hx))
    · rw [mem_singleton.1 hx]; exact he

theorem stampEntry_keys {c : ConsumerId} {conn : ConnectionId} {sid : SubscriptionId} {i : ℕ} :
    (stampEntry c conn sid i e).consumerId = e.consumerId ∧ (stampEntry c conn sid i e).connectionId = e.connectionId ∧
      (stampEntry c conn sid i e).subscriptionId = e.subscriptionId ∧
      (stampEntry c conn sid i e).queueId = e.queueId := by
  unfold stampEntry
  split <;> exact ⟨rfl, rfl, rfl, rfl⟩

theorem key_stampEntry (c : ConsumerId) (conn : ConnectionId) (sid : SubscriptionId) (i : ℕ) :
    (stampEntry c conn sid i e).key = e.key := by
  unfold stampEntry
  split <;> rfl

theorem bindEntry_sid (sid : SubscriptionId) (conn : ConnectionId) (e : MatchEntry) :
    (bindEntry sid conn e).subscriptionId = e.subscriptionId := by
  unfold bindEntry
  split <;> rfl

/-! ### Entries and their keys -/

theorem same_iff {a b : MatchEntry} : a.same b = true ↔ a.consumerId = b.consumerId ∧ a.queueId = b.queueId ∧
    a.subscriptionId = b.subscriptionId ∧ a.connectionId = b.connectionId := by
  simp [MatchEntry.same, and_assoc]

theorem same_self : e.same e = true := same_iff.2 ⟨rfl, rfl, rfl, rfl⟩

theorem not_containedIn (h : ∀ x ∈ l, x.subscriptionId ≠ e.subscriptionId) : e.containedIn l = false := by
  simp only [MatchEntry.containedIn, any_eq_false]
  exact fun x hx hsame => h x hx (same_iff.1 hsame).2.2.1.symm

/-! ### The sets beside the vectors -/

section Mirrors

variable {set : Finset MatchEntry} {sid : SubscriptionId} {old conn : ConnectionId} {g : MatchEntry → MatchEntry}

/-- A set holds the keys of the entries of a vector. -/
def Mirrors (set : Finset MatchEntry) (l : List MatchEntry) : Prop := ∀ k, k ∈ set ↔ ∃ e ∈ l, e.key = k

theorem same_iff_key {a b : MatchEntry} : a.same b = true ↔ b.key = a.key := by
  rw [same_iff]
  cases a
  cases b
  simp [MatchEntry.key, eq_comm]

theorem ids_of_key {a b : MatchEntry} (h : a.key = b.key) :
    a.subscriptionId = b.subscriptionId ∧ a.connectionId = b.connectionId := by
  injection h with _ _ hsid hconn
  exact ⟨hsid, hconn⟩

/-- Looked up in the set, an entry is pushed as if it were looked up in the vector. -/
theorem Mirrors.push_eq (h : Mirrors set l) : (if e.key ∈ set then l else l ++ [e]) = pushDedup l e := by
  have hin : e.key ∈ set ↔ e.containedIn l = true := by
    simp only [h e.key, MatchEntry.containedIn, any_eq_true, same_iff_key]
  simp only [pushDedup, hin]

theorem Mirrors.push (h : Mirrors set l) : Mirrors (insert e.key set) (if e.key ∈ set then l else l ++ [e]) := by
  intro k
  rw [Finset.mem_insert, h k]
  split
  · next hin =>
    refine or_iff_right_of_imp ?_
    rintro rfl
    exact (h _).1 hin
  · simp [or_and_right, exists_or, or_comm, eq_comm]

theorem Mirrors.filter (h : Mirrors set l) : Mirrors (set.filter (·.subscriptionId != sid))
    (l.filter (·.subscriptionId != sid)) := by
  intro k
  rw [Finset.mem_filter, h k]
  constructor
  · rintro ⟨⟨e, he, rfl⟩, hk⟩
    exact ⟨e, mem_filter.2 ⟨he, hk⟩, rfl⟩
  · rintro ⟨e, he, rfl⟩
    obtain ⟨he, hk⟩ := mem_filter.1 he
    exact ⟨⟨e, he, rfl⟩, hk⟩

theorem Mirrors.map (h : Mirrors set l) (hg : ∀ e ∈ l, (g e).key = e.key) :
    Mirrors set (l.map g) := by
  intro k
  rw [h k]
  constructor
  · rintro ⟨e, he, rfl⟩
    exact ⟨g e, mem_map_of_mem he, hg e he⟩
  · rintro ⟨_, hx, rfl⟩
    obtain ⟨e, he, rfl⟩ := mem_map.1 hx
    exact ⟨e, he, (hg e he).symm⟩

/-- The old keys go and the new ones come: no new key is an old one, so the order in which
the entries are looked at does not matter. -/
theorem mem_updateDedup (hne : old ≠ conn) (hold : ∀ e ∈ l, e.subscriptionId = sid → e.connectionId = old)
    {k : MatchEntry} : k ∈ updateDedup sid old (l.map (bindEntry sid conn)) set ↔
      (∃ e ∈ l, e.subscriptionId = sid ∧ (bindEntry sid conn e).key = k) ∨
        k ∈ set ∧ ∀ e ∈ l, e.subscriptionId = sid → e.key ≠ k := by
  unfold updateDedup
  induction l generalizing set with
  | nil => simp
  | cons e l ih =>
    have hl := fun x hx => hold x (mem_cons_of_mem e hx)
    rw [map_cons, foldl_cons, ih hl]
    by_cases hsid : e.subscriptionId = sid
    · have hnew : (bindEntry sid conn e).subscriptionId = sid ∧
          { (bindEntry sid conn e).key with connectionId := old } = e.key := by
        rw [bindEntry, if_pos hsid]
        exact ⟨hsid, by rw [← hold e mem_cons_self hsid]; rfl⟩
      have hapart : ∀ x ∈ l, x.subscriptionId = sid → x.key ≠ (bindEntry sid conn e).key := by
        intro x hx hxs heq
        rw [bindEntry, if_pos hsid] at heq
        exact hne ((hl x hx hxs).symm.trans (congrArg MatchEntry.connectionId heq))
      rw [if_pos hnew.1, hnew.2, Finset.mem_insert, Finset.mem_erase]
      simp only [mem_cons, exists_eq_or_imp, forall_eq_or_imp, hsid, true_and, forall_const]
      constructor
      · rintro (h | ⟨rfl | ⟨hk, hin⟩, hrest⟩)
        · exact .inl (.inr h)
        · exact .inl (.inl rfl)
        · exact .inr ⟨hin, Ne.symm hk, hrest⟩
      · rintro ((rfl | h) | ⟨hin, hk, hrest⟩)
        · exact .inr ⟨.inl rfl, hapart⟩
        · exact .inl h
        · exact .inr ⟨.inr ⟨Ne.symm hk, hin⟩, hrest⟩
    · rw [bindEntry, if_neg hsid, if_neg hsid]
      simp [hsid]

theorem Mirrors.bind (h : Mirrors set l) (hne : old ≠ conn)
    (hold : ∀ e ∈ l, e.subscriptionId = sid → e.connectionId = old) :
    Mirrors (updateDedup sid old (l.map (bindEntry sid conn)) set) (l.map (bindEntry sid conn)) := by
  intro k
  rw [mem_updateDedup hne hold, h k]
  simp only [mem_map, exists_exists_and_eq_and]
  constructor
  · rintro (⟨e, he, -, rfl⟩ | ⟨⟨e, he, rfl⟩, hkept⟩)
    · exact ⟨e, he, rfl⟩
    · exact ⟨e, he, by rw [bindEntry, if_neg fun hsid => hkept e he hsid rfl]⟩
  · rintro ⟨e, he, rfl⟩
    by_cases hsid : e.subscriptionId = sid
    · exact .inl ⟨e, he, hsid, rfl⟩
    rw [bindEntry, if_neg hsid]
    exact .inr ⟨⟨e, he, rfl⟩, fun x _ hx heq => hsid ((congrArg MatchEntry.subscriptionId heq).symm.trans hx)⟩

/-- **Each set mirrors its vector**, and a bucket has its hash listed. -/
structure Mirrored (mt : MatchTable) : Prop where
  exact : ∀ h, Mirrors (mt.exactDedup h) (mt.exact h)
  catchAll : Mirrors mt.catchAllDedup mt.catchAll
  listed : ∀ h, ∀ e ∈ mt.exact h, h ∈ mt.exactHashes

theorem mirrored_new : new.Mirrored where
  exact := by simp [Mirrors, new]
  catchAll := by simp [Mirrors, new]
  listed h e he := by cases he

variable (h : mt.Mirrored)

include h

theorem Mirrored.addCatchAll : (mt.addCatchAll e).Mirrored := ⟨h.exact, h.catchAll.push, h.listed⟩

theorem Mirrored.exact_addExact (x : SubjectHash) :
    (mt.addExact x subject e).exact = Function.update mt.exact x (pushDedup (mt.exact x) e) := by
  rw [← (h.exact x).push_eq]
  rfl

theorem Mirrored.addExact (x : SubjectHash) : (mt.addExact x subject e).Mirrored where
  exact y := by
    by_cases hy : y = x
    · subst hy
      simp only [MatchTable.addExact, Function.update_self]
      exact (h.exact y).push
    · simp only [MatchTable.addExact, Function.update_of_ne hy]
      exact h.exact y
  catchAll := h.catchAll
  listed y z hz := by
    by_cases hy : y = x
    · exact hy ▸ mem_cons_self
    · simp only [MatchTable.addExact, Function.update_of_ne hy] at hz
      exact mem_cons_of_mem _ (h.listed y z hz)

theorem Mirrored.removeSubscription : (mt.removeSubscription sid).Mirrored := by
  have hlisted : ∀ x, ∀ e ∈ (mt.exact x).filter (·.subscriptionId != sid), x ∈ mt.exactHashes :=
    fun x e he => h.listed x e (mem_filter.1 he).1
  unfold MatchTable.removeSubscription
  split <;> exact ⟨fun x => (h.exact x).filter, h.catchAll.filter, hlisted⟩

theorem Mirrored.stamp (hg : ∀ e, (g e).key = e.key) : (mt.mapEntries g).Mirrored where
  exact x := (h.exact x).map fun e _ => hg e
  catchAll := h.catchAll.map fun e _ => hg e
  listed x e he := by
    obtain ⟨e₀, he₀, -⟩ := mem_map.1 he
    exact h.listed x e₀ he₀

/-- **Binding rekeys the sets with the vectors**, as long as the entries of a subscription
are alike: the one that is looked at tells the connection of all. -/
theorem Mirrored.bindSubscription
    (hsingle : ∀ e e', mt.Has e → mt.Has e' → e.subscriptionId = e'.subscriptionId → e = e') :
    (mt.bindSubscription sid conn).Mirrored := by
  have hhas : ∀ e ∈ mt.catchAll ++ mt.exactHashes.flatMap mt.exact, mt.Has e := by
    intro e he
    rcases mem_append.1 he with he | he
    · exact .inr (.inl he)
    · obtain ⟨x, -, he⟩ := mem_flatMap.1 he
      exact .inl ⟨x, he⟩
  have hupdate : ∀ {set : Finset MatchEntry} {l : List MatchEntry}, Mirrors set l →
      l ⊆ mt.catchAll ++ mt.exactHashes.flatMap mt.exact → Mirrors (mt.rebindDedup sid conn (l.map (bindEntry sid conn)) set)
        (l.map (bindEntry sid conn)) := by
    intro set l hm hl
    unfold rebindDedup oldConnectionId
    cases hfind : (mt.catchAll ++ mt.exactHashes.flatMap mt.exact).find? (·.subscriptionId = sid) with
    | none =>
      refine hm.map fun e he => ?_
      rw [bindEntry, if_neg (by simpa using find?_eq_none.1 hfind e (hl he))]
    | some e₀ =>
      have hold : ∀ e ∈ l, e.subscriptionId = sid → e.connectionId = e₀.connectionId := by
        intro e he hsid
        have hsid₀ : e₀.subscriptionId = sid := by simpa using find?_some hfind
        rw [hsingle e e₀ (hhas e (hl he)) (hhas e₀ (mem_of_find?_eq_some hfind)) (hsid.trans hsid₀.symm)]
      simp only [Option.map_some]
      split
      · next hsame =>
        refine hm.map fun e he => ?_
        unfold bindEntry
        split
        · next hsid => rw [← hsame, ← hold e he hsid]
        · rfl
      · next hne => exact hm.bind hne hold
  have hbucket : ∀ x, mt.exact x ⊆ mt.catchAll ++ mt.exactHashes.flatMap mt.exact :=
    fun x e he => mem_append_right _ (mem_flatMap.2 ⟨x, h.listed x e he, he⟩)
  refine ⟨fun x => ?_, hupdate h.catchAll (subset_append_left _ _), ?_⟩
  · by_cases hempty : mt.exactDedup x = ∅
    · have hnil : mt.exact x = [] := by
        refine eq_nil_iff_forall_not_mem.2 fun e he => ?_
        have hin := (h.exact x e.key).2 ⟨e, he, rfl⟩
        rw [hempty] at hin
        cases hin
      simp [MatchTable.bindSubscription, mapEntries, hempty, hnil, Mirrors]
    · simp only [MatchTable.bindSubscription, if_neg hempty]
      exact hupdate (h.exact x) (hbucket x)
  · intro x e he
    obtain ⟨e₀, he₀, -⟩ := mem_map.1 he
    exact h.listed x e₀ he₀

end Mirrors

section Once

/-! Lists of entries of which each subscription has one. -/

variable {P : MatchEntry → Prop} (hsingle : ∀ e e', P e → P e' → e.subscriptionId = e'.subscriptionId → e = e')

include hsingle

theorem pushDedup_once (hl : ∀ x ∈ l, P x) (he : P e) (h : (l.map (·.subscriptionId)).Nodup) :
    ((pushDedup l e).map (·.subscriptionId)).Nodup ∧ ∀ x, x ∈ pushDedup l e ↔ x ∈ l ∨ x = e := by
  unfold pushDedup
  split
  · next hin =>
    refine ⟨h, fun x => ⟨.inl, ?_⟩⟩
    rintro (hx | rfl)
    · exact hx
    · obtain ⟨y, hy, hsame⟩ := any_eq_true.1 hin
      rw [hsingle x y he (hl y hy) (same_iff.1 hsame).2.2.1]
      exact hy
  next hnew =>
  refine ⟨?_, fun x => by simp⟩
  rw [map_append, nodup_append]
  refine ⟨h, nodup_singleton _, fun a ha b hb hab => hnew ?_⟩
  obtain ⟨y, hy, rfl⟩ := mem_map.1 ha
  rw [mem_singleton.1 hb] at hab
  obtain rfl := hsingle y e (hl y hy) he hab
  exact any_eq_true.2 ⟨_, hy, same_self⟩

theorem foldl_pushDedup_once (es : List MatchEntry) {base : List MatchEntry} (hbase : ∀ x ∈ base, P x)
    (hes : ∀ x ∈ es, P x) (h : (base.map (·.subscriptionId)).Nodup) :
    ((es.foldl pushDedup base).map (·.subscriptionId)).Nodup ∧
      ∀ x, x ∈ es.foldl pushDedup base ↔ x ∈ base ∨ x ∈ es := by
  induction es generalizing base with
  | nil => exact ⟨h, fun x => by simp⟩
  | cons e es ih =>
    have he := hes e mem_cons_self
    obtain ⟨hone, hmem⟩ := pushDedup_once hsingle hbase he h
    obtain ⟨hall, hin⟩ := ih (fun x hx => ((hmem x).1 hx).elim (hbase x) fun heq => heq ▸ he)
      (fun x hx => hes x (mem_cons_of_mem _ hx)) hone
    refine ⟨hall, fun x => ?_⟩
    rw [foldl_cons, hin, hmem, mem_cons, or_assoc]

end Once

/-- Entries that agree in everything but the stamp are equal. -/
def Distinct (P : MatchEntry → Prop) : Prop := ∀ a b, P a → P b → a.same b = true → a = b

theorem Unstamped.distinct (h : mt.Unstamped) : Distinct mt.Has := by
  intro a b ha hb hab
  obtain ⟨h1, h2, h3, h4⟩ := same_iff.1 hab
  have h5 : a.bindingIdx = b.bindingIdx := by rw [h a ha, h b hb]
  cases a
  cases b
  simp only at h1 h2 h3 h4 h5
  rw [h1, h2, h3, h4, h5]

theorem Distinct.stamp (h : Distinct mt.Has) (c : ConsumerId) (conn : ConnectionId) (sid : SubscriptionId) (i : ℕ) :
    Distinct (mt.setBindingIdxFor c conn sid i).Has := by
  intro a b ha hb hab
  obtain ⟨a₀, ha₀, rfl⟩ := has_mapEntries.1 ha
  obtain ⟨b₀, hb₀, rfl⟩ := has_mapEntries.1 hb
  have hkeys : a₀.same b₀ = true := by
    obtain ⟨ha1, ha2, ha3, ha4⟩ := stampEntry_keys
    obtain ⟨hb1, hb2, hb3, hb4⟩ := stampEntry_keys
    obtain ⟨h1, h2, h3, h4⟩ := same_iff.1 hab
    exact same_iff.2 ⟨by rw [← ha1, h1, hb1], by rw [← ha4, h2, hb4], by rw [← ha3, h3, hb3], by rw [← ha2, h4, hb2]⟩
  rw [h a₀ b₀ ha₀ hb₀ hkeys]

theorem Distinct.foldl_pushDedup (l base : List MatchEntry) (h : Distinct (· ∈ base)) :
    Distinct (· ∈ l.foldl pushDedup base) := by
  induction l generalizing base with
  | nil => exact h
  | cons x l ih =>
    refine ih _ ?_
    unfold pushDedup
    split
    · exact h
    next hnew =>
    simp only [MatchEntry.containedIn, any_eq_true, not_exists, not_and, Bool.not_eq_true] at hnew
    intro a b ha hb hab
    have hsymm : b.same a = true := by
      obtain ⟨h1, h2, h3, h4⟩ := same_iff.1 hab
      exact same_iff.2 ⟨h1.symm, h2.symm, h3.symm, h4.symm⟩
    rcases mem_append.1 ha with ha | ha
    · rcases mem_append.1 hb with hb | hb
      · exact h a b ha hb hab
      · rw [mem_singleton.1 hb, hnew a ha] at hsymm
        cases hsymm
    · rcases mem_append.1 hb with hb | hb
      · rw [mem_singleton.1 ha, hnew b hb] at hab
        cases hab
      · rw [mem_singleton.1 ha, mem_singleton.1 hb]

/-! ### Removing a subscription -/

section Remove

variable {sid : SubscriptionId}

theorem exact_removeSubscription (h : SubjectHash) :
    (mt.removeSubscription sid).exact h = (mt.exact h).filter fun e => e.subscriptionId != sid := by
  unfold removeSubscription
  split <;> rfl

theorem catchAll_removeSubscription :
    (mt.removeSubscription sid).catchAll = mt.catchAll.filter fun e => e.subscriptionId != sid := by
  unfold removeSubscription
  split <;> rfl

theorem patterns_removeSubscription :
    (mt.removeSubscription sid).patterns = mt.patterns.filter fun pe => pe.2.subscriptionId != sid := by
  unfold removeSubscription
  split <;> rfl

theorem filter_patterns (h : ¬ (mt.patterns.any fun pe => pe.2.subscriptionId == sid) = true) :
    (mt.patterns.filter fun pe => pe.2.subscriptionId != sid) = mt.patterns := by
  simp only [Bool.not_eq_true, any_eq_false] at h
  exact filter_eq_self.2 fun pe hpe => by simpa using h pe hpe

theorem patternEntries_removeSubscription (sid : SubscriptionId) (h : mt.patternEntries = mt.patterns.map Prod.snd) :
    (mt.removeSubscription sid).patternEntries = (mt.removeSubscription sid).patterns.map Prod.snd := by
  rw [patterns_removeSubscription]
  unfold removeSubscription
  split
  · rfl
  next hnone =>
  rw [filter_patterns hnone]
  exact h

end Remove

end MatchTable

namespace DrainSnapshot

/-- Entry and binding agree. -/
def Agree (s : StreamId) (e : MatchEntry) (a : ActiveBinding) : Prop :=
  a.streamId = s ∧ a.consumerId = e.consumerId ∧ a.connectionId = e.connectionId ∧
    a.subscriptionId = e.subscriptionId

/-- What the drain relies on in a snapshot. -/
structure OK (snap : DrainSnapshot) : Prop where
  stamped : ∀ s mt e i a, snap.matchTable s = some mt → mt.Has e → e.bindingIdx = some i →
    snap.bindings[i]? = some a → Agree s e a
  grouped : ∀ a ∈ snap.bindings, ∀ b ∈ snap.bindings, a.groupIdx = b.groupIdx ↔ a.group = b.group
  distinct : ∀ s mt, snap.matchTable s = some mt → Distinct mt.Has

/-- A snapshot as `rebuild_and_swap_snapshot` makes it, from tables without stamps. -/
def Published (snap : DrainSnapshot) : Prop :=
  ∃ bindings tables retention, (∀ s mt, Dense.get none tables s = some mt → mt.Unstamped) ∧
    snap = rebuild bindings tables retention

theorem Published.one (bindings : List ActiveBinding) {t : MatchTable} (ht : t.Unstamped) :
    (rebuild bindings [none, some t] ∅).Published := by
  refine ⟨_, _, _, fun s mt hmt => ?_, rfl⟩
  match s with
  | 0 => cases hmt
  | 1 => cases hmt; exact ht
  | _ + 2 => cases hmt

/-! ### Stamps -/

theorem get_stampBinding {tables : List (Option MatchTable)} {bi : ActiveBinding × ℕ} {s : StreamId} :
    get none (stampBinding tables bi) s =
      if s = bi.1.streamId then (get none tables s).map
        (·.setBindingIdxFor bi.1.consumerId bi.1.connectionId bi.1.subscriptionId bi.2) else get none tables s := by
  unfold stampBinding
  rw [get_modify none _ s (.inl rfl)]
  split
  · next h => rw [h]
  · rfl

/-- Every stamp so far names a binding of the stream that agrees with the entry. -/
def StampedBy (done : List (ActiveBinding × ℕ)) (tables : List (Option MatchTable)) : Prop :=
  ∀ s mt e i, Dense.get none tables s = some mt → mt.Has e → e.bindingIdx = some i →
    ∃ a, (a, i) ∈ done ∧ Agree s e a

variable {tables : List (Option MatchTable)} (bs : List ActiveBinding) (seen : List (ConnectionId × ConsumerId))

theorem StampedBy.stamp {done : List (ActiveBinding × ℕ)}
    (h : StampedBy done tables) (bi : ActiveBinding × ℕ) : StampedBy (done ++ [bi]) (stampBinding tables bi) := by
  intro s mt e i hmt he hi
  rw [get_stampBinding] at hmt
  split at hmt
  · next hs =>
    obtain ⟨mt₀, hmt₀, rfl⟩ := Option.map_eq_some_iff.1 hmt
    obtain ⟨e₀, he₀, rfl⟩ := has_mapEntries.1 he
    obtain ⟨hc, hconn, hsid, -⟩ := stampEntry_keys
    unfold Agree
    rw [hc, hconn, hsid]
    by_cases hkey : e₀.consumerId = bi.1.consumerId ∧ e₀.connectionId = bi.1.connectionId ∧
        e₀.subscriptionId = bi.1.subscriptionId
    · have hidx : i = bi.2 := by
        unfold stampEntry at hi
        rw [if_pos hkey] at hi
        exact (Option.some.inj hi).symm
      exact ⟨bi.1, mem_append_right _ (by rw [hidx]; exact mem_singleton_self bi), hs.symm,
        hkey.1.symm, hkey.2.1.symm, hkey.2.2.symm⟩
    · have hi₀ : e₀.bindingIdx = some i := by
        unfold stampEntry at hi
        rw [if_neg hkey] at hi
        exact hi
      obtain ⟨a, ha, hag⟩ := h s mt₀ e₀ i hmt₀ he₀ hi₀
      exact ⟨a, mem_append_left _ ha, hag⟩
  · obtain ⟨a, ha, hag⟩ := h s mt e i hmt he hi
    exact ⟨a, mem_append_left _ ha, hag⟩

theorem StampedBy.foldl (l done : List (ActiveBinding × ℕ))
    (h : StampedBy done tables) : StampedBy (done ++ l) (l.foldl stampBinding tables) := by
  induction l generalizing done tables with
  | nil => rw [append_nil]; exact h
  | cons bi l ih =>
    have hall := ih (done ++ [bi]) (h.stamp bi)
    rw [append_assoc] at hall
    exact hall

/-! ### Groups -/

/-- Group indices point into one list of distinct pairs that starts with those seen. -/
theorem assignGroups_spec (hn : seen.Nodup) :
    ∃ groups : List (ConnectionId × ConsumerId), groups.Nodup ∧ seen <+: groups ∧
      ∀ b ∈ assignGroups seen bs, groups[b.groupIdx]? = some b.group := by
  induction bs generalizing seen with
  | nil => exact ⟨seen, hn, prefix_refl _, fun b hb => by cases hb⟩
  | cons b bs ih =>
    unfold assignGroups
    split
    · next hmem =>
      obtain ⟨groups, hg, hpre, hall⟩ := ih seen hn
      refine ⟨groups, hg, hpre, forall_mem_cons.2 ⟨?_, hall⟩⟩
      have hlt := idxOf_lt_length_of_mem hmem
      obtain ⟨more, rfl⟩ := hpre
      show (seen ++ more)[seen.idxOf b.group]? = some b.group
      rw [getElem?_append_left hlt, getElem?_eq_getElem hlt, getElem_idxOf]
    next hmem =>
    have hn' : (seen ++ [b.group]).Nodup := by
      rw [nodup_append]
      refine ⟨hn, nodup_singleton _, ?_⟩
      intro x hx y hy hxy
      rw [mem_singleton.1 hy] at hxy
      exact hmem (by rw [← hxy]; exact hx)
    obtain ⟨groups, hg, hpre, hall⟩ := ih (seen ++ [b.group]) hn'
    refine ⟨groups, hg, (prefix_append seen _).trans hpre, forall_mem_cons.2 ⟨?_, hall⟩⟩
    obtain ⟨more, rfl⟩ := hpre
    show (seen ++ [b.group] ++ more)[seen.length]? = some b.group
    simp

theorem getElem?_assignGroups (i : ℕ) (a : ActiveBinding) (h : (assignGroups seen bs)[i]? = some a) :
    ∃ b, bs[i]? = some b ∧ a = { b with groupIdx := a.groupIdx } := by
  induction bs generalizing seen i a with
  | nil => simp [assignGroups] at h
  | cons b bs ih =>
    unfold assignGroups at h
    split at h
    · cases i with
      | zero => cases h; exact ⟨b, rfl, rfl⟩
      | succ i => exact ih _ i a (by simpa using h)
    · cases i with
      | zero => cases h; exact ⟨b, rfl, rfl⟩
      | succ i => exact ih _ i a (by simpa using h)

theorem distinct_stamps {l : List (ActiveBinding × ℕ)} (tables : List (Option MatchTable))
    (h : ∀ s mt, get none tables s = some mt → Distinct mt.Has) :
    ∀ s mt, get none (l.foldl stampBinding tables) s = some mt → Distinct mt.Has := by
  induction l generalizing tables with
  | nil => exact h
  | cons bi l ih =>
    refine ih _ fun s mt hmt => ?_
    rw [get_stampBinding] at hmt
    split at hmt
    · obtain ⟨mt₀, hmt₀, rfl⟩ := Option.map_eq_some_iff.1 hmt
      exact (h s mt₀ hmt₀).stamp _ _ _ _
    · exact h s mt hmt

/-- **A published snapshot is well formed.** -/
theorem Published.ok {snap : DrainSnapshot} (h : Published snap) : snap.OK := by
  obtain ⟨bindings, tables, retention, hun, rfl⟩ := h
  have hst : StampedBy bindings.zipIdx (bindings.zipIdx.foldl stampBinding tables) := by
    have hnone : StampedBy [] tables := by
      intro s mt e i hmt he hi
      rw [hun s mt hmt e he] at hi
      cases hi
    simpa using StampedBy.foldl bindings.zipIdx [] hnone
  obtain ⟨groups, hg, -, hall⟩ := assignGroups_spec bindings [] nodup_nil
  refine ⟨?_, ?_, distinct_stamps _ fun s mt hmt => (hun s mt hmt).distinct⟩
  · intro s mt e i a hmt he hi ha
    obtain ⟨b, hb, hag⟩ := hst s mt e i hmt he hi
    obtain ⟨b', hb', hab⟩ := getElem?_assignGroups bindings [] i a ha
    have hbi := mem_zipIdx_iff_getElem?.1 hb
    rw [hb'] at hbi
    cases hbi
    rw [hab]
    exact hag
  intro a ha b hb
  have h1 := hall a ha
  have h2 := hall b hb
  constructor
  · intro hidx
    rw [hidx, h2] at h1
    exact (Option.some.inj h1).symm
  intro hgroup
  rw [hgroup] at h1
  obtain ⟨hlt1, hx1⟩ := List.getElem?_eq_some_iff.1 h1
  obtain ⟨hlt2, hx2⟩ := List.getElem?_eq_some_iff.1 h2
  exact (Nodup.getElem_inj_iff hg).1 (hx1.trans hx2.symm)

end DrainSnapshot

end Arbitro
