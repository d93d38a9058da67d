import Mathlib.Data.Set.Function
import Arbitro.Proof.Trie
import Arbitro.Proof.Tables

/-!
# Match tables and the subscriptions they were built from

A match table spreads a subscription over an exact bucket for each literal filter, the
catch-all list and the trie. `MatchTable.Serves` ties the table to the list of
registrations it was built from, and every operation on the table is one on that list.

* `Serves.register`, `Serves.remove`, `Serves.bind`, `Serves.stamp`: the operations.
* `Serves.merged`: the lookup finds the registrations with no filter or a matching one,
  each once.
-/

namespace Arbitro

open Function List Catalog

variable (wh : WireHash)

/-- A subscription as a match table knows it. -/
structure Registration where
  entry : MatchEntry
  filters : List Bytes

variable (r : Registration)

namespace Registration

def sid : SubscriptionId := r.entry.subscriptionId

/-- Does a literal filter of the registration have this hash? -/
def literal (h : SubjectHash) (r : Registration) : Bool :=
  r.filters.any fun f => !hasWildcard f && wh f == h

/-- What the registration adds to the patterns of the table. -/
def wild : List (Bytes × MatchEntry) := (r.filters.filter hasWildcard).map fun f => (f, r.entry)

def mapEntry (g : MatchEntry → MatchEntry) (r : Registration) : Registration := ⟨g r.entry, r.filters⟩

/-- Is a subject for this subscription? -/
def Wants (subject : Bytes) : Prop :=
  r.filters = [] ∨ ∃ f ∈ r.filters, subjectMatches f subject = true

theorem literal_iff {wh : WireHash} {h : SubjectHash} {r : Registration} :
    r.literal wh h = true ↔ ∃ f ∈ r.filters, hasWildcard f = false ∧ wh f = h := by
  simp [literal]

theorem literal_snoc (h : SubjectHash) {e : MatchEntry} {fs : List Bytes} {f : Bytes} :
    literal wh h ⟨e, fs ++ [f]⟩ = (literal wh h ⟨e, fs⟩ || (!hasWildcard f && wh f == h)) := by
  simp [literal]

/-- The exact bucket of a hash, for a list of registrations. -/
def bucket (h : SubjectHash) (regs : List Registration) : List MatchEntry :=
  (regs.filter (·.literal wh h)).map (·.entry)

theorem bucket_snoc (h : SubjectHash) {regs : List Registration} (r : Registration) :
    bucket wh h (regs ++ [r]) = bucket wh h regs ++ if r.literal wh h then [r.entry] else [] := by
  unfold bucket
  cases hr : r.literal wh h <;> simp [hr]

end Registration

open Registration

namespace MatchTable

variable {wh} {S : Set Bytes} {mt : MatchTable} {regs : List Registration} {e : MatchEntry} {s : Bytes} {r}
  {fs : List Bytes} {f : Bytes}

/-- The indices for filters hold what a list of registrations asks for. -/
structure Files (wh : WireHash) (mt : MatchTable) (regs : List Registration) : Prop where
  mirrored : mt.Mirrored
  exact : ∀ h, mt.exact h = Registration.bucket wh h regs
  patterns : mt.patterns = regs.flatMap (·.wild)
  entries : mt.patternEntries = mt.patterns.map Prod.snd
  trie : mt.patternTrie.Indexes (mt.patterns.map Prod.fst)

/-- **The table lists registrations of different subscriptions**, whatever the filters hash to. -/
structure Lists (wh : WireHash) (mt : MatchTable) (regs : List Registration) : Prop extends Files wh mt regs where
  catchAll : mt.catchAll = (regs.filter (·.filters.isEmpty)).map (·.entry)
  distinct : (regs.map (·.sid)).Nodup

/-- The literal of an open bucket is a filter of a registration. -/
def Opens (wh : WireHash) (mt : MatchTable) (regs : List Registration) : Prop :=
  ∀ h f, mt.exactSubjects h = some f ↔ ∃ r ∈ regs, f ∈ r.filters ∧ hasWildcard f = false ∧ wh f = h

/-- Every filter is without empty tokens and one of the subjects in play. -/
def Proper (S : Set Bytes) (regs : List Registration) : Prop :=
  ∀ r ∈ regs, ∀ f ∈ r.filters, NoEmptyTokens f ∧ f ∈ S

/-- **The table serves a list of registrations.** -/
structure Serves (wh : WireHash) (S : Set Bytes) (mt : MatchTable) (regs : List Registration) : Prop
    extends Lists wh mt regs where
  opens : mt.Opens wh regs
  proper : Proper S regs

theorem lists_new : MatchTable.new.Lists wh [] where
  mirrored := mirrored_new
  exact _ := rfl
  patterns := rfl
  entries := rfl
  trie := SubjectTrie.stores_nil
  catchAll := rfl
  distinct := nodup_nil

theorem serves_new : MatchTable.new.Serves wh S [] where
  toLists := lists_new
  opens h f := ⟨nofun, by rintro ⟨r, hr, -⟩; cases hr⟩
  proper := fun r hr => by cases hr

/-! ## Registering -/

theorem exists_filter_snoc {p : Prop} {g : Bytes} :
    (∃ r ∈ regs ++ [⟨e, fs ++ [f]⟩], g ∈ r.filters ∧ p) ↔ (∃ r ∈ regs ++ [⟨e, fs⟩], g ∈ r.filters ∧ p) ∨ (g = f ∧ p) := by
  simp only [mem_append, mem_singleton, or_and_right, exists_or, exists_eq_left, or_assoc]

theorem Files.start (h : mt.Files wh regs) (e : MatchEntry) : mt.Files wh (regs ++ [⟨e, []⟩]) where
  mirrored := h.mirrored
  exact x := by rw [h.exact x, bucket_snoc]; simp [literal]
  patterns := by rw [h.patterns]; simp [wild]
  entries := h.entries
  trie := h.trie

theorem Files.addPattern (h : mt.Files wh (regs ++ [⟨e, fs⟩]))
    (hw : hasWildcard f = true) : (mt.addPattern f e).Files wh (regs ++ [⟨e, fs ++ [f]⟩]) where
  mirrored := ⟨h.mirrored.exact, h.mirrored.catchAll, h.mirrored.listed⟩
  exact x := by
    show mt.exact x = _
    rw [h.exact x, bucket_snoc, bucket_snoc, literal_snoc, hw]
    simp
  patterns := by
    show mt.patterns ++ [(f, e)] = _
    rw [h.patterns]
    simp [wild, hw]
  entries := by
    show mt.patternEntries ++ [e] = (mt.patterns ++ [(f, e)]).map Prod.snd
    rw [h.entries, map_append]
    rfl
  trie := by
    show (mt.patternTrie.insert f mt.patternEntries.length).Indexes ((mt.patterns ++ [(f, e)]).map Prod.fst)
    have hlen : mt.patternEntries.length = (mt.patterns.map Prod.fst).length := by
      rw [h.entries, length_map, length_map]
    rw [hlen, map_append]
    exact h.trie.insert f

theorem Files.addExact (h : mt.Files wh (regs ++ [⟨e, fs⟩]))
    (hw : hasWildcard f = false) (hfresh : ∀ r ∈ regs, r.sid ≠ e.subscriptionId) :
    (mt.addExact (wh f) f e).Files wh (regs ++ [⟨e, fs ++ [f]⟩]) where
  mirrored := h.mirrored.addExact _
  exact x := by
    rw [h.mirrored.exact_addExact, bucket_snoc, literal_snoc, hw]
    by_cases hx : x = wh f
    · subst hx
      rw [update_self, h.exact, bucket_snoc]
      have hnew : e.containedIn (bucket wh (wh f) regs) = false := not_containedIn fun x hx => by
        obtain ⟨r, hr, rfl⟩ := mem_map.1 hx
        exact hfresh r (mem_filter.1 hr).1
      -- the bucket has the entry if an earlier filter had the hash
      cases hlit : literal wh (wh f) ⟨e, fs⟩ with
      | false => simp [pushDedup, hnew]
      | true => simp [pushDedup, MatchEntry.containedIn, same_self]
    · have hne : (wh f == x) = false := beq_eq_false_iff_ne.2 (Ne.symm hx)
      rw [update_of_ne hx, h.exact x, bucket_snoc]
      simp [hne]
  patterns := by
    show mt.patterns = _
    rw [h.patterns]
    simp [wild, hw]
  entries := h.entries
  trie := h.trie

theorem Files.addFilters (hfresh : ∀ r ∈ regs, r.sid ≠ e.subscriptionId) (more : List Bytes) {mt : MatchTable}
    {fs : List Bytes} (h : mt.Files wh (regs ++ [⟨e, fs⟩])) :
    (more.foldl (addFilter wh e) mt).Files wh (regs ++ [⟨e, fs ++ more⟩]) := by
  induction more generalizing mt fs with
  | nil => rw [append_nil]; exact h
  | cons f more ih =>
    rw [append_cons fs]
    refine ih ?_
    unfold addFilter
    split
    · next hw => exact h.addPattern hw
    · next hw => exact h.addExact (Bool.not_eq_true _ ▸ hw) hfresh

theorem Opens.snoc (h : mt.Opens wh (regs ++ [⟨e, fs⟩]))
    (hinj : ∀ r ∈ regs ++ [⟨e, fs⟩], ∀ g ∈ r.filters, wh g = wh f → g = f) :
    (addFilter wh e mt f).Opens wh (regs ++ [⟨e, fs ++ [f]⟩]) := by
  intro x g
  rw [exists_filter_snoc, ← h x g]
  unfold Catalog.addFilter
  split
  · next hw =>
    refine (or_iff_left ?_).symm
    rintro ⟨rfl, hlit, -⟩
    simp [hw] at hlit
  next hw =>
  show update mt.exactSubjects (wh f) (some ((mt.exactSubjects (wh f)).getD f)) x = some g ↔ _
  have hlit : (g = f ∧ hasWildcard g = false ∧ wh g = x) ↔ (g = f ∧ wh f = x) :=
    and_congr_right fun heq => by rw [heq]; simp [hw]
  rw [hlit]
  by_cases hx : x = wh f
  · subst hx
    cases hold : mt.exactSubjects (wh f) with
    | none => simp [eq_comm]
    | some g' =>
      -- a bucket that is open was opened for this very filter
      obtain ⟨r, hr, hg', -, heq⟩ := (h _ g').1 hold
      rw [hinj r hr g' hg' heq]
      simp [eq_comm]
  · rw [update_of_ne hx]
    simp [Ne.symm hx]

theorem Opens.addFilters (hinj : Set.InjOn wh S) (more : List Bytes) {mt : MatchTable} {fs : List Bytes}
    (h : mt.Opens wh (regs ++ [⟨e, fs⟩])) (hproper : Proper S (regs ++ [⟨e, fs ++ more⟩])) :
    (more.foldl (addFilter wh e) mt).Opens wh (regs ++ [⟨e, fs ++ more⟩]) := by
  induction more generalizing mt fs with
  | nil => rw [append_nil]; exact h
  | cons f more ih =>
    rw [append_cons fs] at hproper ⊢
    refine ih (h.snoc fun r hr g hg heq => ?_) hproper
    have hS : ∀ g ∈ fs ++ [f], g ∈ S := fun g hg =>
      (hproper ⟨e, fs ++ [f] ++ more⟩ (mem_append_right _ (mem_singleton_self _)) g (mem_append_left _ hg)).2
    refine hinj ?_ (hS f (by simp)) heq
    rcases mem_append.1 hr with hr | hr
    · exact (hproper r (mem_append_left _ hr) g hg).2
    · rw [mem_singleton.1 hr] at hg
      exact hS g (mem_append_left _ hg)

/-- What `ensure_subscription` does to the table. -/
def register (wh : WireHash) (mt : MatchTable) (r : Registration) : MatchTable :=
  if r.filters.isEmpty then mt.addCatchAll r.entry else r.filters.foldl (Catalog.addFilter wh r.entry) mt

theorem Lists.register (h : mt.Lists wh regs) (hfresh : ∀ x ∈ regs, x.sid ≠ r.sid) :
    (mt.register wh r).Lists wh (regs ++ [r]) := by
  have hdistinct : ((regs ++ [r]).map (·.sid)).Nodup := by
    rw [map_append, nodup_append]
    refine ⟨h.distinct, nodup_singleton _, ?_⟩
    intro a ha b hb
    obtain ⟨x, hx, rfl⟩ := mem_map.1 ha
    rw [mem_singleton.1 hb]
    exact hfresh x hx
  obtain ⟨e, fs⟩ := r
  have hstart := h.toFiles.start e
  cases fs with
  | nil =>
    refine ⟨⟨h.mirrored.addCatchAll, hstart.exact, hstart.patterns, hstart.entries, hstart.trie⟩, ?_, hdistinct⟩
    have hnew : e.containedIn mt.catchAll = false := not_containedIn fun x hx => by
      rw [h.catchAll] at hx
      obtain ⟨r, hr, rfl⟩ := mem_map.1 hx
      exact hfresh r (mem_filter.1 hr).1
    show (if e.key ∈ mt.catchAllDedup then mt.catchAll else mt.catchAll ++ [e]) = _
    rw [h.mirrored.catchAll.push_eq, pushDedup, hnew, h.catchAll]
    simp
  | cons f fs =>
    refine ⟨hstart.addFilters hfresh (f :: fs), ?_, hdistinct⟩
    have hkeep (gs : List Bytes) (mt : MatchTable) : (gs.foldl (addFilter wh e) mt).catchAll = mt.catchAll := by
      refine foldlRecOn gs (addFilter wh e) (motive := (·.catchAll = mt.catchAll)) rfl fun mt' h g _ => ?_
      rw [← h]
      unfold addFilter
      split <;> rfl
    show ((f :: fs).foldl (addFilter wh e) mt).catchAll = _
    rw [hkeep, h.catchAll]
    simp

theorem Serves.register (hinj : Set.InjOn wh S) (h : mt.Serves wh S regs)
    (hfresh : ∀ x ∈ regs, x.sid ≠ r.sid) (hproper : ∀ f ∈ r.filters, NoEmptyTokens f ∧ f ∈ S) :
    (mt.register wh r).Serves wh S (regs ++ [r]) := by
  have hall : Proper S (regs ++ [r]) := forall_mem_append.2 ⟨h.proper, forall_mem_singleton.2 hproper⟩
  refine ⟨h.toLists.register hfresh, ?_, hall⟩
  obtain ⟨e, fs⟩ := r
  have hstart : mt.Opens wh (regs ++ [⟨e, []⟩]) := fun x f => by rw [h.opens x f]; simp
  cases fs with
  | nil => exact hstart
  | cons f fs => exact hstart.addFilters hinj (f :: fs) hall

/-! ## Removing -/

theorem indexes_rebuild {β : Type*} {ps : List (Bytes × β)} :
    SubjectTrie.Indexes (ps.zipIdx.foldl (fun t pi => t.insert pi.1.1 pi.2) {}) (ps.map Prod.fst) := by
  have hstores := SubjectTrie.stores_nil.foldl (ps.zipIdx.map fun pi => (pi.1.1, pi.2))
  rw [foldl_map, nil_append] at hstores
  unfold SubjectTrie.Indexes
  rw [zipIdx_map]
  exact hstores

/-- The registrations but those of one subscription. -/
def without (sid : SubscriptionId) (regs : List Registration) : List Registration :=
  regs.filter fun r => r.entry.subscriptionId != sid

theorem bucket_without (h : SubjectHash) {sid : SubscriptionId} :
    (bucket wh h regs).filter (fun e => e.subscriptionId != sid) = bucket wh h (without sid regs) := by
  unfold bucket without
  rw [filter_map, filter_filter, filter_filter]
  congr 1
  exact filter_congr fun r _ => Bool.and_comm _ _

theorem wild_without {sid : SubscriptionId} :
    (regs.flatMap (·.wild)).filter (fun pe => pe.2.subscriptionId != sid) = (without sid regs).flatMap (·.wild) := by
  unfold without
  induction regs with
  | nil => rfl
  | cons r regs ih =>
    rw [flatMap_cons, filter_append, ih, filter_cons]
    cases hr : (r.entry.subscriptionId != sid) with
    | false => simp [wild, filter_map, comp_def, hr]
    | true => simp [wild, filter_map, comp_def, hr]

theorem Lists.remove (h : mt.Lists wh regs) (sid : SubscriptionId) :
    (mt.removeSubscription sid).Lists wh (without sid regs) where
  mirrored := h.mirrored.removeSubscription
  exact x := by rw [exact_removeSubscription, h.exact, bucket_without]
  patterns := by rw [patterns_removeSubscription, h.patterns, wild_without]
  entries := patternEntries_removeSubscription _ h.entries
  trie := by
    rw [patterns_removeSubscription]
    unfold removeSubscription
    split
    · exact indexes_rebuild
    · next hnone =>
      rw [filter_patterns hnone]
      exact h.trie
  catchAll := by
    rw [catchAll_removeSubscription, h.catchAll, filter_map]
    unfold without
    rw [filter_filter, filter_filter]
    congr 1
    exact filter_congr fun r _ => Bool.and_comm _ _
  distinct := (filter_sublist.map _).nodup h.distinct

theorem Serves.remove (hinj : Set.InjOn wh S) (h : mt.Serves wh S regs) (sid : SubscriptionId) :
    (mt.removeSubscription sid).Serves wh S (without sid regs) := by
  have hsub : (without sid regs).Sublist regs := filter_sublist
  have hlists := h.toLists.remove sid
  have hsubjects : ∀ x, (mt.removeSubscription sid).exactSubjects x =
      if ((mt.removeSubscription sid).exact x).isEmpty then none else mt.exactSubjects x := by
    intro x
    unfold removeSubscription
    split <;> rfl
  refine ⟨hlists, fun x f => ?_, fun r hr => h.proper r (hsub.subset hr)⟩
  rw [hsubjects x, hlists.exact x]
  constructor
  · intro hf
    split at hf
    · cases hf
    next hne =>
    obtain ⟨e, he⟩ := exists_mem_of_ne_nil (bucket wh x (without sid regs))
      fun hnil => hne (by rw [hnil]; rfl)
    unfold bucket at he
    simp only [mem_map, mem_filter] at he
    obtain ⟨r, ⟨hr, hlit⟩, -⟩ := he
    obtain ⟨g, hg, hw, hgx⟩ := literal_iff.1 hlit
    -- whoever is left in the bucket is there for the same literal
    obtain ⟨r', hr', hf', -, hfx⟩ := (h.opens x f).1 hf
    have heq : g = f := hinj (h.proper r (hsub.subset hr) g hg).2 (h.proper r' hr' f hf').2 (by rw [hgx, hfx])
    subst heq
    exact ⟨r, hr, hg, hw, hgx⟩
  · rintro ⟨r, hr, hf, hw, hfx⟩
    have hin : r.entry ∈ bucket wh x (without sid regs) := by
      exact mem_map.2 ⟨r, mem_filter.2 ⟨hr, literal_iff.2 ⟨f, hf, hw, hfx⟩⟩, rfl⟩
    rw [if_neg (fun hnil => by rw [isEmpty_iff.1 hnil] at hin; cases hin)]
    exact (h.opens x f).2 ⟨r, hsub.subset hr, hf, hw, hfx⟩

/-! ## Rewriting entries -/

section Rewrite

variable (h : mt.Lists wh regs) {g : MatchEntry → MatchEntry}

include h

theorem Lists.rewrite {exactDedup : SubjectHash → Finset MatchEntry}
    {catchAllDedup : Finset MatchEntry} (hg : ∀ e, (g e).subscriptionId = e.subscriptionId)
    (hm : Mirrored { mt.mapEntries g with exactDedup := exactDedup, catchAllDedup := catchAllDedup }) :
    Lists wh { mt.mapEntries g with exactDedup := exactDedup, catchAllDedup := catchAllDedup }
      (regs.map (·.mapEntry g)) where
  mirrored := hm
  exact x := by
    show (mt.exact x).map g = _
    rw [h.exact]
    simp [bucket, filter_map, comp_def, mapEntry, literal]
  patterns := by
    show mt.patterns.map (fun pe => (pe.1, g pe.2)) = _
    rw [h.patterns]
    simp [map_flatMap, flatMap_map, wild, mapEntry, comp_def]
  entries := by
    show mt.patternEntries.map g = (mt.patterns.map fun pe => (pe.1, g pe.2)).map Prod.snd
    rw [h.entries, map_map, map_map]
    rfl
  trie := by
    show mt.patternTrie.Indexes ((mt.patterns.map fun pe => (pe.1, g pe.2)).map Prod.fst)
    rw [map_map]
    exact h.trie
  catchAll := by
    show mt.catchAll.map g = _
    rw [h.catchAll]
    simp [filter_map, comp_def, mapEntry]
  distinct := by
    have hsid : ∀ r ∈ regs, (r.mapEntry g).sid = r.sid := fun r _ => hg r.entry
    rw [map_map]
    exact (map_congr_left hsid) ▸ h.distinct

theorem Lists.eq_of_sid {r r' : Registration} (hr : r ∈ regs) (hr' : r' ∈ regs) (hsid : r.sid = r'.sid) : r = r' :=
  inj_on_of_nodup_map h.distinct hr hr' hsid

theorem Lists.of_has {x : MatchEntry} (hx : mt.Has x) : ∃ r ∈ regs, r.entry = x := by
  rcases hx with ⟨y, hx⟩ | hx | hx
  · rw [h.exact] at hx
    obtain ⟨r, hr, rfl⟩ := mem_map.1 hx
    exact ⟨r, (mem_filter.1 hr).1, rfl⟩
  · rw [h.catchAll] at hx
    obtain ⟨r, hr, rfl⟩ := mem_map.1 hx
    exact ⟨r, (mem_filter.1 hr).1, rfl⟩
  · rw [h.entries, h.patterns] at hx
    obtain ⟨pe, hpe, rfl⟩ := mem_map.1 hx
    obtain ⟨r, hr, hpe⟩ := mem_flatMap.1 hpe
    obtain ⟨f, -, rfl⟩ := mem_map.1 hpe
    exact ⟨r, hr, rfl⟩

/-- A subscription has one entry, however often it is filed. -/
theorem Lists.single {x y : MatchEntry} (hx : mt.Has x) (hy : mt.Has y) (hsid : x.subscriptionId = y.subscriptionId) :
    x = y := by
  obtain ⟨r, hr, rfl⟩ := h.of_has hx
  obtain ⟨r', hr', rfl⟩ := h.of_has hy
  rw [h.eq_of_sid hr hr' hsid]

theorem Lists.bind (sid : SubscriptionId) (conn : ConnectionId) :
    (mt.bindSubscription sid conn).Lists wh (regs.map (·.mapEntry (bindEntry sid conn))) :=
  h.rewrite (bindEntry_sid sid conn) (h.mirrored.bindSubscription fun _ _ => h.single)

/-- Limits are no business of the registrations. -/
theorem Lists.limit (wh' : WireHash) (pattern : Bytes) (max : ℕ) :
    (mt.addMaxSubjectInflight wh' pattern max).Lists wh regs := by
  have hm := h.mirrored
  unfold addMaxSubjectInflight
  split <;>
    exact ⟨⟨⟨hm.exact, hm.catchAll, hm.listed⟩, h.exact, h.patterns, h.entries, h.trie⟩, h.catchAll, h.distinct⟩

end Rewrite

theorem Serves.rewrite (h : mt.Serves wh S regs) {mt' : MatchTable} {g : MatchEntry → MatchEntry}
    (hl : mt'.Lists wh (regs.map (·.mapEntry g))) (hs : mt'.exactSubjects = mt.exactSubjects) :
    mt'.Serves wh S (regs.map (·.mapEntry g)) where
  toLists := hl
  opens x f := by
    rw [hs, h.opens]
    simp [mapEntry]
  proper := by
    intro r hr
    obtain ⟨r₀, hr₀, rfl⟩ := mem_map.1 hr
    exact h.proper r₀ hr₀

/-! ## Finding -/

/-- A list of entries of the registrations, one at most for each subscription. -/
structure Drawn (regs : List Registration) (l : List MatchEntry) : Prop where
  from_regs : ∀ x ∈ l, ∃ r ∈ regs, r.entry = x
  once : (l.map (·.subscriptionId)).Nodup

theorem Drawn.foldl (h : mt.Lists wh regs) (es : List MatchEntry) {base : List MatchEntry} (hb : Drawn regs base)
    (hes : ∀ x ∈ es, ∃ r ∈ regs, r.entry = x) : Drawn regs (es.foldl Arbitro.pushDedup base) ∧
      ∀ x, x ∈ es.foldl Arbitro.pushDedup base ↔ x ∈ base ∨ x ∈ es := by
  obtain ⟨honce, hmem⟩ := foldl_pushDedup_once (P := fun x => ∃ r ∈ regs, r.entry = x) (by
    rintro _ _ ⟨r, hr, rfl⟩ ⟨r', hr', rfl⟩ hsid
    rw [h.eq_of_sid hr hr' hsid]) es hb.from_regs hes hb.once
  exact ⟨⟨fun x hx => ((hmem x).1 hx).elim (hb.from_regs x) (hes x), honce⟩, hmem⟩

/-- A bucket and the catch-all list are parts of the registrations, and no registration is
in both. -/
theorem Lists.drawn (h : mt.Lists wh regs) (x : SubjectHash) : Drawn regs (mt.exact x ++ mt.catchAll) := by
  refine ⟨fun y hy => h.of_has ((mem_append.1 hy).elim (.inl ⟨x, ·⟩) fun hy => .inr (.inl hy)), ?_⟩
  rw [h.exact, h.catchAll, bucket, ← map_append, map_map]
  have hpart : ∀ p : Registration → Bool, ((regs.filter p).map (·.sid)).Nodup :=
    fun p => (filter_sublist.map _).nodup h.distinct
  show ((filter _ _ ++ filter _ _).map Registration.sid).Nodup
  rw [map_append, nodup_append]
  refine ⟨hpart _, hpart _, ?_⟩
  intro a ha b hb hab
  obtain ⟨r, hr, rfl⟩ := mem_map.1 ha
  obtain ⟨r', hr', rfl⟩ := mem_map.1 hb
  obtain ⟨hr, hlit⟩ := mem_filter.1 hr
  obtain ⟨hr', hnone⟩ := mem_filter.1 hr'
  obtain rfl := h.eq_of_sid hr hr' hab
  obtain ⟨f, hf, -⟩ := literal_iff.1 hlit
  rw [isEmpty_iff.1 hnone] at hf
  cases hf

theorem Lists.drawn_lookup (h : mt.Lists wh regs) (s : Bytes) : Drawn regs (mt.lookupVerified (wh s) s) := by
  have hsub : (mt.lookupVerified (wh s) s).Sublist (mt.exact (wh s) ++ mt.catchAll) := by
    refine Sublist.append ?_ (Sublist.refl _)
    split
    · exact Sublist.refl _
    · exact nil_sublist _
  exact ⟨fun x hx => (h.drawn _).from_regs x (hsub.subset hx), (hsub.map _).nodup (h.drawn _).once⟩

variable (h : mt.Serves wh S regs)

include h

/-- **The trie finds the registrations with a matching pattern.** -/
theorem Serves.mem_resolve (hs : NoEmptyTokens s) :
    (∀ x, x ∈ (mt.patternTrie.findMatches s).filterMap (mt.patternEntries[·]?) ↔
      ∃ r ∈ regs, r.entry = x ∧ ∃ f ∈ r.filters, hasWildcard f = true ∧ subjectMatches f s = true) := by
  intro x
  have hpatterns : ∀ p, p ∈ mt.patterns ↔ ∃ r ∈ regs, r.entry = p.2 ∧ p.1 ∈ r.filters ∧ hasWildcard p.1 = true := by
    intro p
    rw [h.patterns, mem_flatMap]
    constructor
    · rintro ⟨r, hr, hp⟩
      obtain ⟨f, hf, rfl⟩ := mem_map.1 hp
      obtain ⟨hf, hw⟩ := mem_filter.1 hf
      exact ⟨r, hr, rfl, hf, hw⟩
    · rintro ⟨r, hr, heq, hf, hw⟩
      exact ⟨r, hr, mem_map.2 ⟨p.1, mem_filter.2 ⟨hf, hw⟩, by rw [heq]⟩⟩
  have hclean : ∀ p ∈ mt.patterns.map Prod.fst, NoEmptyTokens p := by
    intro p hp
    obtain ⟨pe, hpe, rfl⟩ := mem_map.1 hp
    obtain ⟨r, hr, -, hf, -⟩ := (hpatterns pe).1 hpe
    exact (h.proper r hr _ hf).1
  rw [mem_filterMap]
  constructor
  · rintro ⟨i, hi, hx⟩
    obtain ⟨p, hp, hm⟩ := (h.trie.mem_findMatches hclean hs).1 hi
    rw [getElem?_map] at hp
    obtain ⟨pe, hpe, rfl⟩ := Option.map_eq_some_iff.1 hp
    rw [h.entries, getElem?_map, hpe] at hx
    obtain ⟨r, hr, heq, hf, hw⟩ := (hpatterns pe).1 (mem_of_getElem? hpe)
    exact ⟨r, hr, heq.trans (Option.some.inj hx), pe.1, hf, hw, hm⟩
  · rintro ⟨r, hr, rfl, f, hf, hw, hm⟩
    obtain ⟨i, hi⟩ := mem_iff_getElem?.1 ((hpatterns (f, r.entry)).2 ⟨r, hr, rfl, hf, hw⟩)
    refine ⟨i, (h.trie.mem_findMatches hclean hs).2 ⟨f, ?_, hm⟩, ?_⟩
    · rw [getElem?_map, hi]; rfl
    · rw [h.entries, getElem?_map, hi]; rfl

/-- **The exact bucket holds the registrations with the subject as a literal filter.** -/
theorem Serves.mem_exact (hinj : Set.InjOn wh S) (hs : NoEmptyTokens s) (hS : s ∈ S) (x : MatchEntry) :
    x ∈ (if mt.exactSubjects (wh s) = some s then mt.exact (wh s) else []) ↔
      ∃ r ∈ regs, r.entry = x ∧ ∃ f ∈ r.filters, hasWildcard f = false ∧ subjectMatches f s = true := by
  constructor
  · intro hx
    split at hx
    · rw [h.exact] at hx
      obtain ⟨r, hr, rfl⟩ := mem_map.1 hx
      obtain ⟨hr, hlit⟩ := mem_filter.1 hr
      obtain ⟨f, hf, hw, heq⟩ := literal_iff.1 hlit
      obtain ⟨hclean, hfS⟩ := h.proper r hr f hf
      exact ⟨r, hr, rfl, f, hf, hw, (subjectMatches_literal hclean hs hw).2 (hinj hfS hS heq)⟩
    · cases hx
  · rintro ⟨r, hr, rfl, f, hf, hw, hm⟩
    obtain rfl := (subjectMatches_literal (h.proper r hr f hf).1 hs hw).1 hm
    rw [if_pos ((h.opens _ f).2 ⟨r, hr, hf, hw, rfl⟩), h.exact]
    exact mem_map.2 ⟨r, mem_filter.2 ⟨hr, literal_iff.2 ⟨f, hf, hw, rfl⟩⟩, rfl⟩

/-- What the table says of a subject, exact and pattern entries merged. -/
def merged (wh : WireHash) (mt : MatchTable) (s : Bytes) : List MatchEntry :=
  (mt.resolvePatternsReadonly s []).foldl Arbitro.pushDedup (mt.lookupVerified (wh s) s)

/-- **The merged lookup finds the registrations that want the subject, each once.** -/
theorem Serves.merged (hinj : Set.InjOn wh S) (hs : NoEmptyTokens s) (hS : s ∈ S) : Drawn regs (mt.merged wh s) ∧
      ∀ x, x ∈ mt.merged wh s ↔ ∃ r ∈ regs, r.entry = x ∧ r.Wants s := by
  unfold MatchTable.merged
  have hfrom : ∀ x ∈ (mt.patternTrie.findMatches s).filterMap (mt.patternEntries[·]?),
      ∃ r ∈ regs, r.entry = x := by
    intro x hx
    obtain ⟨r, hr, heq, -⟩ := (h.mem_resolve hs x).1 hx
    exact ⟨r, hr, heq⟩
  have hnil : Drawn regs [] := ⟨nofun, nodup_nil⟩
  obtain ⟨hres, hresmem⟩ := hnil.foldl h.toLists _ hfrom
  rw [← resolvePatternsReadonly_eq] at hres hresmem
  obtain ⟨hall, hmem⟩ := (h.drawn_lookup s).foldl h.toLists _ hres.from_regs
  refine ⟨hall, fun x => ?_⟩
  rw [hmem, hresmem, h.mem_resolve hs]
  unfold lookupVerified
  rw [mem_append, h.mem_exact hinj hs hS, h.catchAll]
  constructor
  · rintro ((⟨r, hr, heq, f, hf, -, hm⟩ | hx) | hx | ⟨r, hr, heq, f, hf, -, hm⟩)
    · exact ⟨r, hr, heq, .inr ⟨f, hf, hm⟩⟩
    · obtain ⟨r, hr, rfl⟩ := mem_map.1 hx
      obtain ⟨hr, hempty⟩ := mem_filter.1 hr
      exact ⟨r, hr, rfl, .inl (isEmpty_iff.1 hempty)⟩
    · cases hx
    · exact ⟨r, hr, heq, .inr ⟨f, hf, hm⟩⟩
  · rintro ⟨r, hr, heq, hempty | ⟨f, hf, hm⟩⟩
    · exact .inl (.inr (mem_map.2 ⟨r, mem_filter.2 ⟨hr, isEmpty_iff.2 hempty⟩, heq⟩))
    · cases hw : hasWildcard f with
      | false => exact .inl (.inl ⟨r, hr, heq, f, hf, hw, hm⟩)
      | true => exact .inr (.inr ⟨r, hr, heq, f, hf, hw, hm⟩)

end MatchTable

end Arbitro
