import Arbitro.Lib.Tree
import Arbitro.Engine.Subject

/-!
# The pattern trie finds what `subject_matches` accepts

Both walk pattern and subject token by token. On byte strings without empty tokens
they agree.

* `subjectMatches_iff`, `subjectMatches_eq`: the loop of `subject_matches` as a recursion on the
  tokens of the pattern, and on two token lists.
* `SubjectTrie.held`: the ids at the end of a path of the trie. `insert` adds one
  (`Stores.insert`), `find_matches` reports those of the paths that match (`findFrom_eq`).
* `Stores.findMatches_perm`: a trie into which a list of patterns was inserted reports the
  ids of those that match, each as often as it was inserted.
-/

namespace Arbitro

open List Tree TrieNode

variable {s : Bytes} {p : Bytes} (ps : List Bytes)

/-! ## Tokens -/

/-- No two dots in a row, none at either end, and not the empty string. -/
def NoEmptyTokens (s : Bytes) : Prop := ∀ tok ∈ s.splitOn dotByte, tok ≠ []

instance (s : Bytes) : Decidable (NoEmptyTokens s) :=
  inferInstanceAs (Decidable (∀ tok ∈ s.splitOn dotByte, tok ≠ []))

theorem nextToken_cases : (nextToken s = (s, []) ∧ s.splitOn dotByte = [s]) ∨
      ∃ tok rest, s = tok ++ dotByte :: rest ∧ nextToken s = (tok, rest) ∧
        s.splitOn dotByte = tok :: rest.splitOn dotByte := by
  have hsplit : s.takeWhile (· != dotByte) ++ s.dropWhile (· != dotByte) = s := takeWhile_append_dropWhile
  have htok : ∀ x ∈ s.takeWhile (· != dotByte), (x == dotByte) = false := by
    intro x hx
    simpa using all_eq_true.1 (all_takeWhile (p := (· != dotByte)) (l := s)) x hx
  cases hdrop : s.dropWhile (· != dotByte) with
  | nil =>
    left
    rw [hdrop, append_nil] at hsplit
    refine ⟨by unfold nextToken; rw [hdrop, hsplit]; rfl, ?_⟩
    rw [hsplit] at htok
    exact splitOnP_eq_singleton htok
  | cons d rest =>
    right
    have hdot : d = dotByte := by
      have hhead := head_dropWhile_not (· != dotByte) (l := s) (by rw [hdrop]; exact cons_ne_nil d rest)
      simpa [hdrop] using hhead
    rw [hdrop, hdot] at hsplit
    refine ⟨s.takeWhile (· != dotByte), rest, hsplit.symm, by unfold nextToken; rw [hdrop]; rfl, ?_⟩
    conv_lhs => rw [← hsplit]
    exact splitOnP_append_cons_of_forall_mem htok dotByte (by simp) rest

/-- The token and the rest together are shorter, so the loops come to an end. -/
theorem nextToken_length (h : s ≠ []) : (nextToken s).2.length < s.length := by
  rcases nextToken_cases with ⟨hn, -⟩ | ⟨tok, rest, hs, hn, -⟩
  · rw [hn]
    exact length_pos_of_ne_nil h
  rw [hn]
  have hlen := congrArg length hs
  simp only [length_append, length_cons] at hlen
  show rest.length < s.length
  omega

/-- The tokens of a byte string, as the loops take them off. -/
def tokens (s : Bytes) : List Bytes :=
  if _hs : s = [] then [] else (nextToken s).1 :: tokens (nextToken s).2
termination_by s.length
decreasing_by exact nextToken_length ‹_›

@[simp] theorem tokens_nil : tokens [] = [] := by rw [tokens]; rfl

theorem tokens_of_ne_nil (h : s ≠ []) : tokens s = (nextToken s).1 :: tokens (nextToken s).2 := by
  rw [tokens, dif_neg h]

/-- What is left of a byte string without empty tokens once the loop has taken some off. -/
def Clean (s : Bytes) : Prop := s = [] ∨ NoEmptyTokens s

theorem NoEmptyTokens.ne_nil (h : NoEmptyTokens s) : s ≠ [] := by
  rintro rfl
  exact h [] (by decide) rfl

theorem NoEmptyTokens.nextToken (h : NoEmptyTokens s) : (nextToken s).1 ≠ [] ∧ Clean (nextToken s).2 := by
  rcases nextToken_cases with ⟨hn, -⟩ | ⟨tok, rest, -, hn, hs⟩
  · rw [hn]
    exact ⟨h.ne_nil, .inl rfl⟩
  · rw [hn]
    unfold NoEmptyTokens at h
    rw [hs] at h
    exact ⟨h tok mem_cons_self, .inr fun t ht => h t (mem_cons_of_mem _ ht)⟩

theorem Clean.cases (h : Clean s) : s = [] ∨ (nextToken s).1 ≠ [] ∧ Clean (nextToken s).2 ∧
    tokens s = (nextToken s).1 :: tokens (nextToken s).2 ∧ (nextToken s).2.length < s.length :=
  h.imp_right fun h =>
    ⟨h.nextToken.1, h.nextToken.2, tokens_of_ne_nil h.ne_nil, nextToken_length h.ne_nil⟩

theorem tokens_eq_splitOn (hs : NoEmptyTokens s) : tokens s = s.splitOn dotByte := by
  fun_induction tokens s with
  | case1 => exact absurd rfl hs.ne_nil
  | case2 s _ ih =>
    rcases nextToken_cases with ⟨hnext, hsplit⟩ | ⟨tok, rest, -, hnext, hsplit⟩
    · rw [hnext, hsplit, tokens_nil]
    · rw [hnext] at ih ⊢
      rw [hsplit, ih fun t ht => hs t (by rw [hsplit]; exact mem_cons_of_mem _ ht)]

theorem mem_tokens {t : Bytes} (ht : t ∈ tokens s) : t.Sublist s ∧ dotByte ∉ t := by
  fun_induction tokens s with
  | case1 => cases ht
  | case2 s _ ih =>
    rcases mem_cons.1 ht with rfl | ht
    · refine ⟨takeWhile_sublist _, fun hdot => ?_⟩
      simpa using all_eq_true.1 (all_takeWhile (p := (· != dotByte)) (l := s)) dotByte hdot
    · exact ⟨(ih ht).1.trans ((tail_sublist _).trans (dropWhile_sublist _)), (ih ht).2⟩

theorem noEmptyTokens_of_validatePatternFrom {n : ℕ} {p : Bytes} (hn : p.length ≤ n) (hp : p ≠ [])
    (hlast : p.getLast? ≠ some dotByte) (hok : validatePatternFrom n p = .ok ()) : NoEmptyTokens p := by
  induction n generalizing p with
  | zero => exact absurd (eq_nil_of_length_eq_zero (by omega)) hp
  | succ n ih =>
    simp only [validatePatternFrom, List.isEmpty_iff, hp, if_false] at hok
    split at hok
    · cases hok
    next htok =>
    split at hok
    · cases hok
    unfold NoEmptyTokens
    rcases nextToken_cases with ⟨hnext, hsplit⟩ | ⟨tok, rest, hcat, hnext, hsplit⟩
    · rw [hsplit]
      exact fun t ht => by rw [mem_singleton.1 ht]; exact hp
    rw [hnext] at hok htok
    have hrest : rest ≠ [] := by
      rintro rfl
      exact hlast (by rw [hcat]; simp)
    have hlen := congrArg length hcat
    rw [length_append, length_cons] at hlen
    have hclean := ih (by omega) hrest (fun h => hlast (by rw [hcat]; simp [getLast?_cons, h])) hok
    rw [hsplit]
    exact fun t ht => (mem_cons.1 ht).elim (fun h => by rw [h]; exact htok) (hclean t)

theorem noEmptyTokens_of_validatePattern (h : validatePattern p = .ok ()) : NoEmptyTokens p := by
  unfold validatePattern at h
  split at h
  · cases h
  next hnil =>
  split at h
  · cases h
  next hdots =>
  rw [not_or] at hdots
  exact noEmptyTokens_of_validatePatternFrom le_rfl (by simpa using hnil) hdots.2 h

/-! ## `subject_matches` on tokens -/

/-- Matching, as a recursion on two token lists. -/
def matchTokens : List Bytes → List Bytes → Bool
  | [], [] => true
  | p :: ps, s :: ss =>
    if p = [gtByte] then true else if p = [starByte] then matchTokens ps ss else p == s && matchTokens ps ss
  | _, _ => false

/-- The pattern tokens take a subject token by token. A `>` does not look at the rest. -/
def Takes : List Bytes → Bytes → Prop
  | [], s => nextToken s = ([], [])
  | p :: ps, s =>
    (nextToken s).1 ≠ [] ∧ (p = [gtByte] ∨ (p = [starByte] ∨ p = (nextToken s).1) ∧ Takes ps (nextToken s).2)

theorem subjectMatchesFrom_iff {fuel : ℕ} {p s : Bytes} (hf : p.length < fuel) (hp : Clean p) :
    (subjectMatchesFrom fuel p s = true ↔ Takes (tokens p) s) := by
  induction fuel generalizing p s with
  | zero => omega
  | succ fuel ih =>
    unfold subjectMatchesFrom
    rcases hp.cases with rfl | ⟨hpt, hrest, hp, hlt⟩
    · have hnil : nextToken [] = ([], []) := rfl
      by_cases hs : (nextToken s).1 = []
      · simp [hnil, Takes, Prod.ext_iff, hs]
      · simp [hnil, Takes, Prod.ext_iff, hs, Ne.symm hs]
    have hrec := ih (s := (nextToken s).2) (by omega) hrest
    rw [hp, Takes]
    by_cases hs : (nextToken s).1 = []
    · simp [hs, hpt]
    by_cases hgt : (nextToken p).1 = [gtByte]
    · simp [hgt, hs]
    by_cases hstar : (nextToken p).1 = [starByte]
    · simp [hstar, hs, hrec, gtByte, starByte]
    · by_cases heq : (nextToken p).1 = (nextToken s).1 <;> simp_all

/-- **`subject_matches` takes the subject token by token.** -/
theorem subjectMatches_iff (hp : NoEmptyTokens p) : subjectMatches p s = true ↔ Takes (tokens p) s :=
  subjectMatchesFrom_iff (by omega) (.inr hp)

theorem takes_iff : ∀ {s}, Clean s → (Takes ps s ↔ matchTokens ps (tokens s) = true) := by
  induction ps with
  | nil =>
    intro s hs
    rcases hs.cases with rfl | ⟨hst, -, hs, -⟩
    · simp [Takes, matchTokens, nextToken]
    · simp [Takes, hs, matchTokens, Prod.ext_iff, hst]
  | cons p ps ih =>
    intro s hs
    rcases hs.cases with rfl | ⟨hst, hrest, hs, -⟩
    · simp [Takes, matchTokens, nextToken]
    · rw [hs, Takes, matchTokens, ih hrest]
      by_cases hgt : p = [gtByte] <;> by_cases hstar : p = [starByte] <;> simp [hgt, hstar, hst]

theorem subjectMatches_eq (hp : NoEmptyTokens p) (hs : NoEmptyTokens s) :
    subjectMatches p s = matchTokens (tokens p) (tokens s) :=
  Bool.eq_iff_iff.2 ((subjectMatches_iff hp).trans (takes_iff _ (.inr hs)))

/-! ## Literal filters -/

theorem matchTokens_literal : ∀ ss, [gtByte] ∉ ps → [starByte] ∉ ps → (matchTokens ps ss = true ↔ ps = ss) := by
  induction ps with
  | nil => intro ss _ _; cases ss <;> simp [matchTokens]
  | cons p ps ih =>
    intro ss hgt hstar
    simp only [mem_cons, not_or] at hgt hstar
    cases ss with
    | nil => simp [matchTokens]
    | cons s ss => simp [matchTokens, Ne.symm hgt.1, Ne.symm hstar.1, ih ss hgt.2 hstar.2]

/-- **A literal filter matches its own subject and no other.** -/
theorem subjectMatches_literal (hp : NoEmptyTokens p) (hs : NoEmptyTokens s)
    (hw : hasWildcard p = false) : subjectMatches p s = true ↔ p = s := by
  unfold hasWildcard at hw
  simp only [Bool.or_eq_false_iff, contains_eq_mem, decide_eq_false_iff_not] at hw
  have hgt : [gtByte] ∉ tokens p := fun h => hw.2 ((mem_tokens h).1.mem (mem_singleton_self _))
  have hstar : [starByte] ∉ tokens p := fun h => hw.1 ((mem_tokens h).1.mem (mem_singleton_self _))
  rw [subjectMatches_eq hp hs, matchTokens_literal _ _ hgt hstar, tokens_eq_splitOn hp, tokens_eq_splitOn hs]
  exact ⟨fun h => (intercalate_splitOn dotByte).symm.trans ((congrArg _ h).trans (intercalate_splitOn dotByte)),
    congrArg _⟩

/-! ## Paths of the trie -/

/-- The label of an edge: a literal token, or `none` for `*`. -/
abbrev Label := Option Bytes

/-- The path a pattern takes: its labels, and whether it ends in `>`. Nothing after a `>`
is read. -/
def patternPath : List Bytes → List Label × Bool
  | [] => ([], false)
  | p :: ps =>
    if p = [gtByte] then ([], true)
    else ((if p = [starByte] then none else some p) :: (patternPath ps).1, (patternPath ps).2)

/-- The paths that match a list of tokens, in the order `find_matches` visits them. -/
def matchingPaths : List Bytes → List (List Label × Bool)
  | [] => [([], false)]
  | s :: ss => ([], true) :: (matchingPaths ss).map (fun q => (none :: q.1, q.2)) ++
      (matchingPaths ss).map fun q => (some s :: q.1, q.2)

theorem nodup_matchingPaths {ss : List Bytes} : (matchingPaths ss).Nodup := by
  induction ss with
  | nil => exact nodup_singleton _
  | cons s ss ih =>
    have hmap : ∀ l : Label, ((matchingPaths ss).map fun q => (l :: q.1, q.2)).Nodup := fun l =>
      ih.map fun q q' h => by simpa [Prod.ext_iff] using h
    rw [matchingPaths, cons_append, nodup_cons, nodup_append]
    refine ⟨by simp, hmap none, hmap (some s), ?_⟩
    rintro x hx y hy rfl
    obtain ⟨q, -, rfl⟩ := mem_map.1 hx
    obtain ⟨q', -, heq⟩ := mem_map.1 hy
    simp at heq

theorem mem_matchingPaths : ∀ ss, patternPath ps ∈ matchingPaths ss ↔ matchTokens ps ss = true := by
  induction ps with
  | nil => intro ss; cases ss <;> simp [patternPath, matchingPaths, matchTokens]
  | cons p ps ih =>
    intro ss
    by_cases hgt : p = [gtByte]
    · cases ss <;> simp [patternPath, matchingPaths, matchTokens, hgt]
    cases ss with
    | nil => simp [patternPath, matchingPaths, matchTokens, hgt]
    | cons s ss =>
      by_cases hstar : p = [starByte]
      · have hne : ([starByte] : Bytes) ≠ [gtByte] := by decide
        simp [patternPath, matchingPaths, matchTokens, hstar, hne, ← ih]
      · simp only [patternPath, if_neg hgt, if_neg hstar, matchingPaths, matchTokens, Bool.and_eq_true, beq_iff_eq, ← ih]
        rw [and_comm, eq_comm]
        simp

/-- The child of a node under a label. -/
def TrieNode.child (n : TrieNode) : Label → Option ℕ
  | none => n.wildcardStar
  | some w => (n.literals.find? (·.1 == w)).map Prod.snd

namespace SubjectTrie

variable {t t' : SubjectTrie} {l : Label} {id curr : ℕ} {f : TrieNode → TrieNode} {ls : List Label} {ps} {gt : Bool}
  {sub : Bytes} {i : ℕ}

/-- The edges of the arena. -/
def edge (t : SubjectTrie) (i : ℕ) (l : Label) : Option ℕ := (t.node i).child l

/-- The ids a node keeps for patterns that end there, with or without `>`. -/
def ids (t : SubjectTrie) (i : ℕ) (gt : Bool) : List ℕ := if gt then (t.node i).wildcardGt else (t.node i).subs

/-- The arena is a tree. -/
def IsTree (t : SubjectTrie) : Prop := Tree.Grown t.edge t.nodes.length

/-- The ids stored at the end of a path from a node. -/
def heldFrom (t : SubjectTrie) (i : ℕ) (path : List Label × Bool) : List ℕ :=
  ((Tree.walk t.edge i path.1).map (t.ids · path.2)).getD []

/-- The ids stored at the end of a path from the root. -/
def held (t : SubjectTrie) : List Label × Bool → List ℕ := t.heldFrom 0

theorem held_of_walk {j : ℕ} (h : walk t.edge 0 ls = some j) : t.held (ls, gt) = t.ids j gt := by
  simp [held, heldFrom, h]

theorem held_of_none (h : walk t.edge 0 ls = none) : t.held (ls, gt) = [] := by
  simp [held, heldFrom, h]

/-! ## Finding -/

/-- What `find_matches` reports through the edge with a label. -/
def findVia (t : SubjectTrie) (fuel i : ℕ) (rest : Bytes) (l : Label) : List ℕ :=
  match t.edge i l with
  | some j => t.findFrom fuel j rest
  | none => []

theorem findFrom_succ {fuel i : ℕ} (h : sub ≠ []) :
    t.findFrom (fuel + 1) i sub = (t.node i).wildcardGt ++ t.findVia fuel i (nextToken sub).2 none ++
      t.findVia fuel i (nextToken sub).2 (some (nextToken sub).1) := by
  simp only [findFrom, List.isEmpty_iff, h, if_false, findVia, edge, child]
  cases (t.node i).wildcardStar <;> cases (t.node i).literals.find? (·.1 == (nextToken sub).1) <;> rfl

/-- **`find_matches` reports the ids of the matching paths.** -/
theorem findFrom_eq {fuel : ℕ} (hf : sub.length ≤ fuel) :
    t.findFrom fuel i sub = (matchingPaths (tokens sub)).flatMap (t.heldFrom i) := by
  induction fuel generalizing i sub with
  | zero =>
    have hnil : sub = [] := eq_nil_of_length_eq_zero (by omega)
    subst hnil
    simp [findFrom, matchingPaths, heldFrom, walk, ids]
  | succ fuel ih =>
    by_cases hsub : sub = []
    · subst hsub
      simp [findFrom, matchingPaths, heldFrom, walk, ids]
    have hlt := nextToken_length hsub
    have hvia : ∀ l, t.findVia fuel i (nextToken sub).2 l =
        (matchingPaths (tokens (nextToken sub).2)).flatMap fun q => t.heldFrom i (l :: q.1, q.2) := by
      intro l
      unfold findVia heldFrom
      cases he : t.edge i l with
      | none => simp [walk, he]
      | some j =>
        simp only [walk, he, Option.bind_some]
        exact ih (by omega)
    rw [tokens_of_ne_nil hsub, findFrom_succ hsub, hvia, hvia, matchingPaths, cons_append, flatMap_cons,
      flatMap_append, flatMap_map, flatMap_map, append_assoc]
    rfl

/-! ## Inserting -/

theorem node_modifyNode (hi : i < t.nodes.length) (j : ℕ) :
    (t.modifyNode i f).node j = if j = i then f (t.node i) else t.node j := by
  unfold node modifyNode
  by_cases hj : j = i
  · subst hj
    simp [getElem?_eq_getElem hi]
  · simp [hj, Ne.symm hj]

theorem node_push {j : ℕ} : t.push.1.node j = t.node j := by
  unfold node push
  simp only [getD_eq_getElem?_getD, getElem?_append]
  split
  · rfl
  next hj =>
  rw [getElem?_eq_none (Nat.le_of_not_lt hj)]
  cases hk : j - t.nodes.length with
  | zero => simp
  | succ k => simp

theorem length_modifyNode : (t.modifyNode i f).nodes.length = t.nodes.length := by
  exact length_modify _ _ _

theorem node_length : t.node t.nodes.length = empty := by
  unfold node
  simp

/-- A step of `insert` down a label: the child, where there is none yet a new leaf. -/
structure Descends (t t' : SubjectTrie) (curr : ℕ) (l : Label) (next : ℕ) : Prop where
  tree : t'.IsTree
  edge : t'.edge curr l = some next
  walks : ∀ ls j, Tree.walk t.edge 0 ls = some j → Tree.walk t'.edge 0 ls = some j
  held : ∀ path, t'.held path = t.held path

theorem Descends.stay (h : t.IsTree) {next : ℕ} (he : t.edge curr l = some next) : Descends t t curr l next :=
  ⟨h, he, fun _ _ hw => hw, fun _ => rfl⟩

theorem Descends.grow (h : t.IsTree) (hcurr : curr < t.nodes.length)
    (hlen : t'.nodes.length = t.nodes.length + 1) (hleaf : Leaf t.edge t'.edge curr l t.nodes.length)
    (hids : ∀ i gt, t'.ids i gt = t.ids i gt) : Descends t t' curr l t.nodes.length := by
  have hnew : ∀ gt, t.ids t.nodes.length gt = [] := by
    intro gt
    unfold ids
    rw [node_length]
    cases gt <;> rfl
  refine ⟨?_, (hleaf.2 curr l _).2 (.inr ⟨rfl, rfl, rfl⟩), fun ls j => walk_leaf hleaf ls, ?_⟩
  · unfold IsTree
    rw [hlen]
    exact Grown.grow h hcurr hleaf
  rintro ⟨ls, gt⟩
  cases hw : walk t.edge 0 ls with
  | some j => rw [held_of_walk hw, held_of_walk (walk_leaf hleaf ls hw), hids]
  | none =>
    rw [held_of_none hw]
    cases hw' : walk t'.edge 0 ls with
    | none => exact held_of_none hw'
    | some j =>
      rw [held_of_walk hw', hids]
      -- a new path leads to the new leaf, which holds nothing
      by_cases hj : j = t.nodes.length
      · rw [hj, hnew]
      · rw [(Grown.walk_leaf_iff h hleaf ls h.root hj).1 hw'] at hw
        cases hw

/-- Pushing an empty node and pointing an unused label of `curr` at it. -/
theorem Descends.push (h : t.IsTree) (hcurr : curr < t.nodes.length) (hnone : (t.node curr).child l = none)
    (hchild : ∀ q, (f (t.node curr)).child q = if q = l then some t.nodes.length else (t.node curr).child q)
    (hgt : (f (t.node curr)).wildcardGt = (t.node curr).wildcardGt)
    (hsubs : (f (t.node curr)).subs = (t.node curr).subs) :
    Descends t (t.push.1.modifyNode curr f) curr l t.nodes.length := by
  have hlen : t.push.1.nodes.length = t.nodes.length + 1 := length_append
  have hnode : ∀ j, (t.push.1.modifyNode curr f).node j = if j = curr then f (t.node curr) else t.node j := by
    intro j
    rw [node_modifyNode (by omega), node_push, node_push]
  apply Descends.grow h hcurr
  · rw [length_modifyNode, hlen]
  · refine ⟨hnone, fun k q j => ?_⟩
    unfold SubjectTrie.edge
    rw [hnode]
    by_cases hk : k = curr
    · subst hk
      rw [if_pos rfl, hchild]
      by_cases hq : q = l
      · subst hq
        simp [hnone, eq_comm]
      · simp [hq]
    · simp [hk]
  · intro i gt
    unfold ids
    rw [hnode]
    by_cases hi : i = curr
    · subst hi
      rw [if_pos rfl, hgt, hsubs]
    · rw [if_neg hi]

theorem descends_starChild (h : t.IsTree) (hcurr : curr < t.nodes.length) :
    Descends t (t.starChild curr).1 curr none (t.starChild curr).2 := by
  unfold starChild
  cases hs : (t.node curr).wildcardStar with
  | some idx => exact Descends.stay h hs
  | none =>
    refine Descends.push h hcurr hs (fun q => ?_) rfl rfl
    cases q <;> simp [child, SubjectTrie.push]

theorem descends_literalChild (h : t.IsTree) (hcurr : curr < t.nodes.length) {w : Bytes} :
    Descends t (t.literalChild curr w).1 curr (some w) (t.literalChild curr w).2 := by
  unfold literalChild
  cases hs : (t.node curr).literals.find? (·.1 == w) with
  | some e =>
    refine Descends.stay h ?_
    simp [edge, child, hs]
  | none =>
    refine Descends.push h hcurr (by simp [child, hs]) (fun q => ?_) rfl rfl
    cases q with
    | none => simp [child]
    | some v =>
      by_cases hv : v = w
      · subst hv
        simp [child, find?_append, hs, SubjectTrie.push]
      · simp [child, find?_append, hv, Ne.symm hv]

/-- Storing an id at the end of a path adds it to that path and to no other. -/
theorem held_store (h : t.IsTree)
    (hcurr : walk t.edge 0 ls = some curr) (hchild : (f (t.node curr)).child = (t.node curr).child)
    (hsubs : (f (t.node curr)).subs = (t.node curr).subs ++ if gt then [] else [id])
    (hgt : (f (t.node curr)).wildcardGt = (t.node curr).wildcardGt ++ if gt then [id] else []) :
    (t.modifyNode curr f).IsTree ∧
      ∀ path, (t.modifyNode curr f).held path = t.held path ++ if path = (ls, gt) then [id] else [] := by
  have hlt : curr < t.nodes.length := Grown.walk_lt h ls h.root hcurr
  have hnode := fun j => node_modifyNode (f := f) hlt j
  have hedge : (t.modifyNode curr f).edge = t.edge := by
    funext j l
    unfold edge
    rw [hnode]
    split
    · next hj => rw [hchild, hj]
    · rfl
  have hids : ∀ j g, (t.modifyNode curr f).ids j g = t.ids j g ++ if j = curr ∧ g = gt then [id] else [] := by
    intro j g
    unfold ids
    rw [hnode]
    by_cases hj : j = curr
    · subst hj
      rw [if_pos rfl, hsubs, hgt]
      cases g <;> cases gt <;> simp
    · simp [hj]
  refine ⟨?_, ?_⟩
  · unfold IsTree
    rw [hedge, length_modifyNode]
    exact h
  rintro ⟨qs, g⟩
  cases hw : walk t.edge 0 qs with
  | none =>
    have hne : qs ≠ ls := by
      rintro rfl
      rw [hcurr] at hw
      cases hw
    rw [held_of_none hw, held_of_none (by rw [hedge]; exact hw)]
    simp [hne]
  | some j =>
    -- only one path leads to the node
    have hone : j = curr ↔ qs = ls := by
      constructor
      · rintro rfl
        exact Grown.walk_inj h hw hcurr
      · rintro rfl
        exact Option.some.inj (hw.symm.trans hcurr)
    rw [held_of_walk hw, held_of_walk (by rw [hedge]; exact hw), hids]
    simp [hone]

theorem held_insertFrom {fuel : ℕ} {curr : ℕ} {ls : List Label} {p : Bytes}
    (hf : p.length ≤ fuel) (h : t.IsTree) (hcurr : walk t.edge 0 ls = some curr) :
    (insertFrom id fuel t curr p).IsTree ∧ ∀ path, (insertFrom id fuel t curr p).held path = t.held path ++ if path =
    (ls ++ (patternPath (tokens p)).1, (patternPath (tokens p)).2) then [id] else [] := by
  induction fuel generalizing t curr ls p with
  | zero =>
    have hnil : p = [] := eq_nil_of_length_eq_zero (by omega)
    subst hnil
    simp only [tokens_nil, patternPath, append_nil]
    exact held_store h hcurr rfl rfl (append_nil _).symm
  | succ fuel ih =>
    unfold insertFrom
    by_cases hp : p = []
    · subst hp
      simp only [tokens_nil, patternPath, append_nil]
      exact held_store h hcurr rfl rfl (append_nil _).symm
    simp only [List.isEmpty_iff, hp, if_false]
    have hlt := nextToken_length hp
    have hlen : curr < t.nodes.length := Grown.walk_lt h ls h.root hcurr
    rw [tokens_of_ne_nil hp, patternPath]
    -- one turn of the loop: go down the label, then insert the rest of the pattern from there
    have hturn : ∀ {t' : SubjectTrie} {l : Label} {next : ℕ}, Descends t t' curr l next →
        (insertFrom id fuel t' next (nextToken p).2).IsTree ∧
          ∀ path, (insertFrom id fuel t' next (nextToken p).2).held path = t.held path ++
            if path = (ls ++ l :: (patternPath (tokens (nextToken p).2)).1,
              (patternPath (tokens (nextToken p).2)).2) then [id] else [] := by
      intro t' l next hd
      have hnext : walk t'.edge 0 (ls ++ [l]) = some next := walk_snoc.2 ⟨curr, hd.walks ls curr hcurr, hd.edge⟩
      obtain ⟨htree, hheld⟩ := ih (p := (nextToken p).2) (by omega) hd.tree hnext
      refine ⟨htree, fun path => ?_⟩
      rw [hheld, hd.held, append_assoc]
      rfl
    by_cases hgt : (nextToken p).1 = [gtByte]
    · simp only [hgt, if_true, append_nil]
      exact held_store h hcurr rfl (List.append_nil _).symm rfl
    by_cases hstar : (nextToken p).1 = [starByte]
    · have hne : ([starByte] : Bytes) ≠ [gtByte] := by decide
      simp only [hstar, if_true, hne, if_false]
      exact hturn (descends_starChild h hlen)
    · simp only [hgt, if_false, hstar]
      exact hturn (descends_literalChild h hlen)

/-! ## Tries of pattern lists -/

/-- The trie holds the patterns of a list under their ids, and nothing else. -/
structure Stores (t : SubjectTrie) (l : List (Bytes × ℕ)) : Prop where
  tree : t.IsTree
  held : ∀ path, t.held path = (l.filter fun e => patternPath (tokens e.1) = path).map Prod.snd

theorem stores_nil : Stores {} [] where
  tree := by
    have hnone : ∀ i l, ({} : SubjectTrie).edge i l = none := by
      intro i l
      cases i <;> cases l <;> rfl
    exact ⟨Nat.one_pos, by simp [hnone], by simp [hnone]⟩
  held := by
    rintro ⟨ls, gt⟩
    cases hw : walk ({} : SubjectTrie).edge 0 ls with
    | none => exact held_of_none hw
    | some j =>
      rw [held_of_walk hw]
      cases j <;> cases gt <;> rfl

variable {l : List (Bytes × ℕ)}

theorem Stores.insert (h : Stores t l) (p : Bytes) (id : ℕ) : Stores (t.insert p id) (l ++ [(p, id)]) := by
  have hroot : walk t.edge 0 [] = some 0 := rfl
  obtain ⟨htree, hheld⟩ := held_insertFrom (p := p) le_rfl h.tree hroot
  refine ⟨htree, fun path => ?_⟩
  unfold SubjectTrie.insert
  rw [hheld, h.held, filter_append, map_append, nil_append]
  by_cases hp : path = patternPath (tokens p)
  · simp [hp]
  · simp [hp, Ne.symm hp]

theorem Stores.foldl (more : List (Bytes × ℕ)) (h : Stores t l) :
    Stores (more.foldl (fun t e => t.insert e.1 e.2) t) (l ++ more) := by
  induction more generalizing l t with
  | nil => rw [append_nil]; exact h
  | cons e more ih =>
    have hmore := ih (h.insert e.1 e.2)
    rw [append_assoc] at hmore
    exact hmore

/-- Sorting by key, for keys without repetition. -/
theorem flatMap_filter_perm {α β γ : Type*} [DecidableEq β] (f : α → β) {g : α → γ} (l : List α) {qs : List β}
    (hn : qs.Nodup) : (qs.flatMap fun q => (l.filter fun e => f e = q).map g).Perm
    ((l.filter fun e => f e ∈ qs).map g) := by
  induction qs with
  | nil => simp
  | cons q qs ih =>
    obtain ⟨hq, hqs⟩ := nodup_cons.1 hn
    refine ((ih hqs).append_left _).trans ?_
    rw [← map_append]
    refine Perm.map g ?_
    have hsplit := filter_append_perm (fun e => decide (f e = q)) (l.filter fun e => f e ∈ q :: qs)
    rw [filter_filter, filter_filter] at hsplit
    convert hsplit using 2
    · exact filter_congr fun e _ => by simp +contextual
    · refine filter_congr fun e _ => ?_
      by_cases he : f e = q <;> simp [he, hq]

/-- **`find_matches` reports the ids of the patterns that match, as often as they were inserted.** -/
theorem Stores.findMatches_perm (h : Stores t l) (hl : ∀ e ∈ l, NoEmptyTokens e.1)
    (hs : NoEmptyTokens s) : (t.findMatches s).Perm ((l.filter fun e => subjectMatches e.1 s).map Prod.snd) := by
  have hfind : t.findMatches s =
      (matchingPaths (tokens s)).flatMap fun q => (l.filter fun e => patternPath (tokens e.1) = q).map Prod.snd := by
    rw [findMatches, findFrom_eq le_rfl]
    exact congrArg (flatMap · _) (funext h.held)
  rw [hfind]
  refine (flatMap_filter_perm _ l nodup_matchingPaths).trans (Perm.of_eq (congrArg (List.map _) ?_))
  refine filter_congr fun e he => ?_
  rw [subjectMatches_eq (hl e he) hs]
  simp [mem_matchingPaths]

theorem findMatches_exact (l : List (Bytes × ℕ)) (hl : ∀ e ∈ l, validatePattern e.1 = .ok ()) {s : Bytes}
    (hs : NoEmptyTokens s) : ((l.foldl (fun t e => t.insert e.1 e.2) {} : SubjectTrie).findMatches s).Perm
      ((l.filter fun e => subjectMatches e.1 s).map Prod.snd) :=
  (stores_nil.foldl l).findMatches_perm (fun e he => noEmptyTokens_of_validatePattern (hl e he)) hs

/-- Patterns `a.*` (twice), `a.>` and `b`, and subject `a.b`. -/
theorem findMatches_example :
    (([([97, 46, 42], 1), ([97, 46, 62], 2), ([98], 3), ([97, 46, 42], 1)].foldl (fun t e => t.insert e.1 e.2)
      {} : SubjectTrie).findMatches [97, 46, 98]).Perm [1, 2, 1] :=
  findMatches_exact [([97, 46, 42], 1), ([97, 46, 62], 2), ([98], 3), ([97, 46, 42], 1)] (by decide) (by decide)

/-- The trie holds the patterns of a list under their positions, and nothing else. -/
def Indexes (t : SubjectTrie) (ps : List Bytes) : Prop := Stores t ps.zipIdx

theorem Indexes.insert (h : Indexes t ps) (p : Bytes) : Indexes (t.insert p ps.length) (ps ++ [p]) := by
  unfold Indexes
  rw [zipIdx_append]
  simpa using Stores.insert h p ps.length

/-- **A trie finds the positions of the matching patterns.** -/
theorem Indexes.mem_findMatches (h : Indexes t ps) (hps : ∀ p ∈ ps, NoEmptyTokens p) (hs : NoEmptyTokens s) :
    id ∈ t.findMatches s ↔ ∃ p, ps[id]? = some p ∧ subjectMatches p s = true := by
  have hclean : ∀ e ∈ ps.zipIdx, NoEmptyTokens e.1 := fun e he =>
    hps e.1 (mem_of_getElem? (mem_zipIdx_iff_getElem?.1 he))
  rw [(Stores.findMatches_perm h hclean hs).mem_iff]
  simp [mem_zipIdx_iff_getElem?, and_comm]

end SubjectTrie

end Arbitro
