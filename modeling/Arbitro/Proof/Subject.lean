import Arbitro.Proof.Trie
import Arbitro.Server.Rules

/-!
# Covering and overlapping patterns

* `subjectMatches_of_covers`: what a pattern matches, a pattern that covers it matches too.
* `subjectsOverlap_of_matches`: two patterns that match one subject overlap.
* `subjectCovers_of_matches`: a pattern that matches all that another one matches covers it.
* `exists_of_overlap`: two patterns that overlap match one subject.
* `covers_and_overlap_exact`: both tests are exact on valid patterns.
* `validateSubject_agrees`: what the checks of the protocol and of the engine have in common.

All of it is about patterns without empty tokens. In the first two the subject is any byte string.
-/

namespace Arbitro

open List

variable {s : Bytes} (as : List Bytes) {n : Bytes} (fuel : ℕ)

theorem tokens_intercalate {ts : List Bytes} (hne : ts ≠ []) (htok : ∀ t ∈ ts, t ≠ [] ∧ dotByte ∉ t) :
    NoEmptyTokens ([dotByte].intercalate ts) ∧ tokens ([dotByte].intercalate ts) = ts := by
  have hsplit : ([dotByte].intercalate ts).splitOn dotByte = ts :=
    splitOn_intercalate dotByte (fun t ht => (htok t ht).2) hne
  have hclean : NoEmptyTokens ([dotByte].intercalate ts) := by
    unfold NoEmptyTokens
    rw [hsplit]
    exact fun t ht => (htok t ht).1
  exact ⟨hclean, (tokens_eq_splitOn hclean).trans hsplit⟩

/-- Covering, as a recursion on two token lists. -/
def coverTokens : List Bytes → List Bytes → Bool
  | [], [] => true
  | w :: ws, n :: ns =>
    if w = [gtByte] then true
    else if n = [gtByte] then false
    else if w = [starByte] then coverTokens ws ns else w == n && coverTokens ws ns
  | _, _ => false

theorem subjectCoversFrom_eq {w n : Bytes} (hf : w.length < fuel) (hw : Clean w) (hn : Clean n) :
    subjectCoversFrom fuel w n = coverTokens (tokens w) (tokens n) := by
  induction fuel generalizing w n with
  | zero => omega
  | succ fuel ih =>
    have hnil : nextToken [] = ([], []) := rfl
    unfold subjectCoversFrom
    rcases hw.cases with rfl | ⟨hwt, hwrest, hw, hlt⟩ <;> rcases hn.cases with rfl | ⟨hnt, hnrest, hn, -⟩
    · simp [hnil, coverTokens]
    · simp [hnil, hn, coverTokens, hnt, Ne.symm hnt]
    · simp [hnil, hw, coverTokens, hwt]
    have hrec := ih (by omega) hwrest hnrest
    rw [hw, hn, coverTokens]
    by_cases hgt : (nextToken w).1 = [gtByte]
    · simp [hgt, hnt]
    by_cases hngt : (nextToken n).1 = [gtByte]
    · simp [hgt, hngt]
    by_cases hstar : (nextToken w).1 = [starByte]
    · simp [hngt, hstar, hnt, hrec]
    by_cases heq : (nextToken w).1 = (nextToken n).1
    · rw [heq] at hgt hstar
      simp [hgt, hstar, heq, hnt, hrec]
    · simp [hgt, hngt, hstar, heq, hwt]

theorem Takes.of_covers (ws : List Bytes) {ns : List Bytes} (hc : coverTokens ws ns = true)
    (h : Takes ns s) : Takes ws s := by
  induction ws generalizing ns s with
  | nil =>
    cases ns with
    | nil => exact h
    | cons n ns => cases hc
  | cons w ws ih =>
    cases ns with
    | nil => cases hc
    | cons n ns =>
      obtain ⟨hs, h⟩ := h
      refine ⟨hs, ?_⟩
      unfold coverTokens at hc
      split at hc
      next hgt => exact .inl hgt
      split at hc
      · cases hc
      next hngt =>
      obtain ⟨htok, h⟩ := h.resolve_left hngt
      split at hc
      next hstar => exact .inr ⟨.inl hstar, ih hc h⟩
      rw [Bool.and_eq_true, beq_iff_eq] at hc
      exact .inr ⟨hc.1 ▸ htok, ih hc.2 h⟩

theorem subjectCovers_eq {w n : Bytes} (hw : NoEmptyTokens w) (hn : NoEmptyTokens n) :
    subjectCovers w n = coverTokens (tokens w) (tokens n) :=
  subjectCoversFrom_eq _ (Nat.lt_succ_self _) (.inr hw) (.inr hn)

/-- **A pattern matches whatever a pattern that it covers matches.** -/
theorem subjectMatches_of_covers {w n : Bytes} (hw : NoEmptyTokens w) (hn : NoEmptyTokens n)
    (hc : subjectCovers w n = true) (hm : subjectMatches n s = true) : subjectMatches w s = true :=
  (subjectMatches_iff hw).2 (.of_covers _ (subjectCovers_eq hw hn ▸ hc) ((subjectMatches_iff hn).1 hm))

/-- Overlapping, as a recursion on two token lists. -/
def overlapTokens : List Bytes → List Bytes → Bool
  | [], [] => true
  | a :: as, b :: bs =>
    decide (a = [gtByte] ∨ b = [gtByte]) ||
      (decide (a = [starByte] ∨ b = [starByte] ∨ a = b) && overlapTokens as bs)
  | _, _ => false

theorem subjectsOverlapFrom_eq {a b : Bytes} (hf : a.length < fuel) (ha : Clean a) (hb : Clean b) :
    subjectsOverlapFrom fuel a b = overlapTokens (tokens a) (tokens b) := by
  induction fuel generalizing a b with
  | zero => omega
  | succ fuel ih =>
    have hnil : nextToken [] = ([], []) := rfl
    unfold subjectsOverlapFrom
    rcases ha.cases with rfl | ⟨hat, harest, ha, hlt⟩ <;> rcases hb.cases with rfl | ⟨hbt, hbrest, hb, -⟩
    · simp [hnil, overlapTokens]
    · simp [hnil, hb, overlapTokens, hbt, Ne.symm hbt]
    · simp [hnil, ha, overlapTokens, hat]
    rw [ha, hb, overlapTokens, ← ih (by omega) harest hbrest]
    by_cases hgt : (nextToken a).1 = [gtByte] ∨ (nextToken b).1 = [gtByte]
    · simp [hgt, hat, hbt]
    by_cases hstar : (nextToken a).1 = [starByte] ∨ (nextToken b).1 = [starByte]
    · simp [hgt, hstar, hat, hbt, ← or_assoc]
    · by_cases heq : (nextToken a).1 = (nextToken b).1 <;> simp [hgt, hstar, heq, hat, hbt]

theorem overlap_of_takes {bs : List Bytes} (ha : Takes as s) (hb : Takes bs s) :
    overlapTokens as bs = true := by
  induction as generalizing bs s with
  | nil =>
    cases bs with
    | nil => rfl
    | cons b bs => exact absurd (congrArg Prod.fst ha) hb.1
  | cons a as ih =>
    cases bs with
    | nil => exact absurd (congrArg Prod.fst hb) ha.1
    | cons b bs =>
      simp only [overlapTokens, Bool.or_eq_true, Bool.and_eq_true, decide_eq_true_eq]
      rcases ha.2 with hgt | ⟨hat, ha⟩
      · exact .inl (.inl hgt)
      rcases hb.2 with hgt | ⟨hbt, hb⟩
      · exact .inl (.inr hgt)
      refine .inr ⟨?_, ih ha hb⟩
      rcases hat with hat | hat
      · exact .inl hat
      · exact .inr (hbt.imp_right fun hbt => hat.trans hbt.symm)

theorem subjectsOverlap_eq {a b : Bytes} (ha : NoEmptyTokens a) (hb : NoEmptyTokens b) :
    subjectsOverlap a b = overlapTokens (tokens a) (tokens b) :=
  subjectsOverlapFrom_eq _ (Nat.lt_succ_self _) (.inr ha) (.inr hb)

/-- **Two patterns that match one subject overlap.** -/
theorem subjectsOverlap_of_matches {a b : Bytes} (ha : NoEmptyTokens a) (hb : NoEmptyTokens b)
    (hma : subjectMatches a s = true) (hmb : subjectMatches b s = true) : subjectsOverlap a b = true :=
  (subjectsOverlap_eq ha hb).trans (overlap_of_takes _ ((subjectMatches_iff ha).1 hma) ((subjectMatches_iff hb).1 hmb))

section Fresh

variable {z : Bytes} {ns : List Bytes} {t : Bytes}

/-- A subject of a pattern, with a fresh token in place of the wildcards. -/
def instanceOf (z : Bytes) : List Bytes → List Bytes
  | [] => []
  | n :: ns => if n = [gtByte] then [z] else (if n = [starByte] then z else n) :: instanceOf z ns

theorem matchTokens_instanceOf (ns : List Bytes) : matchTokens ns (instanceOf z ns) = true := by
  induction ns with
  | nil => rfl
  | cons n ns ih =>
    unfold instanceOf
    by_cases hgt : n = [gtByte]
    · simp [matchTokens, hgt]
    by_cases hstar : n = [starByte]
    · rw [if_neg hgt, if_pos hstar]
      simp only [matchTokens, if_neg hgt, if_pos hstar, ih]
    · rw [if_neg hgt, if_neg hstar]
      simp only [matchTokens, if_neg hgt, if_neg hstar, ih, beq_self_eq_true, Bool.and_self]

/-- The fresh token, or one of the list that is no wildcard. -/
def Spells (z : Bytes) (ns : List Bytes) (t : Bytes) : Prop :=
  t = z ∨ (t ∈ ns ∧ t ≠ [starByte] ∧ t ≠ [gtByte])

theorem Spells.cons (h : Spells z ns t) (n : Bytes) : Spells z (n :: ns) t :=
  h.imp_right fun ⟨hmem, hlit⟩ => ⟨mem_cons_of_mem _ hmem, hlit⟩

theorem spells_head {n : Bytes} (hgt : n ≠ [gtByte]) : Spells z (n :: ns) (if n = [starByte] then z else n) := by
  split
  · exact .inl rfl
  next hstar => exact .inr ⟨mem_cons_self, hstar, hgt⟩

theorem mem_instanceOf (h : t ∈ instanceOf z ns) : Spells z ns t := by
  induction ns with
  | nil => cases h
  | cons n ns ih =>
    unfold instanceOf at h
    split at h
    · exact .inl (mem_singleton.1 h)
    next hgt =>
    rcases mem_cons.1 h with rfl | h
    · exact spells_head hgt
    · exact (ih h).cons n

/-- **Where a pattern does not cover another, some subject tells.** -/
theorem exists_uncovered {ws : List Bytes} (ns : List Bytes) (hz : z ∉ ws) (hc : coverTokens ws ns = false) :
    ∃ ts, matchTokens ns ts = true ∧ matchTokens ws ts = false ∧ (∀ t ∈ ts, Spells z ns t) ∧ (ns ≠ [] → ts ≠ []) := by
  induction ws generalizing ns with
  | nil =>
    cases ns with
    | nil => cases hc
    | cons n ns =>
      refine ⟨instanceOf z (n :: ns), matchTokens_instanceOf _, ?_, fun t ht => mem_instanceOf ht, fun _ hnil => ?_⟩
      · cases hinst : instanceOf z (n :: ns) with
        | nil =>
          have hm := matchTokens_instanceOf (z := z) (n :: ns)
          rw [hinst] at hm
          cases hm
        | cons t ts => rfl
      · have hm := matchTokens_instanceOf (z := z) (n :: ns)
        rw [hnil] at hm
        cases hm
  | cons w ws ih =>
    rw [mem_cons, not_or] at hz
    cases ns with
    | nil => exact ⟨[], rfl, rfl, by simp, fun h => absurd rfl h⟩
    | cons n ns =>
      unfold coverTokens at hc
      split at hc
      · cases hc
      case isFalse hwgt =>
      have hwz : ∀ ts, matchTokens (w :: ws) (z :: ts) = true → w = [starByte] ∧ matchTokens ws ts = true := by
        intro ts hm
        simp only [matchTokens, if_neg hwgt] at hm
        split at hm
        case isTrue hstar => exact ⟨hstar, hm⟩
        · rw [Bool.and_eq_true, beq_iff_eq] at hm
          exact absurd hm.1.symm hz.1
      split at hc
      case isTrue hngt =>
        -- one token too few, or one too many
        by_cases hws : ws = []
        · refine ⟨[z, z], by simp [matchTokens, hngt], ?_, by simp [Spells], fun _ => by simp⟩
          by_contra hm
          have hrest := (hwz [z] (by simpa using hm)).2
          rw [hws] at hrest
          cases hrest
        refine ⟨[z], by simp [matchTokens, hngt], ?_, by simp [Spells], fun _ => by simp⟩
        by_contra hm
        have hrest := (hwz [] (by simpa using hm)).2
        obtain ⟨w', ws', rfl⟩ := exists_cons_of_ne_nil hws
        cases hrest
      case isFalse hngt =>
      have hhead : ∀ ts, matchTokens ns ts = true →
          matchTokens (n :: ns) ((if n = [starByte] then z else n) :: ts) = true := by
        intro ts hm
        by_cases hstar : n = [starByte]
        · simp [matchTokens, hstar, hm]
        · simp [matchTokens, hngt, hstar, hm]
      have hmem : ∀ {ts : List Bytes}, (∀ t ∈ ts, Spells z ns t) →
          ∀ t ∈ (if n = [starByte] then z else n) :: ts, Spells z (n :: ns) t :=
        fun hts => forall_mem_cons.2 ⟨spells_head hngt, fun t ht => (hts t ht).cons n⟩
      split at hc
      case isTrue hstar =>
        obtain ⟨ts, hm, hnm, hts, -⟩ := ih ns hz.2 hc
        refine ⟨_, hhead ts hm, ?_, hmem hts, fun _ => cons_ne_nil _ _⟩
        simp only [matchTokens, if_neg hwgt, if_pos hstar, hnm]
      case isFalse hwstar =>
      by_cases heq : w = n
      · rw [heq, beq_self_eq_true, Bool.true_and] at hc
        obtain ⟨ts, hm, hnm, hts, -⟩ := ih ns hz.2 hc
        refine ⟨_, hhead ts hm, ?_, hmem hts, fun _ => cons_ne_nil _ _⟩
        simp [matchTokens, hwgt, hwstar, hnm]
      refine ⟨_, hhead _ (matchTokens_instanceOf ns), ?_, hmem fun t ht => mem_instanceOf ht, fun _ => cons_ne_nil _ _⟩
      have hne : w ≠ if n = [starByte] then z else n := by
        split
        · exact fun h => hz.1 h.symm
        · exact heq
      simp [matchTokens, hwgt, hwstar, hne]

theorem exists_overlapped (as : List Bytes) {bs : List Bytes} (h : overlapTokens as bs = true) :
    ∃ ts, matchTokens as ts = true ∧ matchTokens bs ts = true ∧ ∀ t ∈ ts, Spells z as t ∨ Spells z bs t := by
  induction as generalizing bs with
  | nil =>
    cases bs with
    | nil => exact ⟨[], rfl, rfl, by simp⟩
    | cons b bs => cases h
  | cons a as ih =>
    cases bs with
    | nil => cases h
    | cons b bs =>
      -- a final `>` takes any subject of the other pattern
      by_cases hagt : a = [gtByte]
      · refine ⟨instanceOf z (b :: bs), ?_, matchTokens_instanceOf _, fun t ht => .inr (mem_instanceOf ht)⟩
        rw [instanceOf]
        split <;> simp [matchTokens, hagt]
      by_cases hbgt : b = [gtByte]
      · refine ⟨instanceOf z (a :: as), matchTokens_instanceOf _, ?_, fun t ht => .inl (mem_instanceOf ht)⟩
        rw [instanceOf]
        split <;> simp [matchTokens, hbgt]
      simp only [overlapTokens, hagt, hbgt, or_self, decide_false, Bool.false_or, Bool.and_eq_true,
        decide_eq_true_eq] at h
      obtain ⟨ts, hma, hmb, hts⟩ := ih h.2
      have hcons : ∀ c, Spells z (a :: as) c ∨ Spells z (b :: bs) c →
          ∀ t ∈ c :: ts, Spells z (a :: as) t ∨ Spells z (b :: bs) t :=
        fun c hc => forall_mem_cons.2 ⟨hc, fun t ht => (hts t ht).imp (·.cons _) (·.cons _)⟩
      by_cases hastar : a = [starByte]
      · refine ⟨(if b = [starByte] then z else b) :: ts, ?_, ?_, hcons _ (.inr (spells_head hbgt))⟩
        · rw [matchTokens, if_neg hagt, if_pos hastar, hma]
        · rw [matchTokens, if_neg hbgt]
          split <;> simp [hmb]
      refine ⟨a :: ts, ?_, ?_, hcons _ (.inl (.inr ⟨mem_cons_self, hastar, hagt⟩))⟩
      · simp [matchTokens, hagt, hastar, hma]
      · rw [matchTokens, if_neg hbgt]
        split
        · exact hmb
        next hbstar => simp [hmb, (h.1.resolve_left hastar).resolve_left hbstar]

end Fresh

/-- A subject without wildcards. -/
def Concrete (s : Bytes) : Prop := NoEmptyTokens s ∧ ∀ t ∈ tokens s, t ≠ [starByte] ∧ t ≠ [gtByte]

/-- A token longer than `k`. -/
def fresh (k : ℕ) : Bytes := replicate (k + 1) 97

theorem not_mem_fresh {k : ℕ} {x : UInt8} (hx : x ≠ 97) : x ∉ fresh k :=
  fun h => hx (eq_of_mem_replicate h)

theorem NoEmptyTokens.spelled (hn : NoEmptyTokens n) {k : ℕ} {t : Bytes} (h : Spells (fresh k) (tokens n) t) :
    (t ≠ [] ∧ dotByte ∉ t) ∧ t ≠ [starByte] ∧ t ≠ [gtByte] := by
  rcases h with rfl | ⟨ht, hlit⟩
  · refine ⟨⟨by simp [fresh], not_mem_fresh (by decide)⟩, ?_, ?_⟩
    all_goals exact fun h => absurd (h ▸ mem_singleton_self _) (not_mem_fresh (by decide))
  · have hdot := (mem_tokens ht).2
    rw [tokens_eq_splitOn hn] at ht
    exact ⟨⟨hn t ht, hdot⟩, hlit⟩

theorem NoEmptyTokens.tokens_ne_nil (hn : NoEmptyTokens n) : tokens n ≠ [] := by
  rw [tokens_of_ne_nil hn.ne_nil]
  exact cons_ne_nil _ _

/-- **Among well-formed patterns `subject_covers` finds every pattern that matches no more.** -/
theorem subjectCovers_of_matches {w n : Bytes} (hw : NoEmptyTokens w) (hn : NoEmptyTokens n)
    (h : ∀ s, Concrete s → subjectMatches n s = true → subjectMatches w s = true) : subjectCovers w n = true := by
  by_contra hc
  have hc' : coverTokens (tokens w) (tokens n) = false := by
    rw [← subjectCovers_eq hw hn]
    simpa using hc
  -- a token longer than the pattern is none of its tokens
  have hfresh : fresh w.length ∉ tokens w := by
    intro hmem
    have hlen := (mem_tokens hmem).1.length_le
    rw [fresh, length_replicate] at hlen
    omega
  obtain ⟨ts, hm, hnm, hts, hne⟩ := exists_uncovered (tokens n) hfresh hc'
  obtain ⟨hclean, htok⟩ := tokens_intercalate (hne hn.tokens_ne_nil) fun t ht => (hn.spelled (hts t ht)).1
  have hsub := h ([dotByte].intercalate ts) ⟨hclean, by rw [htok]; exact fun t ht => (hn.spelled (hts t ht)).2⟩
    (by rw [subjectMatches_eq hn hclean, htok]; exact hm)
  rw [subjectMatches_eq hw hclean, htok, hnm] at hsub
  cases hsub

/-- **Well-formed patterns that overlap match one subject.** -/
theorem exists_of_overlap {a b : Bytes} (ha : NoEmptyTokens a) (hb : NoEmptyTokens b) (h : subjectsOverlap a b = true) :
    ∃ s, Concrete s ∧ subjectMatches a s = true ∧ subjectMatches b s = true := by
  obtain ⟨ts, hma, hmb, hts⟩ := exists_overlapped (z := fresh 0) _ (subjectsOverlap_eq ha hb ▸ h)
  have hok := fun t ht => (hts t ht).elim ha.spelled hb.spelled
  have hne : ts ≠ [] := by
    rintro rfl
    rw [tokens_of_ne_nil ha.ne_nil] at hma
    cases hma
  obtain ⟨hclean, htok⟩ := tokens_intercalate hne fun t ht => (hok t ht).1
  refine ⟨_, ⟨hclean, by rw [htok]; exact fun t ht => (hok t ht).2⟩, ?_, ?_⟩
  · rw [subjectMatches_eq ha hclean, htok, hma]
  · rw [subjectMatches_eq hb hclean, htok, hmb]

theorem covers_and_overlap_exact (a b : Bytes) (ha : validatePattern a = .ok ()) (hb : validatePattern b = .ok ()) :
    (subjectCovers a b = true ↔ ∀ s, Concrete s → subjectMatches b s = true → subjectMatches a s = true) ∧
      (subjectsOverlap a b = true ↔ ∃ s, Concrete s ∧ subjectMatches a s = true ∧ subjectMatches b s = true) := by
  have hat := noEmptyTokens_of_validatePattern ha
  have hbt := noEmptyTokens_of_validatePattern hb
  refine ⟨⟨fun hc s _ => subjectMatches_of_covers hat hbt hc, subjectCovers_of_matches hat hbt⟩, exists_of_overlap hat hbt, ?_⟩
  rintro ⟨s, -, hma, hmb⟩
  exact subjectsOverlap_of_matches hat hbt hma hmb

/-- Patterns `a.>` and `*.b`. -/
theorem covers_and_overlap_example : subjectCovers [97, 46, 62] [42, 46, 98] = false ∧
    ∃ s, Concrete s ∧ subjectMatches [97, 46, 62] s = true ∧ subjectMatches [42, 46, 98] s = true :=
  ⟨by decide, (covers_and_overlap_exact [97, 46, 62] [42, 46, 98] (by decide) (by decide)).2.1 (by decide)⟩

/-! ## The check at the edge -/

theorem noEmptyTokens_of_validateSubject {f : Bytes} (h : validateSubject f = true) : NoEmptyTokens f := by
  unfold validateSubject at h
  simp only [Bool.and_eq_true, all_eq_true] at h
  intro tok htok
  have hv := h.1.2 tok htok
  unfold validateToken at hv
  simp only [Bool.and_eq_true] at hv
  simpa using hv.1.1

theorem validatePatternFrom_iff (n : ℕ) {p : Bytes} (hn : p.length ≤ n) (hp : Clean p) :
    (validatePatternFrom n p = .ok () ↔ [gtByte] ∉ (tokens p).dropLast) := by
  induction n generalizing p with
  | zero =>
    rw [eq_nil_of_length_eq_zero (by omega : p.length = 0)]
    simp [validatePatternFrom]
  | succ n ih =>
    unfold validatePatternFrom
    rcases hp.cases with rfl | ⟨htok, hrest, htokens, hlt⟩
    · simp
    have hne : p ≠ [] := by rintro rfl; exact htok rfl
    simp only [List.isEmpty_iff, hne, htok, if_false, htokens]
    have hrec := ih (by omega) hrest
    rcases hrest.cases with hnil | ⟨-, -, hmore, -⟩
    · simpa [hnil] using hrec
    have hrne : (nextToken p).2 ≠ [] := by intro h; simp [h] at hmore
    rw [hmore] at hrec ⊢
    rw [dropLast_cons_cons, mem_cons, not_or, ← hrec]
    split <;> grind

theorem Proto.subjectsOverlapFrom_eq : ∀ bs, Proto.subjectsOverlapFrom as bs = overlapTokens as bs := by
  induction as with
  | nil => intro bs; cases bs <;> rfl
  | cons a as ih =>
    intro bs
    cases bs with
    | nil => rfl
    | cons b bs =>
      rw [subjectsOverlapFrom, overlapTokens, ih]
      split_ifs <;> simp [*]

/-- **The edge and the engine agree** on the subjects that the edge takes, apart from those with a `>`
before the last token: the edge looks at the last one only. -/
theorem validateSubject_agrees (a : Bytes) (ha : validateSubject a = true) :
    (validatePattern a = .ok () ↔ [gtByte] ∉ (a.splitOn dotByte).dropLast) ∧
      ∀ b, validateSubject b = true → Proto.subjectsOverlap a b = subjectsOverlap a b := by
  have hat := noEmptyTokens_of_validateSubject ha
  refine ⟨?_, fun b hb => ?_⟩
  · have hdots : ¬ (a.head? = some dotByte ∨ a.getLast? = some dotByte) := by
      rintro (h | h)
      · obtain ⟨ys, rfl⟩ := head?_eq_some_iff.1 h
        exact hat.nextToken.1 rfl
      · obtain ⟨xs, rfl⟩ := getLast?_eq_some_iff.1 h
        unfold NoEmptyTokens splitOn at hat
        rw [splitOnP_append_cons xs [] (by simp)] at hat
        exact hat [] (by simp) rfl
    rw [validatePattern, if_neg (by simpa using hat.ne_nil), if_neg hdots,
      validatePatternFrom_iff _ le_rfl (.inr hat), tokens_eq_splitOn hat]
  · have hbt := noEmptyTokens_of_validateSubject hb
    rw [subjectsOverlap_eq hat hbt, tokens_eq_splitOn hat, tokens_eq_splitOn hbt]
    exact Proto.subjectsOverlapFrom_eq _ _

/-- Subjects `a.>` and `*.b`. -/
theorem validateSubject_agrees_example : validatePattern [97, 46, 62] = .ok () ∧
    Proto.subjectsOverlap [97, 46, 62] [42, 46, 98] = subjectsOverlap [97, 46, 62] [42, 46, 98] :=
  (validateSubject_agrees [97, 46, 62] (by decide)).imp (fun h => h.2 (by decide)) fun h => h _ (by decide)

/-- The edge takes `>.>`, the engine does not. -/
theorem gt_before_gt : validateSubject [62, 46, 62] = true ∧ validatePattern [62, 46, 62] = .error .tokensAfterGt := by
  decide

end Arbitro
