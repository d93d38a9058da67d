import Arbitro.Engine.Basic

/-!
# Subject tokens and the pattern trie

Subjects are byte strings split at `.`; a pattern token `*` stands for exactly
one token and a final `>` for one or more. The trie is an arena of nodes
addressed by index, as in the source. Its loops shorten the remaining subject
at every turn, so they are written with the length of the subject as fuel.
-/

namespace Arbitro

/-- `.` -/
def dotByte : UInt8 := 46
/-- `*` -/
def starByte : UInt8 := 42
/-- `>` -/
def gtByte : UInt8 := 62

/-- `next_token`: the bytes before the first `.` and the bytes after it. -/
def nextToken (s : Bytes) : Bytes × Bytes :=
  (s.takeWhile (· != dotByte), (s.dropWhile (· != dotByte)).tail)

/-- Does a filter hold a wildcard byte, and so go to the trie? -/
def hasWildcard (p : Bytes) : Bool := p.contains starByte || p.contains gtByte

/-- The loop of `subject_matches`. Every turn that goes on takes a token off the pattern,
so a fuel above its length is never used up. -/
def subjectMatchesFrom : ℕ → Bytes → Bytes → Bool
  | 0, _, _ => false
  | fuel + 1, pat, sub =>
    let (ptok, prest) := nextToken pat
    let (stok, srest) := nextToken sub
    if ptok = [gtByte] ∧ stok ≠ [] then true
    else if ptok = [starByte] ∧ stok ≠ [] then subjectMatchesFrom fuel prest srest
    else if ptok = stok ∧ ptok ≠ [] then subjectMatchesFrom fuel prest srest
    else if ptok = [] ∧ stok = [] then prest.isEmpty && srest.isEmpty
    else false

def subjectMatches (pattern subject : Bytes) : Bool := subjectMatchesFrom (pattern.length + 1) pattern subject

/-- The loop of `subject_covers`. -/
def subjectCoversFrom : ℕ → Bytes → Bytes → Bool
  | 0, _, _ => false
  | fuel + 1, wide, narrow =>
    let (wtok, wrest) := nextToken wide
    let (ntok, nrest) := nextToken narrow
    if wtok = [gtByte] ∧ ntok ≠ [] then true
    -- `*` spans one token, `>` one or more
    else if ntok = [gtByte] then false
    else if wtok = [starByte] ∧ ntok ≠ [] then subjectCoversFrom fuel wrest nrest
    else if wtok = ntok ∧ wtok ≠ [] then subjectCoversFrom fuel wrest nrest
    else if wtok = [] ∧ ntok = [] then wrest.isEmpty && nrest.isEmpty
    else false

def subjectCovers (wide narrow : Bytes) : Bool := subjectCoversFrom (wide.length + 1) wide narrow

/-- The loop of `subjects_overlap`. -/
def subjectsOverlapFrom : ℕ → Bytes → Bytes → Bool
  | 0, _, _ => false
  | fuel + 1, a, b =>
    let (xt, xr) := nextToken a
    let (yt, yr) := nextToken b
    if (xt = [gtByte] ∧ yt ≠ []) ∨ (yt = [gtByte] ∧ xt ≠ []) then true
    else if (xt = [starByte] ∧ yt ≠ []) ∨ (yt = [starByte] ∧ xt ≠ []) then subjectsOverlapFrom fuel xr yr
    else if xt = yt ∧ xt ≠ [] then subjectsOverlapFrom fuel xr yr
    else if xt = [] ∧ yt = [] then xr.isEmpty && yr.isEmpty
    else false

def subjectsOverlap (a b : Bytes) : Bool := subjectsOverlapFrom (a.length + 1) a b

inductive PatternError where
  | empty
  | emptyToken
  | tokensAfterGt
  deriving DecidableEq, Repr

/-- The loop of `validate_pattern`. -/
def validatePatternFrom : ℕ → Bytes → Except PatternError Unit
  | 0, _ => .ok ()
  | fuel + 1, p =>
    if p.isEmpty then .ok ()
    else
      let (token, rest) := nextToken p
      if token.isEmpty then .error .emptyToken
      else if token = [gtByte] ∧ rest ≠ [] then .error .tokensAfterGt
      else validatePatternFrom fuel rest

def validatePattern (pattern : Bytes) : Except PatternError Unit :=
  if pattern.isEmpty then .error .empty
  else if pattern.head? = some dotByte ∨ pattern.getLast? = some dotByte then .error .emptyToken
  else validatePatternFrom pattern.length pattern

structure TrieNode where
  literals : List (Bytes × ℕ) := []
  wildcardStar : Option ℕ := none
  wildcardGt : List ℕ := []
  subs : List ℕ := []
  deriving DecidableEq, Repr

/-- `TrieNode::default`. -/
def TrieNode.empty : TrieNode where

/-- `SubjectTrie`: all nodes in one arena, the root at index 0. -/
structure SubjectTrie where
  nodes : List TrieNode := [TrieNode.empty]
  deriving DecidableEq, Repr

variable (t : SubjectTrie)

namespace SubjectTrie

def node (i : ℕ) : TrieNode := t.nodes.getD i TrieNode.empty

def modifyNode (i : ℕ) (f : TrieNode → TrieNode) : SubjectTrie :=
  ⟨t.nodes.modify i f⟩

/-- Append an empty node and return its index. -/
def push : SubjectTrie × ℕ := (⟨t.nodes ++ [TrieNode.empty]⟩, t.nodes.length)

/-- The `*` child of a node, created on demand. -/
def starChild (curr : ℕ) : SubjectTrie × ℕ :=
  match (t.node curr).wildcardStar with
  | some idx => (t, idx)
  | none =>
    let (t', idx) := t.push
    (t'.modifyNode curr fun n => { n with wildcardStar := some idx }, idx)

/-- The child of a node for a literal token, created on demand. -/
def literalChild (curr : ℕ) (lit : Bytes) : SubjectTrie × ℕ :=
  match (t.node curr).literals.find? (·.1 == lit) with
  | some (_, idx) => (t, idx)
  | none =>
    let (t', idx) := t.push
    (t'.modifyNode curr fun n => { n with literals := n.literals ++ [(lit, idx)] }, idx)

def insertFrom (subId : ℕ) : ℕ → SubjectTrie → ℕ → Bytes → SubjectTrie
  | 0, t, curr, _ => t.modifyNode curr fun n => { n with subs := n.subs ++ [subId] }
  | fuel + 1, t, curr, p =>
    if p.isEmpty then t.modifyNode curr fun n => { n with subs := n.subs ++ [subId] }
    else
      let (token, rest) := nextToken p
      if token = [gtByte] then t.modifyNode curr fun n => { n with wildcardGt := n.wildcardGt ++ [subId] }
      else if token = [starByte] then
        let (t', next) := t.starChild curr
        insertFrom subId fuel t' next rest
      else
        let (t', next) := t.literalChild curr token
        insertFrom subId fuel t' next rest

def insert (pattern : Bytes) (subId : ℕ) : SubjectTrie :=
  insertFrom subId pattern.length t 0 pattern

/-- The ids `find_matches` reports from one node on. The source keeps an explicit
stack and pushes the literal child before the `*` child, so it visits the `*`
child first: depth-first order. -/
def findFrom (t : SubjectTrie) : ℕ → ℕ → Bytes → List ℕ
  | 0, i, _ => (t.node i).subs
  | fuel + 1, i, sub =>
    let n := t.node i
    if sub.isEmpty then n.subs
    else
      let (token, rest) := nextToken sub
      let viaStar := match n.wildcardStar with
        | some idx => findFrom t fuel idx rest
        | none => []
      let viaLiteral := match n.literals.find? (·.1 == token) with
        | some (_, idx) => findFrom t fuel idx rest
        | none => []
      n.wildcardGt ++ viaStar ++ viaLiteral

def findMatches (subject : Bytes) : List ℕ :=
  t.findFrom subject.length 0 subject

end SubjectTrie

end Arbitro
