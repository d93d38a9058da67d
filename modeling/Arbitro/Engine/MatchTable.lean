import Mathlib.Data.Finset.Basic
import Arbitro.Engine.Subject

/-!
# The match table of a stream

Which subscriptions a subject concerns is worked out when a subscription is
created: literal filters by hash (with the literal kept beside the bucket),
wildcard filters in a trie, no filter in the catch-all list. The drain reads a
clone whose entries carry the index of their binding.

A hash set beside each vector answers whether an entry is in it. The sets are kept
by the same functions as the vectors, binding by binding.
-/

namespace Arbitro

/-- A matched consumer. `connectionId = 0` means not bound; `bindingIdx` is an
index into the drain snapshot's bindings, `none` for `BINDING_IDX_UNBOUND`. -/
structure MatchEntry where
  consumerId : ConsumerId
  queueId : QueueId
  subscriptionId : SubscriptionId
  connectionId : ConnectionId
  bindingIdx : Option ℕ
  deriving DecidableEq, Repr

/-- `PartialEq for MatchEntry`: everything but the binding index. -/
def MatchEntry.same (a b : MatchEntry) : Bool :=
  a.consumerId == b.consumerId && a.queueId == b.queueId &&
    a.subscriptionId == b.subscriptionId && a.connectionId == b.connectionId

/-- An entry as a hash set files it: entries equal under `PartialEq` have one key. -/
def MatchEntry.key (e : MatchEntry) : MatchEntry := { e with bindingIdx := none }

/-- `Vec::contains` under that equality. -/
def MatchEntry.containedIn (e : MatchEntry) (l : List MatchEntry) : Bool := l.any (e.same ·)

/-- Push an entry unless one like it is there. -/
def pushDedup (l : List MatchEntry) (e : MatchEntry) : List MatchEntry :=
  if e.containedIn l then l else l ++ [e]

/-- `exactHashes` lists the hashes a bucket was opened for; a hash without a bucket, or
without a set, has an empty one. -/
structure MatchTable where
  exact : SubjectHash → List MatchEntry
  exactHashes : List SubjectHash
  exactDedup : SubjectHash → Finset MatchEntry
  exactSubjects : SubjectHash → Option Bytes
  catchAll : List MatchEntry
  catchAllDedup : Finset MatchEntry
  patterns : List (Bytes × MatchEntry)
  patternTrie : SubjectTrie
  patternEntries : List MatchEntry
  limitPatterns : List (Bytes × ℕ)
  limitTrie : SubjectTrie
  limitValues : List ℕ
  maxSubjectInflights : Map SubjectHash ℕ

variable (mt : MatchTable) (sid : SubscriptionId)

namespace MatchTable

def new : MatchTable where
  exact := fun _ => []
  exactHashes := []
  exactDedup := fun _ => ∅
  exactSubjects := fun _ => none
  catchAll := []
  catchAllDedup := ∅
  patterns := []
  patternTrie := {}
  patternEntries := []
  limitPatterns := []
  limitTrie := {}
  limitValues := []
  maxSubjectInflights := ∅

def addCatchAll (e : MatchEntry) : MatchTable :=
  { mt with
    catchAllDedup := insert e.key mt.catchAllDedup
    catchAll := if e.key ∈ mt.catchAllDedup then mt.catchAll else mt.catchAll ++ [e] }

/-- `add_exact`: the bucket of a hash keeps the literal it was opened with. -/
def addExact (h : SubjectHash) (subject : Bytes) (e : MatchEntry) : MatchTable :=
  { mt with
    exactDedup := Function.update mt.exactDedup h (insert e.key (mt.exactDedup h))
    exact := Function.update mt.exact h (if e.key ∈ mt.exactDedup h then mt.exact h else mt.exact h ++ [e])
    exactHashes := h :: mt.exactHashes
    exactSubjects := Function.update mt.exactSubjects h (some ((mt.exactSubjects h).getD subject)) }

def addPattern (pattern : Bytes) (e : MatchEntry) : MatchTable :=
  { mt with
    patternEntries := mt.patternEntries ++ [e]
    patternTrie := mt.patternTrie.insert pattern mt.patternEntries.length
    patterns := mt.patterns ++ [(pattern, e)] }

def rebuildPatternTrie : MatchTable :=
  { mt with
    patternEntries := mt.patterns.map Prod.snd
    patternTrie := mt.patterns.zipIdx.foldl (fun t pi => t.insert pi.1.1 pi.2) {} }

def removeSubscription (sid : SubscriptionId) : MatchTable :=
  let keep : MatchEntry → Bool := fun e => e.subscriptionId != sid
  let exact' : SubjectHash → List MatchEntry := fun h => (mt.exact h).filter keep
  let mt' := { mt with
    catchAll := mt.catchAll.filter keep
    catchAllDedup := mt.catchAllDedup.filter (keep ·)
    exact := exact'
    exactDedup := fun h => (mt.exactDedup h).filter (keep ·)
    exactSubjects := fun h => if (exact' h).isEmpty then none else mt.exactSubjects h
    patterns := mt.patterns.filter fun pe => keep pe.2 }
  if mt.patterns.any fun pe => pe.2.subscriptionId == sid then mt'.rebuildPatternTrie else mt'

/-- Rewrite every stored entry in place. -/
def mapEntries (f : MatchEntry → MatchEntry) (mt : MatchTable) : MatchTable :=
  { mt with
    exact := fun h => (mt.exact h).map f
    catchAll := mt.catchAll.map f
    patterns := mt.patterns.map fun pe => (pe.1, f pe.2)
    patternEntries := mt.patternEntries.map f }

/-- `update_dedup_for_subscription`, for one vector that has the new connection already and
the set beside it. -/
def updateDedup (old : ConnectionId) (entries : List MatchEntry) (set : Finset MatchEntry) : Finset MatchEntry :=
  entries.foldl (fun set e =>
    if e.subscriptionId = sid then insert e.key (set.erase { e.key with connectionId := old }) else set) set

/-- What `bind_subscription` does to one entry. -/
def bindEntry (conn : ConnectionId) (e : MatchEntry) : MatchEntry :=
  if e.subscriptionId = sid then { e with connectionId := conn } else e

/-- The connection that the first entry of the subscription names, in the catch-all list or
a bucket. -/
def oldConnectionId : Option ConnectionId :=
  ((mt.catchAll ++ mt.exactHashes.flatMap mt.exact).find? (·.subscriptionId = sid)).map (·.connectionId)

/-- A set changes only if the connection does. -/
def rebindDedup (conn : ConnectionId) (entries : List MatchEntry) (set : Finset MatchEntry) : Finset MatchEntry :=
  match mt.oldConnectionId sid with
  | some old => if old = conn then set else updateDedup sid old entries set
  | none => set

/-- A set that is not there is left alone. -/
def bindSubscription (conn : ConnectionId) : MatchTable :=
  let mt' := mt.mapEntries (bindEntry sid conn)
  { mt' with
    catchAllDedup := mt.rebindDedup sid conn mt'.catchAll mt.catchAllDedup
    exactDedup := fun h => if mt.exactDedup h = ∅ then ∅ else mt.rebindDedup sid conn (mt'.exact h) (mt.exactDedup h) }

def unbindSubscription : MatchTable :=
  mt.bindSubscription sid 0

/-- What `set_binding_idx_for` does to one entry. -/
def stampEntry (consumer : ConsumerId) (conn : ConnectionId) (sid : SubscriptionId) (idx : ℕ)
    (e : MatchEntry) : MatchEntry :=
  if e.consumerId = consumer ∧ e.connectionId = conn ∧ e.subscriptionId = sid then
    { e with bindingIdx := some idx }
  else e

def setBindingIdxFor (consumer : ConsumerId) (conn : ConnectionId) (sid : SubscriptionId) (idx : ℕ) : MatchTable :=
  mt.mapEntries (stampEntry consumer conn sid idx)

/-- `lookup_verified` read to the end: exact bucket first (only if it was opened
for this very subject), then the catch-all entries. -/
def lookupVerified (h : SubjectHash) (subject : Bytes) : List MatchEntry :=
  (if mt.exactSubjects h = some subject then mt.exact h else []) ++ mt.catchAll

/-- `resolve_patterns_readonly` into `out`. The hash set the source uses for a
long `out` answers the same membership question. -/
def resolvePatternsReadonly (subject : Bytes) (out : List MatchEntry) : List MatchEntry :=
  (mt.patternTrie.findMatches subject).foldl (fun out idx =>
    match mt.patternEntries[idx]? with
    | some e => pushDedup out e
    | none => out) out

def rebuildLimitTrie : MatchTable :=
  { mt with
    limitValues := mt.limitPatterns.map Prod.snd
    limitTrie := mt.limitPatterns.zipIdx.foldl (fun t pi => t.insert pi.1.1 pi.2) {} }

def addMaxSubjectInflight (wireHash32 : WireHash) (mt : MatchTable) (pattern : Bytes) (max : ℕ) :
    MatchTable :=
  if hasWildcard pattern then
    { mt with limitPatterns := mt.limitPatterns ++ [(pattern, max)] }.rebuildLimitTrie
  else { mt with maxSubjectInflights := mt.maxSubjectInflights.insert (wireHash32 pattern) max }

/-- `resolve_subject_limit_readonly`: the literal limit of the hash, else the
least limit of the wildcard patterns that match. -/
def resolveSubjectLimitReadonly (h : SubjectHash) (subject : Bytes) : Option ℕ :=
  match mt.maxSubjectInflights.lookup h with
  | some limit => some limit
  | none =>
    if mt.limitPatterns.isEmpty then none
    else (mt.limitTrie.findMatches subject).foldl (fun acc idx =>
      some (min (acc.getD (2 ^ 32 - 1)) (mt.limitValues.getD idx 0))) none

end MatchTable

end Arbitro
