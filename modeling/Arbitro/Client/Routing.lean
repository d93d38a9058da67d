import Arbitro.Engine.Subject

/-!
# The routing table of the client

`Subscriptions`: the subscriptions of each consumer, and one route per subscription id.
A subscription's channel is its id; the pre-encoded frames are left out.
-/

namespace Arbitro

namespace Client

/-! ## Filters -/

inductive Matcher where
  | all
  | exact (lit : Bytes)
  | pattern (p : Bytes)
  deriving DecidableEq, Repr

/-- The loop of `subject_matches` over the tokens of pattern and subject. -/
def matchTokenLists : List Bytes → List Bytes → Bool
  | p :: ps, s :: ss =>
    if p = [gtByte] then true
    else if p = [starByte] ∨ p = s then matchTokenLists ps ss
    else false
  | [], [] => true
  | _, _ => false

/-- `subject_matches` of the client: tokens may be empty. -/
def subjectMatches (pattern subject : Bytes) : Bool :=
  matchTokenLists (pattern.splitOn dotByte) (subject.splitOn dotByte)

def Matcher.new (filter : Bytes) : Matcher :=
  if filter = [] ∨ filter = [gtByte] then .all
  else if filter.contains starByte || filter.contains gtByte then .pattern filter
  else .exact filter

def Matcher.accepts : Matcher → Bytes → Bool
  | .all, _ => true
  | .exact lit, subject => subject = lit
  | .pattern p, subject => subjectMatches p subject

/-! ## The index -/

/-- The dedup slot of a `(stream, consumer)` pair, as the store numbers them. -/
abbrev SlotId := ℕ

structure Subscription where
  id : ℕ
  matcher : Matcher
  deriving DecidableEq, Repr

/-- `Consumer`: one consumer and every subscription on it. -/
structure Consumer where
  id : ConsumerId
  streamId : StreamId
  fanout : Bool
  dedup : Option SlotId
  subs : List Subscription
  deriving DecidableEq, Repr

/-- `Route`: what one wire entry resolves to. -/
structure Route where
  consumerId : ConsumerId
  streamId : StreamId
  fanout : Bool
  idx : ℕ
  dedup : Option SlotId
  subs : List Subscription
  deriving DecidableEq, Repr

/-- What a caller supplies to open a subscription. -/
structure Registration where
  consumerId : ConsumerId
  streamId : StreamId
  fanout : Bool
  dedup : Option SlotId
  subId : ℕ
  filter : Bytes
  deriving DecidableEq, Repr

/-- `Index`. -/
structure Subscriptions where
  bySub : Map ℕ Route := ∅
  byConsumer : Map ConsumerId Consumer := ∅

variable (g : Subscriptions) (c : ConsumerId)

namespace Subscriptions

def takeSubs : List Subscription :=
  ((g.byConsumer.lookup c).map (·.subs)).getD []

/-- `rebuild`: a new subscription array for a consumer, and routes to it. -/
def rebuild (stream : StreamId) (fanout : Bool) (dedup : Option SlotId) (subs : List Subscription) : Subscriptions :=
  let pruned := (g.takeSubs c).foldl (fun m s => m.erase s.id) g.bySub
  { bySub := subs.zipIdx.foldl (fun m si => m.insert si.1.id (⟨c, stream, fanout, si.2, dedup, subs⟩ : Route)) pruned
    byConsumer := g.byConsumer.insert c (⟨c, stream, fanout, dedup, subs⟩ : Consumer) }

def dropConsumer : Subscriptions :=
  { bySub := (g.takeSubs c).foldl (fun m s => m.erase s.id) g.bySub
    byConsumer := g.byConsumer.erase c }

def register (reg : Registration) : Subscriptions :=
  let subs := (g.takeSubs reg.consumerId).filter (·.id != reg.subId) ++ [⟨reg.subId, .new reg.filter⟩]
  g.rebuild reg.consumerId reg.streamId reg.fanout reg.dedup subs

def setFanout (fanout : Bool) : Subscriptions :=
  match g.byConsumer.lookup c with
  | none => g
  | some con => if con.fanout = fanout then g else g.rebuild c con.streamId fanout con.dedup (g.takeSubs c)

def remove (sub : ℕ) : Subscriptions :=
  match g.bySub.lookup sub with
  | none => g
  | some r =>
    match g.byConsumer.lookup r.consumerId with
    | none => { g with bySub := g.bySub.erase sub }
    | some con =>
      let subs := (g.takeSubs r.consumerId).filter (·.id != sub)
      if subs.isEmpty then g.dropConsumer r.consumerId
      else
        let g' := g.rebuild r.consumerId con.streamId con.fanout con.dedup subs
        { g' with bySub := g'.bySub.erase sub }

/-- The subscriptions one entry goes to: in fan-out those whose filter accepts the subject,
else the one the broker picked. -/
def targets (r : Route) (subject : Bytes) : List ℕ :=
  if r.fanout then (r.subs.filter (·.matcher.accepts subject)).map (·.id)
  else (r.subs[r.idx]?.map (·.id)).toList

def dedupOf : Option SlotId := (g.byConsumer.lookup c).bind (·.dedup)

end Subscriptions

end Client

end Arbitro
