import Arbitro.Lib.CountingSort
import Arbitro.Shard.Accumulator
import Arbitro.Shard.Effect
import Arbitro.Shard.Store

/-!
# The drain cycle

`drain_read` walks the store from the cursor and decides, entry by entry and
recipient by recipient, what to send; `drain_deliver` flushes the frames and
keeps the books. The counters the walk reads are shared with the command task,
which may change them at any moment: what each read returns is an input
(`Reads`). So is what becomes of each frame (`WriterState`).

The stamps that mark a fanout group as served for the entry at hand
(`fanout_stamp`, `fanout_gen`) are the list of groups served so far. Dead
connections are collected while flushing only, so the check for them in the
recipient loop finds none and is left out.
-/

namespace Arbitro

/-! ## Payloads -/

/-- A little-endian number. -/
def fromLeBytes (bs : Bytes) : ℕ := bs.foldr (fun b n => b.toNat + 256 * n) 0

/-- The user payload of an entry with headers: `[payload_len:u32 LE][payload]…`. -/
def StoreEntry.rawPayload (e : StoreEntry) : Bytes :=
  if e.hasHeaders && 4 ≤ e.payload.length then
    let len := fromLeBytes (e.payload.take 4)
    if 4 + len ≤ e.payload.length then (e.payload.drop 4).take len else e.payload
  else e.payload

/-- Reply subject and payload: `[reply_len:u16 LE][reply_to][payload]`. -/
def StoreEntry.replyAndPayload (e : StoreEntry) : Bytes × Bytes :=
  let raw := e.rawPayload
  if e.hasReplyTo && 2 ≤ raw.length then
    let len := fromLeBytes (raw.take 2)
    if 2 + len ≤ raw.length then ((raw.drop 2).take len, raw.drop (2 + len)) else ([], raw)
  else ([], raw)

/-! ## Caches -/

/-- `SubjectCache`: what the subjects of one stream resolve to, by hash. -/
structure SubjectCache where
  birthSeq : ℕ := 0
  resolved : Map SubjectHash (List MatchEntry) := ∅
  limit : Map SubjectHash (Option ℕ) := ∅

def SubjectCache.forIncarnation (c : SubjectCache) (birthSeq : ℕ) : SubjectCache :=
  if c.birthSeq = birthSeq then c else { birthSeq := birthSeq }

abbrev StreamCaches := Map StreamId SubjectCache

namespace StreamCaches

variable (caches : StreamCaches)

/-- The cache of a stream, emptied if it describes an earlier incarnation. -/
def stream (id : StreamId) (birthSeq : ℕ) : SubjectCache :=
  ((caches.lookup id).getD {}).forIncarnation birthSeq

/-- `resolve_patterns`: the value under the hash, resolved on a miss. -/
def resolvePatterns (id : StreamId) (birthSeq : ℕ) (h : SubjectHash) (subject : Bytes)
    (mt : MatchTable) : StreamCaches × List MatchEntry :=
  let cache := caches.stream id birthSeq
  match cache.resolved.lookup h with
  | some v => (caches.insert id cache, v)
  | none =>
    let v := mt.resolvePatternsReadonly subject []
    (caches.insert id { cache with resolved := cache.resolved.insert h v }, v)

def resolveLimit (id : StreamId) (birthSeq : ℕ) (h : SubjectHash) (subject : Bytes)
    (mt : MatchTable) : StreamCaches × Option ℕ :=
  let cache := caches.stream id birthSeq
  match cache.limit.lookup h with
  | some v => (caches.insert id cache, v)
  | none =>
    let v := mt.resolveSubjectLimitReadonly h subject
    (caches.insert id { cache with limit := cache.limit.insert h v }, v)

end StreamCaches

/-! ## Dispatch -/

/-- `PendingNotify`: a delivery that owes an ack. -/
structure PendingNotify where
  conn : ConnectionId
  stream : StreamId
  bindingIdx : ℕ
  seq : ℕ
  subjectHash : SubjectHash
  consumerId : ConsumerId
  queueId : QueueId
  deriving DecidableEq, Repr

/-- What the shared words hold when a recipient is looked at. -/
structure Reads where
  paused : ConsumerId → Bool
  inflight : ConsumerId → ℕ
  writeFailed : ConnectionId → Bool

/-- What the walk reads while it handles one entry: whether the stream has demand,
and the words for the recipient at each place of the loop. -/
structure EntryReads where
  hasDemand : Bool
  recipient : ℕ → Reads

/-- The part of `DrainScratch` a walk works on, with its two results. -/
structure Walk where
  caches : StreamCaches
  acc : Accumulator := []
  deliveries : List PendingNotify := []
  localInflight : ConsumerId → ℕ := fun _ => 0
  localSubject : ConsumerId → SubjectHash → ℕ := fun _ _ => 0
  morePending : Bool := false
  lowestSkipped : Option ℕ := none

def trackSkipped (lowest : Option ℕ) (seq : ℕ) : Option ℕ :=
  some (match lowest with | none => seq | some s => min s seq)

namespace Walk

/-- Skip an entry a recipient is owed: the cursor must not pass it. -/
def pin (w : Walk) (seq : ℕ) : Walk :=
  { w with morePending := true, lowestSkipped := trackSkipped w.lowestSkipped seq }

def openPending (w : Walk) (n : PendingNotify) : Walk :=
  { w with
    deliveries := w.deliveries ++ [n]
    localInflight := Function.update w.localInflight n.consumerId (w.localInflight n.consumerId + 1)
    localSubject := Function.update w.localSubject n.consumerId
      (Function.update (w.localSubject n.consumerId) n.subjectHash
        (w.localSubject n.consumerId n.subjectHash + 1)) }

end Walk

/-- The walk while one entry is dispatched: the queues and the fanout groups that
have their copy. -/
structure Dispatch where
  walk : Walk
  servedQueues : List QueueId := []
  servedGroups : List ℕ := []

/-- What the checks of the recipient loop decide. -/
inductive Verdict where
  | skip
  | pin
  /-- Deliver to binding `idx`; a collapsed sibling gets no wire copy. -/
  | send (idx : ℕ) (b : ActiveBinding) (collapsed : Bool)
  deriving DecidableEq, Repr

/-- What stays the same while an entry is dispatched. -/
structure Context where
  bindings : List ActiveBinding
  slots : Slots
  entry : StoreEntry
  subjectHash : SubjectHash
  subjectLimit : Option ℕ

namespace Context

variable (cx : Context)

/-- Is an ack-mode binding at its inflight limit? -/
def atCapacity (w : Walk) (r : Reads) (c : ConsumerId) (b : ActiveBinding) : Bool :=
  let pending := w.localInflight c
  b.maxInflight ≤ pending || !(r.inflight c < b.maxInflight - pending)

/-- Is the consumer at the limit of the subject? -/
def atSubjectLimit (w : Walk) (c : ConsumerId) : Bool :=
  match cx.subjectLimit with
  | none => false
  | some max => max ≤ w.localSubject c cx.subjectHash + cx.slots.get c cx.subjectHash

/-- The checks on one recipient, in the order of the source. -/
def verdict (d : Dispatch) (r : Reads) (me : MatchEntry) : Verdict :=
  if me.connectionId = 0 then .skip
  else if cx.slots.isSuppressed me.consumerId cx.entry.seq then .skip
  else if me.queueId ≠ 0 ∧ me.queueId ∈ d.servedQueues then .skip
  else
    match me.bindingIdx with
    | none => .skip
    | some idx =>
      match cx.bindings[idx]? with
      | none => .skip
      | some b =>
        let collapsed : Bool := me.queueId = 0 ∧ b.groupIdx ∈ d.servedGroups
        if collapsed && b.fireAndForget then .skip
        else if cx.entry.seq ≤ b.deliverFloor then .skip
        else if r.writeFailed b.connectionId then .skip
        else if r.paused me.consumerId then .pin
        else if !b.fireAndForget && atCapacity d.walk r me.consumerId b then .pin
        else if !b.fireAndForget && cx.atSubjectLimit d.walk me.consumerId then .pin
        else .send idx b collapsed

/-- The wire copy of the entry for a recipient. -/
def wireEntry (me : MatchEntry) (b : ActiveBinding) : WireEntry :=
  ⟨me.consumerId, cx.entry.seq, b.externalSubId, cx.entry.subject, cx.entry.replyAndPayload.1,
    cx.entry.replyAndPayload.2⟩

/-- Hand the entry to the accumulator and open the pending it owes. -/
def send (d : Dispatch) (me : MatchEntry) (idx : ℕ) (b : ActiveBinding) (collapsed : Bool) : Dispatch :=
  let w := if collapsed then d.walk
    else { d.walk with acc := d.walk.acc.add me.connectionId cx.entry.streamId (cx.wireEntry me b) }
  let w := if b.fireAndForget then w
    else w.openPending ⟨me.connectionId, cx.entry.streamId, idx, cx.entry.seq, cx.subjectHash, me.consumerId,
      me.queueId⟩
  if me.queueId = 0 then { d with walk := w, servedGroups := d.servedGroups ++ [b.groupIdx] }
  else { d with walk := w, servedQueues := d.servedQueues ++ [me.queueId] }

/-- One turn of the recipient loop. -/
def dispatchOne (reads : ℕ → Reads) (d : Dispatch) (me : MatchEntry × ℕ) : Dispatch :=
  match cx.verdict d (reads me.2) me.1 with
  | .skip => d
  | .pin => { d with walk := d.walk.pin cx.entry.seq }
  | .send idx b collapsed => cx.send d me.1 idx b collapsed

/-- `dispatch_recipients`: the loop starts at `seq % n` and wraps around. -/
def dispatchRecipients (reads : ℕ → Reads) (w : Walk) (recipients : List MatchEntry) : Walk :=
  ((recipients.rotate (cx.entry.seq % recipients.length)).zipIdx.foldl (cx.dispatchOne reads) ⟨w, [], []⟩).walk

end Context

/-! ## The walk -/

namespace MatchTable

def hasSubjectLimits (mt : MatchTable) : Bool := !mt.maxSubjectInflights.values.isEmpty || !mt.limitPatterns.isEmpty

end MatchTable

/-- What a cycle reads besides the shared words. -/
structure CycleEnv where
  wireHash32 : WireHash
  snap : DrainSnapshot
  slots : Slots
  /-- `DrainConfig::max_age_ms`. -/
  maxAgeMs : ℕ
  nowMs : ℕ

namespace CycleEnv

variable (env : CycleEnv)

/-- The retention of a stream: its own, or the global default. -/
def maxAge (id : StreamId) : ℕ :=
  if 0 < env.snap.streamMaxAgeMs id then env.snap.streamMaxAgeMs id else env.maxAgeMs

/-- Is the entry to be delivered at all: not expired (in a `u64` that wraps), not
tombstoned, not from an earlier holder of its stream id? -/
def live (e : StoreEntry) : Bool :=
  !(0 < env.maxAge e.streamId && 0 < e.timestamp &&
      (e.timestamp + env.maxAge e.streamId) % 2 ^ 64 ≤ env.nowMs) &&
    !e.tombstone &&
    !(0 < env.snap.streamCreatedAtSeq e.streamId && e.seq < env.snap.streamCreatedAtSeq e.streamId)

/-- The recipients of an entry: what the table says of its subject, then what the
cache says of its hash. -/
def recipients (caches : StreamCaches) (mt : MatchTable) (e : StoreEntry) : StreamCaches × List MatchEntry :=
  let h := env.wireHash32 e.subject
  let base := mt.lookupVerified h e.subject
  if mt.patterns.isEmpty then (caches, base)
  else
    let (caches, resolved) :=
      caches.resolvePatterns e.streamId (env.snap.streamCreatedAtSeq e.streamId) h e.subject mt
    (caches, resolved.foldl pushDedup base)

/-- The subject limit of an entry. -/
def subjectLimit (caches : StreamCaches) (mt : MatchTable) (e : StoreEntry) : StreamCaches × Option ℕ :=
  if mt.hasSubjectLimits then
    caches.resolveLimit e.streamId (env.snap.streamCreatedAtSeq e.streamId) (env.wireHash32 e.subject) e.subject mt
  else (caches, none)

def processDrainEntry (reads : EntryReads) (w : Walk) (e : StoreEntry) : Walk :=
  if !env.live e then w
  else if !reads.hasDemand then w
  else
    match env.snap.matchTable e.streamId with
    | none => w
    | some mt =>
      let (caches, recipients) := env.recipients w.caches mt e
      let (caches, limit) := env.subjectLimit caches mt e
      let w := { w with caches := caches }
      if recipients.isEmpty then w
      else
        let cx : Context := ⟨env.snap.bindings, env.slots, e, env.wireHash32 e.subject, limit⟩
        cx.dispatchRecipients reads.recipient w recipients

/-- The walk of `drain_read` over the entries of its window; `reads` says what the
walk sees at each seq. -/
def walk (reads : ℕ → EntryReads) (caches : StreamCaches) (window : List StoreEntry) : Walk :=
  window.foldl (fun w e => env.processDrainEntry (reads e.seq) w e) { caches := caches }

end CycleEnv

/-- `DrainReadResult`, of a walk. -/
structure ReadResult where
  start : ℕ
  stop : ℕ
  lastSeq : ℕ
  walk : Walk

inductive ReadVerdict where
  | noDemand
  | upToDate
  | fed (r : ReadResult)

/-- `drain_read`. `cursor` is what the cursor load returned, `changed` whether the
snapshot is another one than in the previous cycle. -/
def drainRead (env : CycleEnv) (anyDemand : Bool) (cursor maxFeed : ℕ) (store : StoreView)
    (reads : ℕ → EntryReads) (changed : Bool) (caches : StreamCaches) : ReadVerdict :=
  if !anyDemand then .noDemand
  else if store.lastSeq ≤ cursor then .upToDate
  else
    let start := cursor + 1
    let stop := min (start + maxFeed) (store.lastSeq + 1)
    let caches := if changed then ∅ else caches
    .fed ⟨start, stop, store.lastSeq, env.walk reads caches (store.range start stop)⟩

/-! ## Flush and bookkeeping -/

inductive FlushOutcome where
  | ok
  | backpressured (firstSeq : ℕ)
  | writerGone (firstSeq : ℕ)
  deriving DecidableEq, Repr

/-- The writer of a frame's connection at the moment of its flush. -/
structure WriterState where
  writeFailed : Bool
  /-- Does `try_send` find room? -/
  accepts : Bool

/-- What becomes of one frame. -/
def flushFrame (snap : DrainSnapshot) (ws : WriterState) (frame : Bucket) : FlushOutcome :=
  if !snap.hasWriter frame.connectionId then .writerGone frame.firstSeq
  else if ws.writeFailed then .writerGone frame.firstSeq
  else if ws.accepts then .ok
  else .backpressured frame.firstSeq

/-- A frame with what became of it. -/
abbrev Flushed := List (Bucket × FlushOutcome)

variable (bindings : List ActiveBinding) (flushed : Flushed) (deliveries : List PendingNotify)

/-- Phase 2 of `drain_deliver`: every frame in turn. -/
def flushAll (snap : DrainSnapshot) (writers : ℕ → WriterState) (frames : List Bucket) : Flushed :=
  frames.zipIdx.map fun fi => (fi.1, flushFrame snap (writers fi.2) fi.1)

/-- The first seq of a frame that was not sent. -/
def FlushOutcome.refused : FlushOutcome → Option ℕ
  | .ok => none
  | .backpressured s | .writerGone s => some s

/-- `frame_ok_for`: the outcome of the first frame of the connection. -/
def frameOkFor (conn : ConnectionId) : Bool :=
  ((flushed.find? (·.1.connectionId == conn)).map (·.2 == .ok)).getD false

/-- Phase 3, the skips: refused frames pin the cursor too. -/
def skippedAfter (lowest : Option ℕ) (flushed : Flushed) : Option ℕ :=
  (flushed.filterMap (·.2.refused)).foldl trackSkipped lowest

/-- What one recorded delivery does to the shared counters and to the drain's own
book. -/
def recordOne (book : SharedCounters × Slots) (d : PendingNotify) : SharedCounters × Slots :=
  (book.1.incInflight d.consumerId d.queueId,
    book.2.modify d.consumerId fun cs => (cs.inc d.subjectHash).suppress d.seq)

def recordDeliveries (book : SharedCounters × Slots) : SharedCounters × Slots :=
  deliveries.foldl (fun book d => if frameOkFor flushed d.conn then recordOne book d else book) book

/-- The deliveries that pass the test of `record_deliveries` and of
`notify_delivered_grouped`. -/
def recorded : List PendingNotify :=
  deliveries.filter fun d => frameOkFor flushed d.conn

/-- The groups of `notify_delivered_grouped`, each for one index into the bindings.
The slow path is a counting sort by index, with one group per index that has any;
the fast path is for one binding whose frames all went out. -/
def notifyGroups : List (ℕ × List PendingNotify) :=
  let grouped := (List.range bindings.length).filterMap fun idx =>
    let group := (recorded flushed deliveries).filter (·.bindingIdx == idx)
    if group.isEmpty then none else some (idx, group)
  match deliveries with
  | [] => grouped
  | first :: _ =>
    if deliveries.all (·.bindingIdx == first.bindingIdx) && deliveries.all (frameOkFor flushed ·.conn) then
      [(first.bindingIdx, deliveries)]
    else grouped

/-- The groups of the slow path, by a counting sort over the indices of the bindings. -/
def sortedGroups (accepted : List PendingNotify) : List (ℕ × List PendingNotify) :=
  (List.range bindings.length).filterMap fun idx =>
    let group := CountingSort.bucket PendingNotify.bindingIdx accepted idx
    if group.isEmpty then none else some (idx, group)

/-- The report of a group. -/
def deliveredTo (group : ℕ × List PendingNotify) : Option DrainNotification :=
  bindings[group.1]?.map fun b =>
    .delivered b.bindingId b.consumerId b.queueId (group.2.map fun d => ⟨d.seq, d.subjectHash⟩)

/-- The groups whose report found room in the ring; a report that finds none is
dropped. -/
def pushed (room : ℕ → Bool) (groups : List (ℕ × List PendingNotify)) : List (ℕ × List PendingNotify) :=
  (groups.zipIdx.filter fun gi => room gi.2).map Prod.fst

/-- `notify_delivered_grouped`: what the command task will find in the ring. -/
def notifyDeliveredGrouped (room : ℕ → Bool) (flushed : Flushed)
    (deliveries : List PendingNotify) : List DrainNotification :=
  (pushed room (notifyGroups bindings flushed deliveries)).filterMap (deliveredTo bindings)

/-- `record_deliveries`, then `notify_delivered_grouped`: the books, and the reports that
found room. A report that finds none is counted as a silent drop and nothing else. -/
def recordAndNotify (room : ℕ → Bool) (flushed : Flushed)
    (deliveries : List PendingNotify) (book : SharedCounters × Slots) :
    (SharedCounters × Slots) × List DrainNotification :=
  (recordDeliveries flushed deliveries book, notifyDeliveredGrouped bindings room flushed deliveries)

/-- `advance_cursor`. -/
def newCursor (r : ReadResult) (lowest : Option ℕ) : ℕ :=
  match lowest with
  | none => r.stop - 1
  | some s => s - 1

/-! ## Slow connections -/

/-- The stall clock (the connections it runs for) and the connections found dead. -/
structure Stall where
  stalled : List ConnectionId
  dead : List ConnectionId := []

/-- Phase 3 for one frame: a backpressured connection starts its clock or, when the
clock has run out, is dead; a connection without writer is dead at once. -/
def Stall.note (evict : Bool) (expired : ConnectionId → Bool) (s : Stall) (fo : Bucket × FlushOutcome) : Stall :=
  let conn := fo.1.connectionId
  match fo.2 with
  | .ok => s
  | .backpressured _ =>
    if !evict then s
    else if conn ∉ s.stalled then { s with stalled := s.stalled ++ [conn] }
    else if expired conn && !s.dead.contains conn then { s with dead := s.dead ++ [conn] }
    else s
  | .writerGone _ => { s with dead := s.dead ++ [conn] }

/-- Did a connection get a backpressured frame and no accepted one? -/
def stillStalled (flushed : Flushed) (conn : ConnectionId) : Bool :=
  let outcomes := (flushed.filter (·.1.connectionId == conn)).map Prod.snd
  (outcomes.any fun | .backpressured _ => true | _ => false) && !outcomes.contains .ok

/-- The dead connections of a cycle and the clocks that go on. -/
def stallAfter (evict : Bool) (expired : ConnectionId → Bool) (stalled : List ConnectionId)
    (flushed : Flushed) : Stall :=
  let s := flushed.foldl (Stall.note evict expired) ⟨stalled, []⟩
  { s with stalled := s.stalled.filter (stillStalled flushed) }

/-! ## Cycles -/

/-- The drain's configuration. -/
structure DrainConfig where
  maxFeed : ℕ
  maxAgeMs : ℕ
  stallEvict : Bool
  feeds : 0 < maxFeed

def DrainConfig.default : DrainConfig := ⟨256, 0, false, by decide⟩

/-- What one turn of the drain loop finds: the snapshot it loads (by the number of
its publication), its own book after the event ring, the cursor, the store, and
what the shared words and the writers show. -/
structure Cycle where
  snapId : ℕ
  slots : Slots
  cursor : ℕ
  anyDemand : Bool
  store : StoreView
  nowMs : ℕ
  reads : ℕ → EntryReads
  writers : ℕ → WriterState

/-- What the drain loop remembers of earlier cycles while it walks. -/
structure Memory where
  caches : StreamCaches := ∅
  /-- The snapshot of the previous cycle. -/
  prevSnap : Option ℕ := none

/-- A cycle that walked: what it read, what became of the frames. -/
structure CycleResult where
  read : ReadResult
  flushed : Flushed

namespace CycleResult

/-- The lowest seq that must be walked again. -/
def lowest (r : CycleResult) : Option ℕ := skippedAfter r.read.walk.lowestSkipped r.flushed

/-- Where the cycle leaves the cursor. -/
def cursor (r : CycleResult) : ℕ := newCursor r.read r.lowest

end CycleResult

section Turn

variable (wireHash32 : WireHash) (cfg : DrainConfig) (snaps : ℕ → DrainSnapshot) (m : Memory) (c : Cycle)

/-- `cycle_now_ms`: the clock is read only where the drain has a max age of its own. -/
def cycleNowMs (clock : ℕ) : ℕ := if 0 < cfg.maxAgeMs then clock else 0

def Cycle.env : CycleEnv := ⟨wireHash32, snaps c.snapId, c.slots, cfg.maxAgeMs, c.nowMs⟩

/-- Is the snapshot another one than in the previous cycle? -/
def Memory.changed : Bool := m.prevSnap != some c.snapId

/-- `drain_read` in a turn of the loop. -/
def Memory.read : ReadVerdict :=
  drainRead (c.env wireHash32 cfg snaps) c.anyDemand c.cursor cfg.maxFeed c.store c.reads (m.changed c) m.caches

/-- The walk and the flush of a turn, if there is anything to walk. -/
def Memory.cycle : Option CycleResult :=
  match m.read wireHash32 cfg snaps c with
  | .fed r => some ⟨r, flushAll (snaps c.snapId) c.writers r.walk.acc.frames⟩
  | _ => none

/-- What the loop remembers afterwards. The snapshot is remembered in every turn,
the caches change in a turn that walks. -/
def Memory.next : Memory where
  caches := match m.read wireHash32 cfg snaps c with
    | .fed r => r.walk.caches
    | _ => m.caches
  prevSnap := some c.snapId

end Turn

end Arbitro
