import Arbitro.Proof.Walk

/-!
# The log of a walk

Two lists tell what a walk did: `copies`, who got which entry, and `pins`, who was
passed over although owed, each in order. The frames, the deliveries and the
lowest skip a walk leaves behind are functions of them, and what the checks of
the recipient loop guarantee is a property of their members and of their pairs.

* `walk_eq`: the walk from its log.
* `copies_passed`: every copy passed every check.
* `copies_ordered`: one copy per queue, and one wire copy per group, of each entry.
* `Context.answered`: a recipient that is owed an entry has a copy, or a sibling has,
  or it pins the cursor.
-/

namespace Arbitro

open List Pairwise

/-- A recipient that got an entry: by a wire copy of its own or, collapsed, by that
of its group. -/
structure Copy where
  entry : StoreEntry
  recipient : MatchEntry
  idx : ℕ
  binding : ActiveBinding
  collapsed : Bool
  deriving DecidableEq

namespace Copy

/-- The delivery an ack-mode copy opens. -/
def delivery (wh : WireHash) (x : Copy) : Option PendingNotify :=
  if x.binding.fireAndForget then none
  else some ⟨x.recipient.connectionId, x.entry.streamId, x.idx, x.entry.seq, wh x.entry.subject,
    x.recipient.consumerId, x.recipient.queueId⟩

/-- The wire entry of a copy. -/
def wire (x : Copy) : WireEntry :=
  ⟨x.recipient.consumerId, x.entry.seq, x.binding.externalSubId, x.entry.subject, x.entry.replyAndPayload.1,
    x.entry.replyAndPayload.2⟩

/-- A copy on its way into the accumulator. -/
def addTo (acc : Accumulator) (x : Copy) : Accumulator :=
  if x.collapsed then acc else acc.add x.recipient.connectionId x.entry.streamId x.wire

/-- Two copies of one entry do not go to the same queue, and a wire copy does not go
to a group that has one. -/
structure Exclusive (x y : Copy) : Prop where
  queue : y.recipient.queueId ≠ 0 → x.recipient.queueId ≠ y.recipient.queueId
  group : x.recipient.queueId = 0 → y.recipient.queueId = 0 → y.collapsed = false →
    x.binding.groupIdx ≠ y.binding.groupIdx

/-- The order of a walk: by seq, and exclusive within an entry. -/
def Before (x y : Copy) : Prop := x.entry.seq < y.entry.seq ∨ (x.entry = y.entry ∧ x.Exclusive y)

end Copy

/-! ## One entry -/

namespace Context

variable (cx : Context) (reads : ℕ → Reads)

/-- The copy a recipient gets, if any. -/
def copyOf (d : Dispatch) (r : Reads) (me : MatchEntry) : Option Copy :=
  match cx.verdict d r me with
  | .send idx b collapsed => some ⟨cx.entry, me, idx, b, collapsed⟩
  | _ => none

/-- The recipient, if it pins the cursor. -/
def pinOf (d : Dispatch) (r : Reads) (me : MatchEntry) : Option MatchEntry :=
  if cx.verdict d r me = .pin then some me else none

/-- The copies of the recipient loop, from a state on. -/
def copies : Dispatch → List (MatchEntry × ℕ) → List Copy
  | _, [] => []
  | d, me :: l => (cx.copyOf d (reads me.2) me.1).toList ++ copies (cx.dispatchOne reads d me) l

/-- The recipients that pin the cursor, from a state on: `verdict_pin` says what they
read. -/
def pins : Dispatch → List (MatchEntry × ℕ) → List MatchEntry
  | _, [] => []
  | d, me :: l => (cx.pinOf d (reads me.2) me.1).toList ++ pins (cx.dispatchOne reads d me) l

variable {b : ActiveBinding} {wh : WireHash} (l : List (MatchEntry × ℕ)) (d : Dispatch)

/-- **One turn**: the recipient is passed over, pins the cursor, or passed every check
and gets a copy. -/
theorem turn_cases (me : MatchEntry) (i : ℕ) :
    (cx.verdict d (reads i) me = .skip ∧ cx.copyOf d (reads i) me = none ∧ cx.pinOf d (reads i) me = none ∧
      cx.dispatchOne reads d (me, i) = d) ∨ (cx.copyOf d (reads i) me = none ∧ cx.pinOf d (reads i) me = some me ∧
      cx.dispatchOne reads d (me, i) = { d with walk := d.walk.pin cx.entry.seq }) ∨
    ∃ idx b collapsed, cx.copyOf d (reads i) me = some ⟨cx.entry, me, idx, b, collapsed⟩ ∧
      cx.pinOf d (reads i) me = none ∧ cx.Sends d (reads i) me idx b collapsed ∧
      cx.dispatchOne reads d (me, i) = cx.send d me idx b collapsed := by
  unfold copyOf pinOf dispatchOne
  cases h : cx.verdict d (reads i) me with
  | skip => exact .inl ⟨rfl, rfl, rfl, rfl⟩
  | pin => exact .inr (.inl ⟨rfl, rfl, rfl⟩)
  | send idx b collapsed => exact .inr (.inr ⟨idx, b, collapsed, rfl, rfl, verdict_send h, rfl⟩)

/-- What a turn does to each part of the state, from what it logs. -/
theorem dispatchOne_eq (hwh : cx.subjectHash = wh cx.entry.subject) (me : MatchEntry × ℕ) :
    let w := (cx.dispatchOne reads d me).walk
    let copied := (cx.copyOf d (reads me.2) me.1).toList
    w.deliveries = d.walk.deliveries ++ copied.filterMap (Copy.delivery wh) ∧
      w.acc = copied.foldl Copy.addTo d.walk.acc ∧
      w.lowestSkipped = ((cx.pinOf d (reads me.2) me.1).toList.map fun _ => cx.entry.seq).foldl trackSkipped
        d.walk.lowestSkipped ∧
      w.caches = d.walk.caches := by
  obtain ⟨me, i⟩ := me
  rcases cx.turn_cases reads d me i with ⟨-, hc, hp, hd⟩ | ⟨hc, hp, hd⟩ | ⟨idx, b, collapsed, hc, hp, -, hd⟩
  · simp [hc, hp, hd]
  · simp [hc, hp, hd, Walk.pin]
  obtain ⟨hacc, hlow, hcaches, hdel, -⟩ := cx.send_spec d me idx b collapsed
  have hdelivery : (if b.fireAndForget then [] else [cx.notify me idx]) =
      [(⟨cx.entry, me, idx, b, collapsed⟩ : Copy)].filterMap (Copy.delivery wh) := by
    cases hf : b.fireAndForget <;> simp [Copy.delivery, notify, hwh, hf]
  simp only [hc, hp, hd, Option.toList_some, Option.toList_none, map_nil, foldl_nil]
  exact ⟨by rw [hdel, hdelivery], hacc, hlow, hcaches⟩

/-- **The loop, from its log.** -/
theorem dispatch_eq (hwh : cx.subjectHash = wh cx.entry.subject) : ∀ (l : List (MatchEntry × ℕ)) (d : Dispatch),
      let w := (l.foldl (cx.dispatchOne reads) d).walk
      w.deliveries = d.walk.deliveries ++ (cx.copies reads d l).filterMap (Copy.delivery wh) ∧
        w.acc = (cx.copies reads d l).foldl Copy.addTo d.walk.acc ∧
        w.lowestSkipped = ((cx.pins reads d l).map fun _ => cx.entry.seq).foldl trackSkipped d.walk.lowestSkipped ∧
        w.caches = d.walk.caches := by
  intro l
  induction l with
  | nil => intro d; simp [copies, pins]
  | cons me l ih =>
    intro d
    obtain ⟨hdel, hacc, hlow, hcaches⟩ := ih (cx.dispatchOne reads d me)
    obtain ⟨hdel₁, hacc₁, hlow₁, hcaches₁⟩ := cx.dispatchOne_eq reads d hwh me
    simp only [foldl_cons, copies, pins, filterMap_append, map_append, foldl_append]
    rw [hdel, hacc, hlow, hcaches, hdel₁, hacc₁, hlow₁, hcaches₁, append_assoc]
    exact ⟨rfl, rfl, rfl, rfl⟩

/-- What is served after a turn: what was, and the queue or the group of its copy. -/
theorem mem_served (me : MatchEntry × ℕ) :
    (∀ q, q ∈ (cx.dispatchOne reads d me).servedQueues ↔ q ∈ d.servedQueues ∨
      ∃ x ∈ (cx.copyOf d (reads me.2) me.1).toList, x.recipient.queueId ≠ 0 ∧ x.recipient.queueId = q) ∧
    ∀ g, g ∈ (cx.dispatchOne reads d me).servedGroups ↔ g ∈ d.servedGroups ∨
      ∃ x ∈ (cx.copyOf d (reads me.2) me.1).toList, x.recipient.queueId = 0 ∧ x.binding.groupIdx = g := by
  obtain ⟨me, i⟩ := me
  rcases cx.turn_cases reads d me i with ⟨-, hc, -, hd⟩ | ⟨hc, -, hd⟩ | ⟨idx, b, collapsed, hc, -, -, hd⟩
  · simp [hc, hd]
  · simp [hc, hd]
  obtain ⟨-, -, -, -, hg, hq⟩ := cx.send_spec d me idx b collapsed
  rw [hd, hg, hq]
  by_cases h0 : me.queueId = 0
  · simp [hc, h0, eq_comm]
  · simp [hc, h0, eq_comm]

variable {cx reads d}

theorem mem_copyOf {r : Reads} {me : MatchEntry} {x : Copy} (h : x ∈ (cx.copyOf d r me).toList) :
    x.entry = cx.entry ∧ x.recipient = me ∧ cx.Sends d r me x.idx x.binding x.collapsed := by
  unfold copyOf at h
  cases hv : cx.verdict d r me with
  | skip => rw [hv] at h; cases h
  | pin => rw [hv] at h; cases h
  | send idx b collapsed =>
    rw [hv] at h
    cases mem_singleton.1 h
    exact ⟨rfl, rfl, verdict_send hv⟩

/-- A group that is served at some turn was served at the start, or has a copy. -/
theorem served_of_turn {me : MatchEntry × ℕ} {g : ℕ}
    (hg : g ∈ (cx.dispatchOne reads d me).servedGroups) : g ∈ d.servedGroups ∨
      ∃ y ∈ (cx.copyOf d (reads me.2) me.1).toList, y.recipient.queueId = 0 ∧ y.collapsed = false ∧
        y.binding.groupIdx = g := by
  rcases ((cx.mem_served reads d me).2 g).1 hg with hg | ⟨y, hy, h0, rfl⟩
  · exact .inl hg
  cases hc : y.collapsed with
  | true =>
    obtain ⟨-, -, hs⟩ := mem_copyOf hy
    exact .inl (hs.group.1 hc).2
  | false => exact .inr ⟨y, hy, h0, hc, rfl⟩

variable (d)

/-- Every copy is of the entry at hand and passed every check. -/
theorem copies_sends : ∀ x ∈ cx.copies reads d l, x.entry = cx.entry ∧ ∃ i d', (x.recipient, i) ∈ l ∧
      cx.Sends d' (reads i) x.recipient x.idx x.binding x.collapsed := by
  induction l generalizing d with
  | nil => intro x hx; cases hx
  | cons me l ih =>
    intro x hx
    rcases mem_append.1 hx with hx | hx
    · obtain ⟨he, hr, hs⟩ := mem_copyOf hx
      exact ⟨he, me.2, d, by rw [hr]; exact mem_cons_self, by rw [hr]; exact hs⟩
    · obtain ⟨he, j, d', hj, hs⟩ := ih _ x hx
      exact ⟨he, j, d', mem_cons_of_mem _ hj, hs⟩

/-- A copy goes to a queue, or as a wire copy to a group, that is not served yet. -/
theorem copies_unserved : ∀ x ∈ cx.copies reads d l, (x.recipient.queueId ≠ 0 → x.recipient.queueId ∉ d.servedQueues) ∧
      (x.recipient.queueId = 0 → x.collapsed = false → x.binding.groupIdx ∉ d.servedGroups) := by
  induction l generalizing d with
  | nil => intro x hx; cases hx
  | cons me l ih =>
    intro x hx
    rcases mem_append.1 hx with hx | hx
    · obtain ⟨-, hr, hs⟩ := mem_copyOf hx
      rw [hr]
      refine ⟨hs.queue, fun hq hc hmem => ?_⟩
      have := hs.group.2 ⟨hq, hmem⟩
      rw [hc] at this
      cases this
    · obtain ⟨hq, hg⟩ := ih _ x hx
      obtain ⟨hqm, hgm⟩ := cx.mem_served reads d me
      exact ⟨fun hne hmem => hq hne ((hqm _).2 (.inl hmem)), fun h0 hc hmem => hg h0 hc ((hgm _).2 (.inl hmem))⟩

/-- **One copy per queue, one wire copy per group.** -/
theorem copies_exclusive : (cx.copies reads d l).Pairwise Copy.Exclusive := by
  induction l generalizing d with
  | nil => exact nil
  | cons me l ih =>
    refine pairwise_append.2 ⟨?_, ih _, fun x hx y hy => ?_⟩
    · cases cx.copyOf d (reads me.2) me.1 with
      | none => exact nil
      | some x => exact pairwise_singleton _ _
    obtain ⟨hq, hg⟩ := copies_unserved l _ y hy
    obtain ⟨hqm, hgm⟩ := cx.mem_served reads d me
    constructor
    · intro hne heq
      exact hq hne ((hqm _).2 (.inr ⟨x, hx, by rw [heq]; exact hne, heq⟩))
    · intro h0 hy0 hc heq
      exact hg hy0 hc ((hgm _).2 (.inr ⟨x, hx, h0, heq⟩))

/-- The copies that answer for a recipient: its own, one for its queue, or a wire copy
for its group. -/
def Answers (y : Copy) (me : MatchEntry) (b : ActiveBinding) : Prop :=
  (me.queueId ≠ 0 ∧ y.recipient.queueId = me.queueId) ∨ (y.collapsed = false ∧ y.binding.groupIdx = b.groupIdx)

/-- **A recipient that is owed the entry** pins the cursor or is answered by a recipient
of its queue, or of none like itself, unless its queue or its group was served before. -/
theorem answered : ∀ me ∈ l, cx.Owed reads me.1 b → me.1 ∈ cx.pins reads d l ∨
      (∃ y ∈ cx.copies reads d l, Answers y me.1 b ∧ y.recipient.queueId = me.1.queueId) ∨
      (me.1.queueId ≠ 0 ∧ me.1.queueId ∈ d.servedQueues) ∨ (me.1.queueId = 0 ∧ b.groupIdx ∈ d.servedGroups) := by
  induction l generalizing d with
  | nil => intro me hme; cases hme
  | cons z l ih =>
    intro me hme ho
    rcases mem_cons.1 hme with rfl | hme
    · obtain ⟨me, i⟩ := me
      rcases cx.turn_cases reads d me i with ⟨hv, -⟩ | ⟨-, hp, -⟩ | ⟨idx, b', collapsed, hc, -, hs, -⟩
      · rcases ho.skip hv with hq | ⟨h0, hg, -⟩
        · exact .inr (.inr (.inl hq))
        · exact .inr (.inr (.inr ⟨h0, hg⟩))
      · exact .inl (mem_append_left _ (by rw [hp]; exact mem_singleton_self _))
      cases ho.sends hs
      cases hcol : collapsed with
      | true => exact .inr (.inr (.inr (hs.group.1 hcol)))
      | false =>
        refine .inr (.inl ⟨⟨cx.entry, me, idx, b, collapsed⟩, mem_append_left _ ?_, .inr ⟨hcol, rfl⟩, rfl⟩)
        rw [hc]
        exact mem_singleton_self _
    · rcases ih (cx.dispatchOne reads d z) me hme ho with h | ⟨y, hy, hans⟩ | ⟨hne, hq⟩ | ⟨h0, hg⟩
      · exact .inl (mem_append_right _ h)
      · exact .inr (.inl ⟨y, mem_append_right _ hy, hans⟩)
      · -- the queue was served before this turn, or by it
        rcases ((cx.mem_served reads d z).1 _).1 hq with hq | ⟨y, hy, -, hyq⟩
        · exact .inr (.inr (.inl ⟨hne, hq⟩))
        · exact .inr (.inl ⟨y, mem_append_left _ hy, .inl ⟨hne, hyq⟩, hyq⟩)
      · rcases served_of_turn hg with hg | ⟨y, hy, hy0, hrest⟩
        · exact .inr (.inr (.inr ⟨h0, hg⟩))
        · exact .inr (.inl ⟨y, mem_append_left _ hy, .inr hrest, by rw [hy0, h0]⟩)

/-- A fan-out recipient in ack mode is never passed over for a sibling. -/
theorem own_copy (hack : b.fireAndForget = false) : ∀ me ∈ l, cx.Owed reads me.1 b → me.1.queueId = 0 →
      me.1 ∈ cx.pins reads d l ∨ ∃ y ∈ cx.copies reads d l, y.recipient = me.1 ∧ y.binding = b := by
  induction l generalizing d with
  | nil => intro me hme; cases hme
  | cons z l ih =>
    intro me hme ho h0
    rcases mem_cons.1 hme with rfl | hme
    · obtain ⟨me, i⟩ := me
      rcases cx.turn_cases reads d me i with ⟨hv, -⟩ | ⟨-, hp, -⟩ | ⟨idx, b', collapsed, hc, -, hs, -⟩
      · rcases ho.skip hv with ⟨hq, -⟩ | ⟨-, -, hf⟩
        · exact absurd h0 hq
        · rw [hack] at hf
          cases hf
      · exact .inl (mem_append_left _ (by rw [hp]; exact mem_singleton_self _))
      · cases ho.sends hs
        exact .inr ⟨_, mem_append_left _ (by rw [hc]; exact mem_singleton_self _), rfl, rfl⟩
    · rcases ih (cx.dispatchOne reads d z) me hme ho h0 with h | ⟨y, hy, hrest⟩
      · exact .inl (mem_append_right _ h)
      · exact .inr ⟨y, mem_append_right _ hy, hrest⟩

theorem copies_pairwise {R : MatchEntry → MatchEntry → Prop}
    (h : (l.map Prod.fst).Pairwise R) : (cx.copies reads d l).Pairwise fun x y => R x.recipient y.recipient := by
  induction l generalizing d with
  | nil => exact nil
  | cons me l ih =>
    obtain ⟨hme, hl⟩ := pairwise_cons.1 h
    refine pairwise_append.2 ⟨?_, ih _ hl, fun x hx y hy => ?_⟩
    · cases cx.copyOf d (reads me.2) me.1 with
      | none => exact nil
      | some x => exact pairwise_singleton _ _
    · obtain ⟨-, i, -, hi, -⟩ := copies_sends l _ y hy
      rw [(mem_copyOf hx).2.1]
      exact hme _ (mem_map.2 ⟨_, hi, rfl⟩)

end Context

/-! ## One walk -/

namespace CycleEnv

variable (env : CycleEnv)

/-- The copies of one entry. -/
def copiesOf (reads : EntryReads) (w : Walk) (e : StoreEntry) : List Copy :=
  match env.target reads w e with
  | none => []
  | some (w', cx, recipients) => cx.copies reads.recipient ⟨w', [], []⟩ (turns e recipients)

/-- The recipients that pin the cursor before one entry. -/
def pinsOf (reads : EntryReads) (w : Walk) (e : StoreEntry) : List (StoreEntry × MatchEntry) :=
  match env.target reads w e with
  | none => []
  | some (w', cx, recipients) => (cx.pins reads.recipient ⟨w', [], []⟩ (turns e recipients)).map fun me => (e, me)

/-- The copies of a walk. -/
def copies (reads : ℕ → EntryReads) : Walk → List StoreEntry → List Copy
  | _, [] => []
  | w, e :: es => env.copiesOf (reads e.seq) w e ++ copies reads (env.processDrainEntry (reads e.seq) w e) es

/-- The pins of a walk. -/
def pins (reads : ℕ → EntryReads) : Walk → List StoreEntry → List (StoreEntry × MatchEntry)
  | _, [] => []
  | w, e :: es => env.pinsOf (reads e.seq) w e ++ pins reads (env.processDrainEntry (reads e.seq) w e) es

theorem processDrainEntry_log (reads : EntryReads) (w : Walk) (e : StoreEntry) :
    let w' := env.processDrainEntry reads w e
    w'.deliveries = w.deliveries ++ (env.copiesOf reads w e).filterMap (Copy.delivery env.wireHash32) ∧
      w'.acc = (env.copiesOf reads w e).foldl Copy.addTo w.acc ∧
      w'.lowestSkipped = ((env.pinsOf reads w e).map (·.1.seq)).foldl trackSkipped w.lowestSkipped ∧
      w'.caches = ((env.target reads w e).map (·.1.caches)).getD w.caches := by
  rw [processDrainEntry_eq]
  unfold copiesOf pinsOf
  cases h : env.target reads w e with
  | none => simp
  | some found =>
    obtain ⟨w', cx, recipients⟩ := found
    obtain ⟨⟨hw, -⟩, ⟨-, -, hentry, hhash⟩, -⟩ := target_spec h
    have hwh : cx.subjectHash = env.wireHash32 cx.entry.subject := by rw [hhash, hentry]
    obtain ⟨hdel, hacc, hlow, hcaches⟩ := cx.dispatch_eq reads.recipient hwh (turns e recipients) ⟨w', [], []⟩
    have hfields : w'.deliveries = w.deliveries ∧ w'.acc = w.acc ∧ w'.lowestSkipped = w.lowestSkipped := by
      rw [hw]; exact ⟨rfl, rfl, rfl⟩
    refine ⟨hdel.trans ?_, hacc.trans ?_, hlow.trans ?_, hcaches⟩
    · rw [hfields.1]
    · rw [hfields.2.1]
    · rw [hfields.2.2, map_map, hentry]
      rfl

variable (reads : ℕ → EntryReads)

/-- **The walk, from its log.** -/
theorem walk_eq : ∀ (es : List StoreEntry) (w : Walk),
    let w' := es.foldl (fun w e => env.processDrainEntry (reads e.seq) w e) w
    w'.deliveries = w.deliveries ++ (env.copies reads w es).filterMap (Copy.delivery env.wireHash32) ∧
      w'.acc = (env.copies reads w es).foldl Copy.addTo w.acc ∧
      w'.lowestSkipped = ((env.pins reads w es).map (·.1.seq)).foldl trackSkipped w.lowestSkipped := by
  intro es
  induction es with
  | nil => intro w; simp [copies, pins]
  | cons e es ih =>
    intro w
    obtain ⟨hdel, hacc, hlow⟩ := ih (env.processDrainEntry (reads e.seq) w e)
    obtain ⟨hdel₁, hacc₁, hlow₁, -⟩ := env.processDrainEntry_log (reads e.seq) w e
    simp only [foldl_cons, copies, pins, filterMap_append, map_append, foldl_append]
    rw [hdel, hacc, hlow, hdel₁, hacc₁, hlow₁, append_assoc]
    exact ⟨rfl, rfl, rfl⟩

/-- A copy passed every check of the loop. -/
structure Passed (env : CycleEnv) (reads : EntryReads) (x : Copy) : Prop where
  live : env.live x.entry = true
  demand : reads.hasDemand = true
  connected : x.recipient.connectionId ≠ 0
  unsuppressed : env.slots.isSuppressed x.recipient.consumerId x.entry.seq = false
  bound : x.recipient.bindingIdx = some x.idx
  binding : env.snap.bindings[x.idx]? = some x.binding
  fanout : x.collapsed = true → x.recipient.queueId = 0
  ackMode : x.collapsed = true → x.binding.fireAndForget = false
  floor : x.binding.deliverFloor < x.entry.seq
  unpaused : ∃ i, (reads.recipient i).paused x.recipient.consumerId = false

theorem mem_copiesOf {env : CycleEnv} {reads : EntryReads} {w : Walk} {e : StoreEntry} {x : Copy}
    (hx : x ∈ env.copiesOf reads w e) :
    ∃ w' cx recipients, env.target reads w e = some (w', cx, recipients) ∧ x.recipient ∈ recipients ∧
      x.entry = cx.entry ∧ ∃ i d, cx.Sends d (reads.recipient i) x.recipient x.idx x.binding x.collapsed := by
  unfold copiesOf at hx
  cases h : env.target reads w e with
  | none => rw [h] at hx; cases hx
  | some found =>
    obtain ⟨w', cx, recipients⟩ := found
    rw [h] at hx
    obtain ⟨hxe, i, d, hi, hs⟩ := Context.copies_sends (turns e recipients) ⟨w', [], []⟩ x hx
    exact ⟨w', cx, recipients, rfl, mem_turns.2 ⟨i, hi⟩, hxe, i, d, hs⟩

theorem copiesOf_passed (reads : EntryReads) (w : Walk) (e : StoreEntry) :
    ∀ x ∈ env.copiesOf reads w e, x.entry = e ∧ env.Passed reads x := by
  intro x hx
  obtain ⟨w', cx, recipients, h, -, hxe, i, d, hs⟩ := mem_copiesOf hx
  obtain ⟨⟨-, hlive, hdemand⟩, ⟨hbindings, hslots, hentry, -⟩, -⟩ := target_spec h
  have hxe' : x.entry = e := hxe.trans hentry
  refine ⟨hxe', by rw [hxe']; exact hlive, hdemand, hs.connected, ?_, hs.bound, ?_, fun hc => (hs.group.1 hc).1,
    hs.ackMode, ?_, i, hs.unpaused⟩
  · rw [hxe, ← hslots]; exact hs.unsuppressed
  · rw [← hbindings]; exact hs.binding
  · rw [hxe]; exact hs.floor

variable (es : List StoreEntry) (w : Walk)

/-- **Every copy of a walk is of an entry of the window and passed every check.** -/
theorem copies_passed : ∀ x ∈ env.copies reads w es, x.entry ∈ es ∧ env.Passed (reads x.entry.seq) x := by
  induction es generalizing w with
  | nil => intro x hx; cases hx
  | cons e es ih =>
    intro x hx
    rcases mem_append.1 hx with hx | hx
    · obtain ⟨he, hp⟩ := env.copiesOf_passed (reads e.seq) w e x hx
      exact ⟨by rw [he]; exact mem_cons_self, by rw [he]; exact hp⟩
    · obtain ⟨he, hp⟩ := ih _ x hx
      exact ⟨mem_cons_of_mem _ he, hp⟩

theorem copiesOf_exclusive (reads : EntryReads) (w : Walk) (e : StoreEntry) :
    (env.copiesOf reads w e).Pairwise Copy.Exclusive := by
  unfold copiesOf
  cases env.target reads w e with
  | none => exact nil
  | some found => exact Context.copies_exclusive _ _

/-- **The log is in the order of the seqs, and exclusive within an entry.** -/
theorem copies_ordered (hsorted : es.Pairwise (·.seq < ·.seq)) : (env.copies reads w es).Pairwise Copy.Before := by
  induction es generalizing w with
  | nil => exact nil
  | cons e es ih =>
    obtain ⟨hlt, hsorted⟩ := pairwise_cons.1 hsorted
    refine pairwise_append.2 ⟨?_, ih _ hsorted, ?_⟩
    · refine imp_of_mem ?_ (env.copiesOf_exclusive (reads e.seq) w e)
      intro x y hx hy hxy
      have hxe := (env.copiesOf_passed _ _ _ x hx).1
      have hye := (env.copiesOf_passed _ _ _ y hy).1
      exact .inr ⟨by rw [hxe, hye], hxy⟩
    · intro x hx y hy
      have hxe := (env.copiesOf_passed _ _ _ x hx).1
      have hye := (env.copies_passed reads es _ y hy).1
      exact .inl (by rw [hxe]; exact hlt _ hye)

theorem pins_window : ∀ p ∈ env.pins reads w es, p.1 ∈ es := by
  induction es generalizing w with
  | nil => intro p hp; cases hp
  | cons e es ih =>
    intro p hp
    rcases mem_append.1 hp with hp | hp
    · unfold pinsOf at hp
      cases h : env.target (reads e.seq) w e with
      | none => rw [h] at hp; cases hp
      | some found =>
        rw [h] at hp
        obtain ⟨me, -, rfl⟩ := mem_map.1 hp
        exact mem_cons_self
    · exact mem_cons_of_mem _ (ih _ p hp)

end CycleEnv

/-! ## The frames of a log -/

namespace Accumulator

variable {acc : Accumulator} {conn : ConnectionId} {stream : StreamId} {c : ConsumerId} {seq : ℕ} (xs : List Copy)

theorem Carries.addTo (h : acc.Carries conn stream c seq) (x : Copy) : (x.addTo acc).Carries conn stream c seq := by
  unfold Copy.addTo
  split
  · exact h
  · exact h.add _ _ _

/-- Copies come in the order of their seqs, so the frames stay within their bounds. -/
theorem OK.foldl_addTo {lo top : ℕ} (acc : Accumulator) (hi : ℕ) (h : acc.OK lo hi)
    (hsorted : xs.Pairwise (·.entry.seq ≤ ·.entry.seq))
    (hbounds : ∀ x ∈ xs, hi ≤ x.entry.seq ∧ lo ≤ x.entry.seq ∧ x.entry.seq ≤ top) :
    hi ≤ top → Accumulator.OK (xs.foldl Copy.addTo acc) lo top := by
  induction xs generalizing acc hi with
  | nil => intro htop; exact h.mono htop
  | cons x xs ih =>
    intro _
    obtain ⟨hle, hsorted⟩ := pairwise_cons.1 hsorted
    obtain ⟨hhi, hlo, htop⟩ := hbounds x mem_cons_self
    refine ih (x.addTo acc) x.entry.seq ?_ hsorted
      (fun y hy => ⟨hle y hy, (hbounds y (mem_cons_of_mem _ hy)).2⟩) htop
    unfold Copy.addTo
    split
    · exact h.mono hhi
    · exact OK.add (e := x.wire) h hhi hlo

theorem carries_copy (acc : Accumulator) : ∀ x ∈ xs, x.collapsed = false →
    (xs.foldl Copy.addTo acc).Carries x.recipient.connectionId x.entry.streamId x.recipient.consumerId x.entry.seq := by
  induction xs generalizing acc with
  | nil => intro x hx; cases hx
  | cons y xs ih =>
    intro x hx hc
    rcases mem_cons.1 hx with rfl | hx
    · refine foldlRecOn xs Copy.addTo (motive := fun acc : Accumulator => acc.Carries _ _ _ _) ?_ fun _ h z _ => h.addTo z
      unfold Copy.addTo
      rw [hc]
      exact carries_add_self
    · exact ih _ x hx hc

end Accumulator

end Arbitro
