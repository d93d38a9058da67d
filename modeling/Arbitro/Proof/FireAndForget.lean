import Arbitro.Lib.Run
import Arbitro.Proof.Tables
import Arbitro.Proof.Turn

/-!
# Fire-and-forget deliveries

A binding without acks has no delivery memory: what keeps it from getting an
entry twice is the cursor alone. A cycle that sends it an entry and is pinned at
or below that entry by somebody else sends it again in the next cycle.

* `Loop`: the drain loop when nobody else writes the cursor.
* `copies_once`: within a cycle a binding gets one wire copy of an entry.
* `fire_and_forget_once`: over a run in which no cycle is pinned at or below a
  fire-and-forget entry it sent, every such entry is sent once.
-/

namespace Arbitro

open MatchTable List

/-! ## Within a cycle -/

namespace CycleEnv

variable {env : CycleEnv}

theorem recipients_distinct (hsnap : env.snap.OK) {mt : MatchTable} {e : StoreEntry}
    (hmt : env.snap.matchTable e.streamId = some mt) {caches : StreamCaches} :
    Distinct (· ∈ (env.recipients caches mt e).2) := by
  have hbase : Distinct (· ∈ mt.lookupVerified (env.wireHash32 e.subject) e.subject) := by
    intro a b ha hb hab
    exact hsnap.distinct _ mt hmt a b (has_of_lookup ha) (has_of_lookup hb) hab
  unfold recipients
  split
  · exact hbase
  · exact Distinct.foldl_pushDedup _ _ hbase

theorem copiesOf_distinct (hsnap : env.snap.OK) {reads : EntryReads} {w : Walk} {e : StoreEntry} {x y : Copy}
    (hx : x ∈ env.copiesOf reads w e) (hy : y ∈ env.copiesOf reads w e)
    (hxy : x.recipient.same y.recipient = true) : x.recipient = y.recipient := by
  obtain ⟨w', cx, recipients, h, hx, -⟩ := mem_copiesOf hx
  obtain ⟨_, _, _, h', hy, -⟩ := mem_copiesOf hy
  rw [h] at h'
  cases h'
  obtain ⟨-, -, mt, hmt, hrec, -⟩ := target_spec h
  rw [hrec] at hx hy
  exact recipients_distinct hsnap hmt _ _ hx hy hxy

theorem copies_distinct (hsnap : env.snap.OK) {reads : ℕ → EntryReads} (es : List StoreEntry) (w : Walk)
    (hsorted : es.Pairwise (·.seq < ·.seq)) : ∀ x ∈ env.copies reads w es, ∀ y ∈ env.copies reads w es, x.entry.seq =
    y.entry.seq → x.recipient.same y.recipient = true → x.recipient = y.recipient := by
  induction es generalizing w with
  | nil => intro x hx; cases hx
  | cons e es ih =>
    intro x hx y hy hseq hxy
    obtain ⟨hlt, hsorted⟩ := pairwise_cons.1 hsorted
    have hhead : ∀ z ∈ env.copiesOf (reads e.seq) w e, z.entry.seq = e.seq := by
      intro z hz
      rw [(env.copiesOf_passed _ _ _ z hz).1]
    have htail : ∀ z ∈ env.copies reads (env.processDrainEntry (reads e.seq) w e) es, e.seq < z.entry.seq :=
      fun z hz => hlt _ (env.copies_passed reads es _ z hz).1
    rcases mem_append.1 hx with hx | hx
    · rcases mem_append.1 hy with hy | hy
      · exact copiesOf_distinct hsnap hx hy hxy
      · have := hhead x hx
        have := htail y hy
        omega
    rcases mem_append.1 hy with hy | hy
    · have := htail x hx
      have := hhead y hy
      omega
    · exact ih _ hsorted x hx y hy hseq hxy

end CycleEnv

/-- The two are copies of one entry for one bound subscription. -/
def Copy.Repeats (x y : Copy) : Prop := x.recipient.same y.recipient = true ∧ x.entry.seq = y.entry.seq

section Turn

variable {wh : WireHash} {cfg : DrainConfig} {snaps : ℕ → DrainSnapshot} {m : Memory} {c : Cycle}

/-- **Within a cycle** a wire copy is not repeated by another wire copy. -/
theorem copies_once (hsnap : ∀ i, (snaps i).OK) :
    (m.copies wh cfg snaps c).Pairwise fun x y => y.collapsed = false → ¬ x.Repeats y := by
  refine Pairwise.imp_of_mem ?_ (m.copies_ordered c)
  rintro x y hx hy hbefore hwire ⟨hsame, hseq⟩
  rcases hbefore with hlt | ⟨-, hexcl⟩
  · omega
  have hrec : x.recipient = y.recipient :=
    (c.env wh cfg snaps).copies_distinct (hsnap c.snapId) _ _ window_sorted x hx y hy hseq hsame
  obtain ⟨-, hxp⟩ := m.copies_passed c hx
  obtain ⟨-, hyp⟩ := m.copies_passed c hy
  -- the same recipient means the same index and the same binding
  have hidx : x.idx = y.idx := by
    have h1 := hxp.bound
    rw [hrec, hyp.bound] at h1
    exact (Option.some.inj h1).symm
  have hbinding : x.binding = y.binding := by
    have h1 := hxp.binding
    rw [hidx, hyp.binding] at h1
    exact (Option.some.inj h1).symm
  by_cases hq : y.recipient.queueId = 0
  · exact hexcl.group (by rw [hrec]; exact hq) hq hwire (by rw [hbinding])
  · exact hexcl.queue hq (by rw [hrec])

end Turn

/-! ## Over a run -/

/-- The drain loop between two cycles, when nobody else writes the cursor. -/
structure Loop where
  memory : Memory := {}
  cursor : ℕ := 0

/-- Did a frame that holds the copy go out? -/
def CycleResult.accepts (r : CycleResult) (x : Copy) : Bool :=
  !x.collapsed && r.flushed.any fun f =>
    f.2 == .ok && f.1.isFor x.recipient.connectionId x.entry.streamId && f.1.entries.contains x.wire

/-- No two of the copies repeat each other, if the first is fire-and-forget. -/
def AtMostOnce (log : List Copy) : Prop :=
  log.Pairwise fun x y => x.binding.fireAndForget = true → ¬ x.Repeats y

namespace Loop

variable (wh : WireHash) (cfg : DrainConfig) (snaps : ℕ → DrainSnapshot) (t : Loop)

/-- The cycle the loop runs: what it finds, from its own cursor. -/
def turn (c : Cycle) : Cycle := { c with cursor := t.cursor }

def result (c : Cycle) : Option CycleResult := t.memory.cycle wh cfg snaps (t.turn c)

def next (t : Loop) (c : Cycle) : Loop where
  memory := t.memory.next wh cfg snaps (t.turn c)
  cursor := ((t.result wh cfg snaps c).map (·.cursor)).getD t.cursor

/-- What a cycle sends. -/
def sent (c : Cycle) : List Copy :=
  match t.result wh cfg snaps c with
  | none => []
  | some r => (t.memory.copies wh cfg snaps (t.turn c)).filter r.accepts

/-- What a run sends. -/
def log : Loop → List Cycle → List Copy
  | _, [] => []
  | t, c :: cs => t.sent wh cfg snaps c ++ log (t.next wh cfg snaps c) cs

/-- At or below a fire-and-forget entry the cycle sends, nobody reads as paused or at a
limit, and no frame is refused. -/
def Unpinned (c : Cycle) : Prop :=
  match t.result wh cfg snaps c with
  | none => True
  | some r => ∀ x ∈ t.sent wh cfg snaps c, x.binding.fireAndForget = true →
      (∀ p ∈ t.memory.pins wh cfg snaps (t.turn c), x.entry.seq < p.1.seq) ∧
        ∀ f ∈ r.flushed, ∀ s ∈ f.2.refused, x.entry.seq < s

variable {wh cfg snaps} {t} {c : Cycle} {x : Copy}

theorem cursor_lt_of_sent (hx : x ∈ t.sent wh cfg snaps c) : t.cursor < x.entry.seq := by
  unfold sent at hx
  split at hx
  · cases hx
  · have hwin := (t.memory.copies_passed (t.turn c) (mem_filter.1 hx).1).1
    exact (mem_window.1 hwin).2.1

theorem cursor_le_next (t : Loop) (c : Cycle) : t.cursor ≤ (t.next wh cfg snaps c).cursor := by
  unfold next
  cases hr : t.result wh cfg snaps c with
  | none => exact le_refl _
  | some r => exact (cycle_bounds hr).1

theorem cursor_lt_of_log {cs : List Cycle} (t : Loop) : ∀ x ∈ log wh cfg snaps t cs, t.cursor < x.entry.seq := by
  induction cs generalizing t with
  | nil => intro x hx; cases hx
  | cons c cs ih =>
    intro x hx
    rcases mem_append.1 hx with hx | hx
    · exact cursor_lt_of_sent hx
    · exact (t.cursor_le_next c).trans_lt (ih _ x hx)

/-- An unpinned cycle leaves behind what it sent without acks. -/
theorem passed_of_unpinned (h : t.Unpinned wh cfg snaps c) (hx : x ∈ t.sent wh cfg snaps c)
    (hf : x.binding.fireAndForget = true) : x.entry.seq ≤ (t.next wh cfg snaps c).cursor := by
  unfold Unpinned at h
  unfold next
  cases hr : t.result wh cfg snaps c with
  | none => unfold sent at hx; rw [hr] at hx; cases hx
  | some r =>
    rw [hr] at h
    obtain ⟨hpins, hrefused⟩ := h x hx hf
    show x.entry.seq ≤ r.cursor
    rcases cycle_cursor hr with ⟨-, hcur⟩ | ⟨s, hs, hcur, -⟩
    · unfold sent at hx
      rw [hr] at hx
      have hwin := (t.memory.copies_passed (t.turn c) (mem_filter.1 hx).1).1
      have := (mem_window.1 hwin).2.2
      omega
    · have hlt : x.entry.seq < s := skips_all hpins hrefused s hs
      omega

theorem sent_once (hsnap : ∀ i, (snaps i).OK) : AtMostOnce (t.sent wh cfg snaps c) := by
  unfold AtMostOnce sent
  split
  · exact Pairwise.nil
  next r _ =>
  have hwire : ∀ x ∈ (t.memory.copies wh cfg snaps (t.turn c)).filter r.accepts, x.collapsed = false := by
    intro x hx
    have := (mem_filter.1 hx).2
    unfold CycleResult.accepts at this
    simp only [Bool.and_eq_true, Bool.not_eq_true'] at this
    exact this.1
  refine Pairwise.imp_of_mem ?_ ((copies_once hsnap).filter _)
  intro x y _ hy hxy _
  exact hxy (hwire y hy)

/-- **Fire-and-forget entries are sent once**, in every run from every state of the
loop in which no cycle is pinned at or below one it sent. -/
theorem fire_and_forget_once (hsnap : ∀ i, (snaps i).Published) : ∀ (cs : List Cycle) (t : Loop),
    Run.Guarded (next wh cfg snaps) (Unpinned wh cfg snaps) t cs → AtMostOnce (log wh cfg snaps t cs) := by
  intro cs
  induction cs with
  | nil => intro t _; exact Pairwise.nil
  | cons c cs ih =>
    intro t hrun
    obtain ⟨hc, hcs⟩ := hrun
    refine pairwise_append.2 ⟨sent_once (fun i => (hsnap i).ok), ih _ hcs, ?_⟩
    -- a later cycle starts above everything this one sent without acks
    rintro x hx y hy hf ⟨-, hseq⟩
    have hpassed := passed_of_unpinned hc hx hf
    have habove := cursor_lt_of_log _ y hy
    omega

end Loop

/-! ## A paused neighbour -/

namespace PausedNeighbour

/-- On stream 1 consumer 1 (connection 7, no acks) and consumer 2 (connection 8) both
listen to `a.*`. -/
def first : MatchEntry := ⟨1, 0, 1, 7, none⟩
def second : MatchEntry := ⟨2, 0, 2, 8, none⟩

def table : MatchTable := (new.addPattern [97, 46, 42] first).addPattern [97, 46, 42] second

def snaps : ℕ → DrainSnapshot := fun _ =>
  .rebuild [⟨1, 7, 1, 1, 0, 1, 1, 0, 10, true, 0, 0⟩, ⟨2, 8, 2, 2, 0, 1, 1, 0, 10, false, 0, 0⟩] [none, some table] ∅

def store : StoreView := ⟨[⟨1, 1, 0, [97, 46, 120], [1], 0⟩], 1, by simp, by simp⟩

def cfg : DrainConfig := .default

def wh : WireHash := fun _ => 0

/-- Consumer 2 is paused or not; writers accept. -/
def cycle (paused : Bool) : Cycle :=
  ⟨0, fun _ => none, 0, true, store, 0,
    fun _ => ⟨true, fun _ => ⟨fun c => paused && c == 2, fun _ => 0, fun _ => false⟩⟩, fun _ => ⟨false, true⟩⟩

theorem published (i : ℕ) : (snaps i).Published :=
  .one _ ((unstamped_new.addPattern _ rfl).addPattern _ rfl)

/-- **A paused neighbour repeats the message.** Consumer 2 is paused and pins the cursor
before entry 1, so each of two cycles sends entry 1 to consumer 1. -/
theorem paused_neighbour_repeats :
    (∀ i, (snaps i).Published) ∧ ¬ AtMostOnce (Loop.log wh cfg snaps {} [cycle true, cycle true]) := by
  refine ⟨published, fun h => ?_⟩
  obtain ⟨x, y, hlog, hfaf, hrep⟩ : ∃ x y, Loop.log wh cfg snaps {} [cycle true, cycle true] = [x, y] ∧
      x.binding.fireAndForget = true ∧ x.Repeats y := ⟨_, _, rfl, rfl, by unfold Copy.Repeats; decide⟩
  rw [hlog] at h
  exact rel_of_pairwise_cons h mem_cons_self hfaf hrep

instance (t : Loop) (c : Cycle) : Decidable (t.Unpinned wh cfg snaps c) := by
  unfold Loop.Unpinned
  split <;> infer_instance

/-- With consumer 2 running the two cycles send entry 1 once to each. -/
theorem running_neighbour_once :
    Run.Guarded (Loop.next wh cfg snaps) (Loop.Unpinned wh cfg snaps) {} [cycle false, cycle false] ∧
      AtMostOnce (Loop.log wh cfg snaps {} [cycle false, cycle false]) ∧
      (Loop.log wh cfg snaps {} [cycle false, cycle false]).map (·.recipient.consumerId) = [2, 1] := by
  have hguard : Run.Guarded (Loop.next wh cfg snaps) (Loop.Unpinned wh cfg snaps) {} [cycle false, cycle false] := by
    decide
  exact ⟨hguard, Loop.fire_and_forget_once published _ _ hguard, rfl⟩

end PausedNeighbour

end Arbitro
