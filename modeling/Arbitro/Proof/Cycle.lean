import Arbitro.Lib.Run
import Arbitro.Proof.Tables
import Arbitro.Proof.Turn

/-!
# The cursor passes only what was sent

A cycle walks a window of the store and then moves the cursor. The recipients of
an entry come partly from a cache keyed by the 32-bit hash of its subject, kept
over the cycles of one snapshot.

* `CachesOK`: every cached value was resolved for a walked subject in the table of
  the snapshot at hand.
* `walk_answered`: in a walk with such caches every owed recipient pins the cursor or
  is answered by a copy.
* `caches_fresh`: in every run of coherent cycles the caches give what a fresh resolve would.
* `copies_within_age`: what a cycle delivers is within its stream's max age.
* `cursor_passes_only_sent`: in every run of coherent cycles, an entry the cursor
  passes was sent to every recipient that was owed it.
-/

namespace Arbitro

open List MatchTable Prod

/-! ## Caches -/

/-- No two of the entries have the same stream and hash but different subjects. -/
def NoCollision (wh : WireHash) (es : List StoreEntry) : Prop :=
  ∀ e ∈ es, ∀ e' ∈ es, e.streamId = e'.streamId → wh e.subject = wh e'.subject → e.subject = e'.subject

/-- Every value of one of the caches is what the snapshot's table says of a subject of `seen`. -/
def Recalls {β : Type} (field : SubjectCache → Map SubjectHash β) (resolve : MatchTable → SubjectHash → Bytes → β)
    (wh : WireHash) (snap : DrainSnapshot) (seen : List StoreEntry) (caches : StreamCaches) : Prop :=
  ∀ s cache h v, caches.lookup s = some cache → (field cache).lookup h = some v →
    ∃ e ∈ seen, e.streamId = s ∧ wh e.subject = h ∧ ∃ mt, snap.matchTable s = some mt ∧ v = resolve mt h e.subject

/-- The pattern matches are. -/
def CachesOK : WireHash → DrainSnapshot → List StoreEntry → StreamCaches → Prop :=
  Recalls (·.resolved) fun mt _ subject => mt.resolvePatternsReadonly subject []

/-- The subject limits are. -/
def LimitsOK : WireHash → DrainSnapshot → List StoreEntry → StreamCaches → Prop :=
  Recalls (·.limit) MatchTable.resolveSubjectLimitReadonly

section Caches

variable {β : Type} {field : SubjectCache → Map SubjectHash β} {resolve : MatchTable → SubjectHash → Bytes → β}
  {wh : WireHash} {snap : DrainSnapshot} {seen : List StoreEntry} {caches : StreamCaches} {mt : MatchTable}
  {e : StoreEntry} {id : StreamId}

theorem Recalls.empty (seen : List StoreEntry) : Recalls field resolve wh snap seen ∅ := by
  intro s cache h v hs
  cases hs

section Recalls

variable (hc : Recalls field resolve wh snap seen caches)

include hc

theorem Recalls.mono {seen' : List StoreEntry}
    (hsub : ∀ e ∈ seen, e ∈ seen') : Recalls field resolve wh snap seen' caches := by
  intro s cache h v hs hv
  obtain ⟨e, he, hrest⟩ := hc s cache h v hs hv
  exact ⟨e, hsub e he, hrest⟩

theorem Recalls.stream (hnew : ∀ b, field { birthSeq := b } = ∅)
    {birth : ℕ} {h : SubjectHash} {v : β} (hv : (field (caches.stream id birth)).lookup h = some v) :
    ∃ e ∈ seen, e.streamId = id ∧ wh e.subject = h ∧
      ∃ mt, snap.matchTable id = some mt ∧ v = resolve mt h e.subject := by
  unfold StreamCaches.stream SubjectCache.forIncarnation at hv
  split at hv
  · cases hl : caches.lookup id with
    | none => rw [hl, Option.getD_none, hnew] at hv; cases hv
    | some cache =>
      rw [hl] at hv
      exact hc id cache h v hl hv
  · rw [hnew] at hv
    cases hv

theorem Recalls.insert (hnew : ∀ b, field { birthSeq := b } = ∅)
    (birth : ℕ) {cache : SubjectCache}
    (hv : ∀ h v, (field cache).lookup h = some v → (field (caches.stream id birth)).lookup h = some v ∨
      ∃ e ∈ seen, e.streamId = id ∧ wh e.subject = h ∧
        ∃ mt, snap.matchTable id = some mt ∧ v = resolve mt h e.subject) :
    Recalls field resolve wh snap seen (caches.insert id cache) := by
  intro s cache' h v hs hl
  rcases Map.of_lookup_insert hs with ⟨rfl, rfl⟩ | ⟨-, hs⟩
  · exact (hv h v hl).elim (hc.stream hnew) fun hnew => hnew
  · exact hc s cache' h v hs hl

/-- A lookup that resolves on a miss gives what the table says, and leaves the caches coherent. -/
theorem Recalls.looked (hnew : ∀ b, field { birthSeq := b } = ∅)
    (he : e ∈ seen) (hmt : snap.matchTable e.streamId = some mt) (birth : ℕ)
    (hno : NoCollision wh seen) {r : StreamCaches × β}
    (hr : (∃ v, (field (caches.stream e.streamId birth)).lookup (wh e.subject) = some v ∧
        r = (caches.insert e.streamId (caches.stream e.streamId birth), v)) ∨
      ∃ cache, field cache = (field (caches.stream e.streamId birth)).insert (wh e.subject)
          (resolve mt (wh e.subject) e.subject) ∧
        r = (caches.insert e.streamId cache, resolve mt (wh e.subject) e.subject)) :
    Recalls field resolve wh snap seen r.1 ∧ r.2 = resolve mt (wh e.subject) e.subject := by
  rcases hr with ⟨v, hl, rfl⟩ | ⟨cache, hput, rfl⟩
  · refine ⟨hc.insert hnew birth fun h v hv => .inl hv, ?_⟩
    obtain ⟨e', he', hstream, hhash, mt', hmt', hv⟩ := hc.stream hnew hl
    rw [hmt] at hmt'
    cases hmt'
    rw [← hno e' he' e he hstream hhash]
    exact hv.trans (by rw [hhash])
  refine ⟨hc.insert hnew birth fun h v hv => ?_, rfl⟩
  rw [hput] at hv
  rcases Map.of_lookup_insert hv with ⟨rfl, rfl⟩ | ⟨-, hv⟩
  · exact .inr ⟨e, he, rfl, rfl, mt, hmt, rfl⟩
  · exact .inl hv

end Recalls

theorem CachesOK.resolvePatterns (hc : CachesOK wh snap seen caches) (he : e ∈ seen)
    (hmt : snap.matchTable e.streamId = some mt) (birth : ℕ) (hno : NoCollision wh seen) :
    CachesOK wh snap seen (caches.resolvePatterns e.streamId birth (wh e.subject) e.subject mt).1 ∧
      (caches.resolvePatterns e.streamId birth (wh e.subject) e.subject mt).2 = mt.resolvePatternsReadonly e.subject [] := by
  refine Recalls.looked hc (fun _ => rfl) he hmt birth hno ?_
  unfold StreamCaches.resolvePatterns
  simp only
  split
  · next v hl => exact .inl ⟨v, hl, rfl⟩
  · exact .inr ⟨_, rfl, rfl⟩

theorem LimitsOK.resolveLimit (hc : LimitsOK wh snap seen caches) (he : e ∈ seen)
    (hmt : snap.matchTable e.streamId = some mt) (birth : ℕ) (hno : NoCollision wh seen) :
    LimitsOK wh snap seen (caches.resolveLimit e.streamId birth (wh e.subject) e.subject mt).1 ∧
      (caches.resolveLimit e.streamId birth (wh e.subject) e.subject mt).2 =
        mt.resolveSubjectLimitReadonly (wh e.subject) e.subject := by
  refine Recalls.looked hc (fun _ => rfl) he hmt birth hno ?_
  unfold StreamCaches.resolveLimit
  simp only
  split
  · next v hl => exact .inl ⟨v, hl, rfl⟩
  · exact .inr ⟨_, rfl, rfl⟩

end Caches

namespace CycleEnv

variable (env : CycleEnv) {e : StoreEntry} {seen : List StoreEntry} {mt : MatchTable}

/-- Whom the table of a stream says an entry is for, with nothing remembered. -/
def matching (mt : MatchTable) (e : StoreEntry) : List MatchEntry :=
  let base := mt.lookupVerified (env.wireHash32 e.subject) e.subject
  if mt.patterns.isEmpty then base else (mt.resolvePatternsReadonly e.subject []).foldl pushDedup base

/-- What the recipient loop works with for an entry, the subject limit aside. -/
def context (e : StoreEntry) : Context := ⟨env.snap.bindings, env.slots, e, env.wireHash32 e.subject, none⟩

theorem has_of_matching {me : MatchEntry} (h : me ∈ env.matching mt e) : mt.Has me := by
  unfold matching at h
  split at h
  · exact has_of_lookup h
  · rcases mem_foldl_pushDedup h with h | h
    · exact has_of_lookup h
    · exact has_of_resolve h

variable {env} {reads : EntryReads} {w : Walk} {recipients : List MatchEntry} {P : StreamCaches → Prop}
  {b : ActiveBinding} {cx : Context} {es : List StoreEntry}

/-- With coherent caches the recipients are those the table names. -/
theorem recipients_spec {caches : StreamCaches} (hc : CachesOK env.wireHash32 env.snap seen caches) (he : e ∈ seen)
    (hmt : env.snap.matchTable e.streamId = some mt) (hno : NoCollision env.wireHash32 seen) :
    CachesOK env.wireHash32 env.snap seen (env.recipients caches mt e).1 ∧
      (env.recipients caches mt e).2 = env.matching mt e := by
  obtain ⟨hok, hfresh⟩ := hc.resolvePatterns he hmt (env.snap.streamCreatedAtSeq e.streamId) hno
  unfold recipients matching
  split
  · exact ⟨hc, rfl⟩
  · refine ⟨hok, ?_⟩
    simp only
    rw [hfresh]

/-- The entry is to be delivered, and the recipient is owed it. -/
structure Owed (env : CycleEnv) (reads : EntryReads) (e : StoreEntry) (me : MatchEntry) (b : ActiveBinding) :
    Prop where
  live : env.live e = true
  demand : reads.hasDemand = true
  matching : ∃ mt, env.snap.matchTable e.streamId = some mt ∧ me ∈ env.matching mt e
  owed : (env.context e).Owed reads.recipient me b

/-- With coherent limits the limit in force is the table's. -/
theorem target_limit {w w' : Walk} (hc : LimitsOK env.wireHash32 env.snap seen w.caches) (he : e ∈ seen)
    (hno : NoCollision env.wireHash32 seen) (h : env.target reads w e = some (w', cx, recipients)) :
    LimitsOK env.wireHash32 env.snap seen w'.caches ∧ ∃ mt, env.snap.matchTable e.streamId = some mt ∧
      cx.subjectLimit = if mt.hasSubjectLimits then
        mt.resolveSubjectLimitReadonly (env.wireHash32 e.subject) e.subject else none := by
  obtain ⟨-, -, mt, hmt, -, hcaches⟩ := target_spec h
  have hok : LimitsOK env.wireHash32 env.snap seen (env.recipients w.caches mt e).1 := by
    unfold CycleEnv.recipients
    split
    · exact hc
    · unfold StreamCaches.resolvePatterns
      simp only
      split
      all_goals exact Recalls.insert hc (fun _ => rfl) _ fun h v hv => .inl hv
  obtain ⟨hlook, hfresh⟩ := hok.resolveLimit he hmt (env.snap.streamCreatedAtSeq e.streamId) hno
  rw [show w'.caches = _ from congrArg fst hcaches]
  refine ⟨?_, mt, hmt, (congrArg snd hcaches).trans ?_⟩
  · unfold subjectLimit
    split
    · exact hlook
    · exact hok
  · unfold subjectLimit
    split
    · exact hfresh
    · rfl

/-- What a walk takes for its entries is what the tables say of them. -/
def TakesFresh (env : CycleEnv) (reads : ℕ → EntryReads) (w : Walk) (es : List StoreEntry) : Prop :=
  ∀ done e rest, es = done ++ e :: rest → ∀ w' cx recipients,
    env.target (reads e.seq) (done.foldl (fun w e => env.processDrainEntry (reads e.seq) w e) w) e =
      some (w', cx, recipients) →
    ∃ mt, env.snap.matchTable e.streamId = some mt ∧ recipients = env.matching mt e ∧
      cx.subjectLimit = if mt.hasSubjectLimits then
        mt.resolveSubjectLimitReadonly (env.wireHash32 e.subject) e.subject else none

theorem processDrainEntry_keeps (hw : P w.caches)
    (hstep : ∀ w' cx recipients, env.target reads w e = some (w', cx, recipients) → P w'.caches) :
    P (env.processDrainEntry reads w e).caches := by
  obtain ⟨-, -, -, hcaches⟩ := env.processDrainEntry_log reads w e
  rw [hcaches]
  cases h : env.target reads w e with
  | none => exact hw
  | some found => exact hstep _ _ _ h

theorem walk_keeps (reads : ℕ → EntryReads)
    (hstep : ∀ e ∈ es, ∀ r w w' cx recipients, P w.caches → env.target r w e = some (w', cx, recipients) → P w'.caches)
    (hw : P w.caches) : P (es.foldl (fun w e => env.processDrainEntry (reads e.seq) w e) w).caches :=
  foldlRecOn es _ (motive := fun w : Walk => P w.caches) hw fun w hw e he =>
    processDrainEntry_keeps hw fun w' cx recipients => hstep e he _ w w' cx recipients hw

section Coherent

variable (hc : CachesOK env.wireHash32 env.snap seen w.caches) (he : e ∈ seen) (hno : NoCollision env.wireHash32 seen)
  {me : MatchEntry}

include hc he hno

/-- A target found with coherent caches is what the table names, and leaves the
caches coherent. -/
theorem target_coherent {w' : Walk} (h : env.target reads w e = some (w', cx, recipients)) :
    CachesOK env.wireHash32 env.snap seen w'.caches ∧
      ∃ mt, env.snap.matchTable e.streamId = some mt ∧ recipients = env.matching mt e := by
  obtain ⟨-, -, mt, hmt, hrec, hcaches⟩ := target_spec h
  obtain ⟨hok, hmatching⟩ := recipients_spec hc he hmt hno
  refine ⟨?_, mt, hmt, by rw [hrec, hmatching]⟩
  rw [show w'.caches = _ from congrArg fst hcaches]
  unfold subjectLimit
  split
  · unfold StreamCaches.resolveLimit
    simp only
    split
    all_goals exact Recalls.insert hok (fun _ => rfl) _ fun h v hv => .inl hv
  · exact hok

theorem processDrainEntry_coherent (reads : EntryReads) :
    CachesOK env.wireHash32 env.snap seen (env.processDrainEntry reads w e).caches :=
  processDrainEntry_keeps hc fun _ _ _ h => (target_coherent hc he hno h).1

/-- **One entry.** With coherent caches its owed recipients have a turn of the loop, and are
owed the entry there. -/
theorem Owed.turn (ho : env.Owed reads e me b) :
    ∃ w' cx recipients i, env.target reads w e = some (w', cx, recipients) ∧ (me, i) ∈ turns e recipients ∧
      cx.Owed reads.recipient me b := by
  obtain ⟨mt, hmt, hme⟩ := ho.matching
  cases h : env.target reads w e with
  | none =>
    -- live, with demand and a table, the entry gets to the recipient loop
    unfold target at h
    rw [ho.live, ho.demand, hmt] at h
    cases h
  | some found =>
    obtain ⟨w', cx, recipients⟩ := found
    obtain ⟨-, ⟨hbindings, hslots, hentry, -⟩, -⟩ := target_spec h
    obtain ⟨-, mt', hmt', hrec⟩ := target_coherent hc he hno h
    rw [hmt] at hmt'
    cases hmt'
    have hocx : cx.Owed reads.recipient me b :=
      { connected := ho.owed.connected
        unsuppressed := by rw [hslots, hentry]; exact ho.owed.unsuppressed
        bound := by rw [hbindings]; exact ho.owed.bound
        floor := by rw [hentry]; exact ho.owed.floor
        writer := ho.owed.writer }
    obtain ⟨i, hi⟩ := (mem_turns (e := e)).1 (show me ∈ recipients by rw [hrec]; exact hme)
    exact ⟨w', cx, recipients, i, rfl, hi, hocx⟩

theorem processDrainEntry_answered (ho : env.Owed reads e me b) : (e, me) ∈ env.pinsOf reads w e ∨
      ∃ y ∈ env.copiesOf reads w e, Context.Answers y me b ∧ y.recipient.queueId = me.queueId := by
  obtain ⟨w', cx, recipients, i, h, hi, hocx⟩ := ho.turn hc he hno
  unfold pinsOf copiesOf
  rw [h]
  rcases Context.answered (turns e recipients) ⟨w', [], []⟩ (me, i) hi hocx with hp | hy | ⟨-, hq⟩ | ⟨-, hg⟩
  · exact .inl (mem_map.2 ⟨me, hp, rfl⟩)
  · exact .inr hy
  · cases hq
  · cases hg

theorem copiesOf_matching {x : Copy} (hx : x ∈ env.copiesOf reads w e) :
    ∃ mt, env.snap.matchTable e.streamId = some mt ∧ x.recipient ∈ env.matching mt e := by
  obtain ⟨w', cx, recipients, h, hin, -⟩ := mem_copiesOf hx
  obtain ⟨-, mt, hmt, rfl⟩ := target_coherent hc he hno h
  exact ⟨mt, hmt, hin⟩

end Coherent

/-- With coherent caches every copy goes to a recipient its table names. -/
theorem copies_matching (hno : NoCollision env.wireHash32 seen) {reads : ℕ → EntryReads}
    (w : Walk) (hseen : ∀ e ∈ es, e ∈ seen) (hc : CachesOK env.wireHash32 env.snap seen w.caches) :
    ∀ x ∈ env.copies reads w es, ∃ mt, env.snap.matchTable x.entry.streamId = some mt ∧
      x.recipient ∈ env.matching mt x.entry := by
  induction es generalizing w with
  | nil => intro x hx; cases hx
  | cons e es ih =>
    intro x hx
    have he := hseen e mem_cons_self
    rcases mem_append.1 hx with hx | hx
    · rw [(env.copiesOf_passed _ _ _ x hx).1]
      exact copiesOf_matching hc he hno hx
    · exact ih _ (fun e' he' => hseen e' (mem_cons_of_mem _ he')) (processDrainEntry_coherent hc he hno _) x hx

theorem walk_answered (hno : NoCollision env.wireHash32 seen) {reads : ℕ → EntryReads}
    (w : Walk) (hseen : ∀ e ∈ es, e ∈ seen) (hc : CachesOK env.wireHash32 env.snap seen w.caches) : ∀ e ∈ es, ∀ me b,
    env.Owed (reads e.seq) e me b → (e, me) ∈ env.pins reads w es ∨ ∃ y ∈ env.copies reads w es, y.entry = e ∧
    Context.Answers y me b := by
  induction es generalizing w with
  | nil => intro e he; cases he
  | cons e es ih =>
    intro e' he' me b ho
    have he := hseen e mem_cons_self
    rcases mem_cons.1 he' with rfl | he'
    · rcases processDrainEntry_answered hc he hno ho with hp | ⟨y, hy, hans, -⟩
      · exact .inl (mem_append_left _ hp)
      · exact .inr ⟨y, mem_append_left _ hy, (env.copiesOf_passed _ _ _ y hy).1, hans⟩
    · rcases ih _ (fun e' he' => hseen e' (mem_cons_of_mem _ he')) (processDrainEntry_coherent hc he hno _)
        e' he' me b ho with hp | ⟨y, hy, hrest⟩
      · exact .inl (mem_append_right _ hp)
      · exact .inr ⟨y, mem_append_right _ hy, hrest⟩

end CycleEnv

/-! ## Runs -/

/-- A run of the drain loop: what it remembers, and the entries walked since the
caches were last cleared. -/
structure History where
  memory : Memory := {}
  walked : List StoreEntry := []

section Runs

variable (wh : WireHash) (cfg : DrainConfig) (snaps : ℕ → DrainSnapshot)

/-- The entries walked under the caches of a cycle, its own included. -/
def History.under (t : History) (c : Cycle) : List StoreEntry :=
  (if t.memory.changed c then [] else t.walked) ++ c.window cfg

def History.next (t : History) (c : Cycle) : History where
  memory := t.memory.next wh cfg snaps c
  walked := if c.feeds then t.under cfg c else t.walked

/-- A cycle that is the first to see a snapshot walks, unless nothing was walked
since the caches were last cleared; and no two subjects walked under the caches
of a cycle collide. -/
def History.Coherent (t : History) (c : Cycle) : Prop :=
  (t.memory.changed c → c.feeds ∨ t.walked = []) ∧ (c.feeds → NoCollision wh (t.under cfg c))

/-- The cycle sent the entry to the binding's connection and consumer, or to another
member of the recipient's queue. -/
def Cycle.SentFor (c : Cycle) (r : CycleResult) (e : StoreEntry) (me : MatchEntry) (b : ActiveBinding) : Prop :=
  Sent r.flushed b.connectionId e.streamId b.consumerId e.seq ∨
    (me.queueId ≠ 0 ∧ ∃ mt me', (snaps c.snapId).matchTable e.streamId = some mt ∧
      me' ∈ (c.env wh cfg snaps).matching mt e ∧ me'.queueId = me.queueId ∧
      Sent r.flushed me'.connectionId e.streamId me'.consumerId e.seq)

/-- **The cycle passes only what was sent**: an entry the cursor moves over was
accepted for every recipient that was owed it, or for another member of its
queue. -/
def Cycle.PassesOnlySent (c : Cycle) (r : CycleResult) : Prop :=
  ∀ e ∈ c.store.entries, c.cursor < e.seq → e.seq ≤ r.cursor →
    ∀ me b, (c.env wh cfg snaps).Owed (c.reads e.seq) e me b → c.SentFor wh cfg snaps r e me b

variable {wh cfg snaps} {cs : List Cycle} {t : History}

/-- The caches of a run suit the snapshot of its last cycle. -/
structure History.OK (wh : WireHash) (snaps : ℕ → DrainSnapshot) (t : History) : Prop where
  caches : ∀ id, t.memory.prevSnap = some id → CachesOK wh (snaps id) t.walked t.memory.caches
  start : t.memory.prevSnap = none → t.walked = [] ∧ t.memory.caches = ∅

/-- What a run remembers of the last snapshot. -/
def History.Knows (P : DrainSnapshot → List StoreEntry → StreamCaches → Prop) (snaps : ℕ → DrainSnapshot) (t : History) :
    Prop :=
  ∀ id, t.memory.prevSnap = some id → P (snaps id) t.walked t.memory.caches

section Knows

variable {β : Type} {field : SubjectCache → Map SubjectHash β} {resolve : MatchTable → SubjectHash → Bytes → β}
  {c : Cycle}

theorem Memory.same_snap {m : Memory} (h : ¬ m.changed c = true) : m.prevSnap = some c.snapId := by
  unfold Memory.changed at h
  simpa using h

theorem History.Knows.start_caches (ht : t.Knows (Recalls field resolve wh) snaps) :
    Recalls field resolve wh (snaps c.snapId) (t.under cfg c) (t.memory.start c).caches := by
  unfold History.under Memory.start
  by_cases hch : t.memory.changed c = true
  · rw [if_pos hch, if_pos hch]
    exact .empty _
  · rw [if_neg hch, if_neg hch]
    exact (ht _ (Memory.same_snap hch)).mono fun e he => mem_append_left _ he

theorem History.Knows.next (ht : t.Knows (Recalls field resolve wh) snaps) (hc : t.Coherent wh cfg c)
    (hempty : t.memory.prevSnap = none → t.memory.caches = ∅)
    (hstep : c.feeds = true → ∀ e ∈ c.window cfg, ∀ r (w w' : Walk) cx recipients,
      Recalls field resolve wh (snaps c.snapId) (t.under cfg c) w.caches →
      (c.env wh cfg snaps).target r w e = some (w', cx, recipients) →
      Recalls field resolve wh (snaps c.snapId) (t.under cfg c) w'.caches) :
    (t.next wh cfg snaps c).Knows (Recalls field resolve wh) snaps := by
  intro id hid
  obtain rfl : c.snapId = id := Option.some.inj hid
  by_cases hf : c.feeds = true
  · have hnext : t.next wh cfg snaps c = ⟨t.memory.next wh cfg snaps c, t.under cfg c⟩ := by
      unfold History.next; rw [if_pos hf]
    rw [hnext]
    unfold Memory.next
    rw [read_of_feeds hf]
    exact CycleEnv.walk_keeps c.reads (hstep hf) ht.start_caches
  have hnext : t.next wh cfg snaps c = ⟨t.memory.next wh cfg snaps c, t.walked⟩ := by
    unfold History.next; rw [if_neg hf]
  rw [hnext]
  rw [next_caches_of_idle hf]
  cases hprev : t.memory.prevSnap with
  | none =>
    rw [hempty hprev]
    exact .empty _
  | some old =>
    by_cases hch : t.memory.changed c = true
    · -- a new snapshot that is only remembered: nothing may have been cached
      have hnil : t.walked = [] := (hc.1 hch).resolve_left hf
      have hold := ht old hprev
      rw [hnil] at hold ⊢
      intro s cache h v hs hv
      obtain ⟨e, he, -⟩ := hold s cache h v hs hv
      cases he
    · exact ht _ (Memory.same_snap hch)

end Knows

theorem History.OK.next {c : Cycle} (ht : t.OK wh snaps)
    (hc : t.Coherent wh cfg c) : (t.next wh cfg snaps c).OK wh snaps where
  start h := by cases h
  caches := History.Knows.next ht.caches hc (fun h => (ht.start h).2) fun hf _ he _ _ _ _ _ hw h =>
    ((c.env wh cfg snaps).target_coherent hw (mem_append_right _ he) (hc.2 hf) h).1

theorem History.ok_empty : History.OK wh snaps {} := ⟨fun id hid => (by cases hid), fun _ => ⟨rfl, rfl⟩⟩

theorem History.OK.run (hrun : Run.Guarded (History.next wh cfg snaps) (History.Coherent wh cfg) {} cs) :
    (cs.foldl (History.next wh cfg snaps) {}).OK wh snaps := by
  have hstep : ∀ (s : History) (x : Cycle), s.OK wh snaps → s.Coherent wh cfg x → (s.next wh cfg snaps x).OK wh snaps :=
    fun s x hs hx => hs.next hx
  exact Run.invariant hstep cs {} History.ok_empty hrun

theorem History.limits_run (hrun : Run.Guarded (History.next wh cfg snaps) (History.Coherent wh cfg) {} cs) :
    (cs.foldl (History.next wh cfg snaps) {}).Knows (LimitsOK wh) snaps := by
  have hstep : ∀ (s : History) (x : Cycle), s.OK wh snaps ∧ s.Knows (LimitsOK wh) snaps → s.Coherent wh cfg x →
      (s.next wh cfg snaps x).OK wh snaps ∧ (s.next wh cfg snaps x).Knows (LimitsOK wh) snaps :=
    fun s x hs hx => ⟨hs.1.next hx, History.Knows.next hs.2 hx (fun h => (hs.1.start h).2) fun hf _ he _ _ _ _ _ hw h =>
      ((x.env wh cfg snaps).target_limit hw (mem_append_right _ he) (hx.2 hf) h).1⟩
  exact (Run.invariant hstep cs {} ⟨History.ok_empty, fun id hid => by cases hid⟩ hrun).2

theorem History.takes_fresh {c : Cycle} (hok : t.OK wh snaps) (hlimits : t.Knows (LimitsOK wh) snaps)
    (hno : NoCollision wh (t.under cfg c)) :
    (c.env wh cfg snaps).TakesFresh c.reads (t.memory.start c) (c.window cfg) := by
  intro done e rest hes w' cx recipients ht
  have hseen : ∀ x ∈ done ++ e :: rest, x ∈ t.under cfg c := fun x hx => mem_append_right _ (hes ▸ hx)
  have he := hseen e (mem_append_right _ mem_cons_self)
  have hok := CycleEnv.walk_keeps c.reads (fun x hx _ _ _ _ _ hw h =>
    ((c.env wh cfg snaps).target_coherent hw (hseen x (mem_append_left _ hx)) hno h).1)
    (History.Knows.start_caches hok.caches)
  have hlimits := CycleEnv.walk_keeps c.reads (fun x hx _ _ _ _ _ hw h =>
    ((c.env wh cfg snaps).target_limit hw (hseen x (mem_append_left _ hx)) hno h).1)
    (History.Knows.start_caches hlimits)
  obtain ⟨-, mt, hmt, hrec⟩ := CycleEnv.target_coherent hok he hno ht
  obtain ⟨-, mt', hmt', hlimit⟩ := CycleEnv.target_limit hlimits he hno ht
  rw [hmt] at hmt'
  cases hmt'
  exact ⟨mt, hmt, hrec, hlimit⟩

theorem caches_fresh (cs : List Cycle) (c : Cycle)
    (hrun : Run.Guarded (History.next wh cfg snaps) (History.Coherent wh cfg) {} (cs ++ [c])) (hf : c.feeds = true) :
    (c.env wh cfg snaps).TakesFresh c.reads ((cs.foldl (History.next wh cfg snaps) {}).memory.start c) (c.window cfg) := by
  obtain ⟨hcs, ⟨-, hno⟩, -⟩ := Run.guarded_append.1 hrun
  exact History.takes_fresh (History.OK.run hcs) (History.limits_run hcs) (hno hf)

/-! ## A coherent cycle -/

/-- A cycle that walks, reached by coherent cycles. -/
structure CoherentCycle (wh : WireHash) (cfg : DrainConfig) (snaps : ℕ → DrainSnapshot) (t : History) (c : Cycle)
    (r : CycleResult) : Prop where
  snap : ∀ i, (snaps i).OK
  history : t.OK wh snaps
  coherent : t.Coherent wh cfg c
  result : t.memory.cycle wh cfg snaps c = some r

namespace CoherentCycle

variable {c : Cycle} {r : CycleResult} (h : CoherentCycle wh cfg snaps t c r) {x : Copy}

include h

theorem noCollision : NoCollision (c.env wh cfg snaps).wireHash32 (t.under cfg c) :=
  h.coherent.2 (cycle_some h.result).1

theorem caches : CachesOK (c.env wh cfg snaps).wireHash32 (c.env wh cfg snaps).snap (t.under cfg c)
    (t.memory.start c).caches :=
  History.Knows.start_caches h.history.caches

/-- A copy goes to a recipient its table names, through the recipient's binding. -/
theorem recipient (hx : x ∈ t.memory.copies wh cfg snaps c) :
    ∃ mt, (snaps c.snapId).matchTable x.entry.streamId = some mt ∧
      x.recipient ∈ (c.env wh cfg snaps).matching mt x.entry ∧
      x.binding.connectionId = x.recipient.connectionId ∧ x.binding.consumerId = x.recipient.consumerId := by
  obtain ⟨mt, hmt, hme⟩ := CycleEnv.copies_matching h.noCollision _
    (fun _ he => mem_append_right _ he) h.caches x hx
  obtain ⟨-, hp⟩ := t.memory.copies_passed c hx
  obtain ⟨-, hcons, hconn, -⟩ := (h.snap c.snapId).stamped _ mt x.recipient x.idx x.binding hmt
    ((c.env wh cfg snaps).has_of_matching hme) hp.bound hp.binding
  exact ⟨mt, hmt, hme, hconn, hcons⟩

theorem carries_copy (hx : x ∈ t.memory.copies wh cfg snaps c) (hc : x.collapsed = false) :
    r.read.walk.acc.Carries x.binding.connectionId x.entry.streamId x.binding.consumerId x.entry.seq := by
  obtain ⟨-, -, -, hconn, hcons⟩ := h.recipient hx
  rw [(cycle_log h.result).2.1, hconn, hcons]
  exact Accumulator.carries_copy _ _ x hx hc

theorem group {b b' : ActiveBinding} (hb : b ∈ (snaps c.snapId).bindings) (hb' : b' ∈ (snaps c.snapId).bindings)
    (hg : b.groupIdx = b'.groupIdx) : b.connectionId = b'.connectionId ∧ b.consumerId = b'.consumerId := by
  have hgroup := ((h.snap c.snapId).grouped b hb b' hb').1 hg
  exact ⟨congrArg fst hgroup, congrArg snd hgroup⟩

/-- The cursor stops before the entry, or a frame carries it to the binding's group or
to a member of its queue. -/
theorem covered {e : StoreEntry} (he : e ∈ c.window cfg) {me : MatchEntry} {b : ActiveBinding}
    (ho : (c.env wh cfg snaps).Owed (c.reads e.seq) e me b) : (e, me) ∈ t.memory.pins wh cfg snaps c ∨
      r.read.walk.acc.Carries b.connectionId e.streamId b.consumerId e.seq ∨
      (me.queueId ≠ 0 ∧ ∃ mt me', (snaps c.snapId).matchTable e.streamId = some mt ∧
        me' ∈ (c.env wh cfg snaps).matching mt e ∧ me'.queueId = me.queueId ∧
        r.read.walk.acc.Carries me'.connectionId e.streamId me'.consumerId e.seq) := by
  rcases CycleEnv.walk_answered h.noCollision _ (fun _ he => mem_append_right _ he)
    h.caches e he me b ho with hp | ⟨y, hy, rfl, ⟨hq, hyq⟩ | ⟨hyc, hyg⟩⟩
  · exact .inl hp
  · have hyp := (t.memory.copies_passed c hy).2
    obtain ⟨mt, hmt, hme, hconn, hcons⟩ := h.recipient hy
    have hwire : y.collapsed = false := by
      by_contra hcol
      exact hq (by rw [← hyq]; exact hyp.fanout (by simpa using hcol))
    have hcar := h.carries_copy hy hwire
    rw [hconn, hcons] at hcar
    exact .inr (.inr ⟨hq, mt, y.recipient, hmt, hme, hyq, hcar⟩)
  · have hcar := h.carries_copy hy hyc
    obtain ⟨idx, -, hb⟩ := ho.owed.bound
    obtain ⟨hgc, hgk⟩ := h.group (mem_of_getElem? (t.memory.copies_passed c hy).2.binding)
      (mem_of_getElem? hb) hyg
    rw [hgc, hgk] at hcar
    exact .inr (.inl hcar)

/-- **A coherent cycle passes only what was sent.** -/
theorem passesOnlySent : c.PassesOnlySent wh cfg snaps r := by
  intro e he hlt hle me b ho
  -- the cursor ends inside the window, so the entry was walked
  have hwin : e ∈ c.window cfg := by
    have := (cycle_bounds h.result).2
    exact mem_window.2 ⟨he, hlt, by omega⟩
  rcases h.covered hwin ho with hp | hcar | ⟨hq, mt, me', hmt, hme', hqq, hcar⟩
  · have hskip : e.seq ∈ r.skips (t.memory.pins wh cfg snaps c) :=
      mem_append_left _ (mem_map.2 ⟨_, hp, rfl⟩)
    have := cursor_lt_of_skip h.result hskip
    omega
  · exact .inl (sent_of_passed h.result hcar hle)
  · exact .inr ⟨hq, mt, me', hmt, hme', hqq, sent_of_passed h.result hcar hle⟩

end CoherentCycle

/-- **In every run of coherent cycles over published snapshots, every cycle passes
only what was sent.** -/
theorem cursor_passes_only_sent (hsnap : ∀ i, (snaps i).Published) (cs : List Cycle) (c : Cycle)
    (hrun : Run.Guarded (History.next wh cfg snaps) (History.Coherent wh cfg) {} (cs ++ [c])) (r : CycleResult)
    (hr : (cs.foldl (History.next wh cfg snaps) {}).memory.cycle wh cfg snaps c = some r) :
    c.PassesOnlySent wh cfg snaps r := by
  obtain ⟨hcs, hc, -⟩ := Run.guarded_append.1 hrun
  have h : CoherentCycle wh cfg snaps (cs.foldl (History.next wh cfg snaps) {}) c r :=
    ⟨fun i => (hsnap i).ok, History.OK.run hcs, hc, hr⟩
  exact h.passesOnlySent

end Runs

/-! ## Ages -/

section Ages

variable {wh : WireHash} {cfg : DrainConfig} {snaps : ℕ → DrainSnapshot} {c : Cycle} {bindings : List ActiveBinding}
  {tables : List (Option MatchTable)} {retention : Map StreamId StreamRetention}

/-- **What a cycle delivers is no older than its stream allows**, whatever the streams'
max ages are, if the drain has a max age of its own and so reads the clock. -/
theorem copies_within_age (m : Memory) (clock : ℕ) (hnow : c.nowMs = cycleNowMs cfg clock)
    (hsnap : snaps c.snapId = .rebuild bindings tables retention)
    (hstamped : ∀ e ∈ c.store.entries, 0 < e.timestamp)
    (harmed : 0 < cfg.maxAgeMs ∨ ∀ id r, retention.lookup id = some r → r.maxAgeMs = 0) {x : Copy}
    (hx : x ∈ m.copies wh cfg snaps c) {r : StreamRetention} (hr : retention.lookup x.entry.streamId = some r)
    (hage : 0 < r.maxAgeMs) : clock ≤ x.entry.timestamp + r.maxAgeMs := by
  obtain ⟨hwin, hp⟩ := m.copies_passed c hx
  have hts := hstamped _ (mem_window.1 hwin).1
  have harm : 0 < cfg.maxAgeMs := harmed.resolve_right fun h => by
    have := h _ r hr
    omega
  have hmax : (c.env wh cfg snaps).maxAge x.entry.streamId = r.maxAgeMs := by
    have hsnapAge : (snaps c.snapId).streamMaxAgeMs x.entry.streamId = r.maxAgeMs := by
      rw [hsnap]
      show ((retention.lookup _).map _).getD 0 = _
      rw [hr]
      rfl
    show (if 0 < (snaps c.snapId).streamMaxAgeMs _ then _ else _) = _
    rw [hsnapAge, if_pos hage]
    exact hsnapAge
  have hclock : (c.env wh cfg snaps).nowMs = clock := by
    rw [← if_pos harm (t := clock) (e := 0)]
    exact hnow
  have hlive := hp.live
  simp only [CycleEnv.live, hmax, hclock, Bool.and_eq_true, Bool.not_eq_true', Bool.and_eq_false_iff,
    decide_eq_false_iff_not] at hlive
  omega

end Ages

instance (wh : WireHash) (es : List StoreEntry) : Decidable (NoCollision wh es) := by
  unfold NoCollision; infer_instance

instance (wh : WireHash) (cfg : DrainConfig) (t : History) (c : Cycle) : Decidable (t.Coherent wh cfg c) := by
  unfold History.Coherent; infer_instance

/-! ## A late subscriber -/

namespace LateSubscriber

/-- Consumer 1 on connection 7 listens to `b.*`, consumer 2 on connection 8 to `a.*`. -/
def firstEntry : MatchEntry := ⟨1, 0, 1, 7, none⟩
def lateEntry : MatchEntry := ⟨2, 0, 2, 8, none⟩

def firstBinding : ActiveBinding := ⟨1, 7, 1, 1, 0, 1, 1, 0, 10, false, 0, 0⟩
def lateBinding : ActiveBinding := ⟨2, 8, 2, 2, 0, 1, 1, 0, 10, false, 0, 0⟩

def firstTable : MatchTable := MatchTable.new.addPattern [98, 46, 42] firstEntry
def lateTable : MatchTable := firstTable.addPattern [97, 46, 42] lateEntry

/-- Publication 0 knows the first consumer only, every later one both. -/
def snaps : ℕ → DrainSnapshot
  | 0 => .rebuild [firstBinding] [none, some firstTable] ∅
  | _ + 1 => .rebuild [firstBinding, lateBinding] [none, some lateTable] ∅

/-- Entries of stream 1 with subject `a.x`. -/
def entry (seq : ℕ) : StoreEntry := ⟨seq, 1, 0, [97, 46, 120], [], 0⟩

def storeOne : StoreView := ⟨[entry 1], 1, by simp, by simp [entry]⟩
def storeTwo : StoreView := ⟨[entry 1, entry 2], 2, by simp [entry], by simp [entry]⟩

def reads : ℕ → EntryReads := fun _ => ⟨true, fun _ => ⟨fun _ => false, fun _ => 0, fun _ => false⟩⟩

def cfg : DrainConfig := .default

def cycle (snapId cursor : ℕ) (store : StoreView) : Cycle :=
  ⟨snapId, fun _ => none, cursor, true, store, 0, reads, fun _ => ⟨false, true⟩⟩

theorem published (i : ℕ) : (snaps i).Published := by
  have hfirst : firstTable.Unstamped := unstamped_new.addPattern _ rfl
  cases i with
  | zero => exact .one _ hfirst
  | succ i => exact .one _ (hfirst.addPattern _ rfl)

def wh : WireHash := fun _ => 0

/-- The environment of a cycle with both consumers. -/
def lateEnv : CycleEnv := ⟨wh, snaps 1, fun _ => none, 0, 0⟩

theorem late_owed : lateEnv.Owed (reads 2) (entry 2) ⟨2, 0, 2, 8, some 1⟩ { lateBinding with groupIdx := 1 } where
  live := rfl
  demand := rfl
  matching := ⟨_, rfl, by decide⟩
  owed := ⟨by decide, rfl, ⟨1, rfl, rfl⟩, by decide, fun _ => rfl⟩

/-- **A late subscriber misses a message.** The first cycle remembers that nobody
listens to `a.x`. The second one is the first to see the snapshot with consumer
2, has nothing to walk and keeps the caches; the third takes the snapshot for
the old one, asks the cache, and moves the cursor over entry 2 with no frame
sent. One subject occurs, so the hash plays no part. -/
theorem stale_cache_loses :
    let t := [cycle 0 0 storeOne, cycle 1 1 storeOne].foldl (History.next wh cfg snaps) {}
    (∀ i, (snaps i).Published) ∧
    ∃ r, t.memory.cycle wh cfg snaps (cycle 1 1 storeTwo) = some r ∧
      ¬ (cycle 1 1 storeTwo).PassesOnlySent wh cfg snaps r := by
  intro t
  obtain ⟨r, hr, hcursor, hnone⟩ : ∃ r, t.memory.cycle wh cfg snaps (cycle 1 1 storeTwo) = some r ∧
      r.cursor = 2 ∧ r.flushed = [] := ⟨_, rfl, rfl, rfl⟩
  refine ⟨published, r, hr, fun h => ?_⟩
  rcases h (entry 2) (by decide) (by decide) (by rw [hcursor]; decide) _ _ late_owed with ⟨f, hf, -⟩ | ⟨hq, -⟩
  · rw [hnone] at hf; cases hf
  · exact hq rfl

/-- The third cycle takes nobody for entry 2 from its caches; a fresh resolve finds consumer 2. -/
theorem stale_cache_resolves : (cycle 1 1 storeTwo).feeds = true ∧
    ¬ ((cycle 1 1 storeTwo).env wh cfg snaps).TakesFresh reads
      (([cycle 0 0 storeOne, cycle 1 1 storeOne].foldl (History.next wh cfg snaps) {}).memory.start (cycle 1 1 storeTwo))
      ((cycle 1 1 storeTwo).window cfg) := by
  refine ⟨by decide, fun h => ?_⟩
  obtain ⟨mt, hmt, hrec, -⟩ := h [] (entry 2) [] rfl _ _ _ rfl
  cases hmt
  revert hrec
  decide

theorem fresh_snapshot_resolves : ((cycle 1 1 storeTwo).env wh cfg snaps).TakesFresh reads
    (([cycle 0 0 storeOne].foldl (History.next wh cfg snaps) {}).memory.start (cycle 1 1 storeTwo))
    ((cycle 1 1 storeTwo).window cfg) :=
  caches_fresh [cycle 0 0 storeOne] (cycle 1 1 storeTwo) (by decide) (by decide)

/-- Without the idle cycle in between consumer 2 gets entry 2. -/
theorem fresh_snapshot_delivers :
    let t := [cycle 0 0 storeOne].foldl (History.next wh cfg snaps) {}
    ∃ r, t.memory.cycle wh cfg snaps (cycle 1 1 storeTwo) = some r ∧ r.cursor = 2 ∧
      (cycle 1 1 storeTwo).PassesOnlySent wh cfg snaps r ∧ Sent r.flushed 8 1 2 2 := by
  intro t
  obtain ⟨r, hr, hcursor⟩ : ∃ r, t.memory.cycle wh cfg snaps (cycle 1 1 storeTwo) = some r ∧ r.cursor = 2 :=
    ⟨_, rfl, rfl⟩
  have h := cursor_passes_only_sent published [cycle 0 0 storeOne] (cycle 1 1 storeTwo) (by decide) r hr
  refine ⟨r, hr, hcursor, h, ?_⟩
  rcases h (entry 2) (by decide) (by decide) (by rw [hcursor]; decide) _ _ late_owed with hs | ⟨hq, -⟩
  · exact hs
  · exact absurd rfl hq

end LateSubscriber

/-! ## An old entry -/

namespace OldEntry

open LateSubscriber (firstBinding firstTable reads wh)

/-- Stream 1 was created with a max age of 5 ms. -/
def retention : Map StreamId StreamRetention := (∅ : Map StreamId StreamRetention).insert 1 ⟨5, 0⟩

def snaps : ℕ → DrainSnapshot := fun _ => .rebuild [firstBinding] [none, some firstTable] retention

/-- One entry of the stream, with subject `b.x`, written at 1 ms. -/
def store : StoreView := ⟨[⟨1, 1, 1, [98, 46, 120], [], 0⟩], 1, by simp, by simp⟩

def cfg (maxAgeMs : ℕ) : DrainConfig := { DrainConfig.default with maxAgeMs }

def cycle (maxAgeMs clock : ℕ) : Cycle :=
  ⟨0, fun _ => none, 0, true, store, cycleNowMs (cfg maxAgeMs) clock, reads, fun _ => ⟨false, true⟩⟩

/-- **With the server's configuration the clock is not read**, and 99 ms later the entry is
delivered still. -/
theorem old_entry_delivered : ∃ x ∈ ({} : Memory).copies wh (cfg 0) snaps (cycle 0 100),
    ∃ r, retention.lookup x.entry.streamId = some r ∧ 0 < r.maxAgeMs ∧ x.entry.timestamp + r.maxAgeMs < 100 :=
  ⟨_, mem_cons_self, _, rfl, by decide, by decide⟩

theorem fresh_entry_delivered : ∃ x ∈ ({} : Memory).copies wh (cfg 60) snaps (cycle 60 5), 5 ≤ x.entry.timestamp + 5 := by
  have hx : _ ∈ ({} : Memory).copies wh (cfg 60) snaps (cycle 60 5) := mem_cons_self
  exact ⟨_, hx, copies_within_age {} 5 rfl rfl (by decide) (.inl (by decide)) hx rfl (by decide)⟩

end OldEntry

end Arbitro
