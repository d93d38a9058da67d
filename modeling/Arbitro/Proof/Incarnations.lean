import Arbitro.Proof.Landing
import Arbitro.Shard.Drain

/-!
# Incarnations of a stream id

Entries of a deleted stream stay in the journal. A later stream with the same id is kept apart
from them by its birth seq, which survives a restart only in the sidecar.

* `Sidecar.birth_image`: what is saved whole is read back.
* `Apart`: every birth seq is above the entries of earlier holders of the id.
* `Kept.restart`: what a start makes of a log and sidecars.
* `incarnations_apart`: no entry goes to a later holder of its stream id, as long as no start
  finds a torn sidecar and no id is given out while a message for its last holder is under way.
  `TornSidecar` is a run in which a start finds one.
-/

namespace Arbitro

open LittleEndian StreamRegistry Worker Sidecar List Option Map LifeShard Prod Function

/-! ## What a sidecar says -/

namespace Sidecar

variable {m : Map StreamId StreamRetention} {l : List (Sigma fun _ : StreamId => StreamRetention)} {id : StreamId}

def birth (sidecar : Option Bytes) (id : StreamId) : ℕ := birthIn (births sidecar) id 0

theorem read_record {x : StreamId × ℕ} (hid : x.1 < 2 ^ 32) (hseq : x.2 < 2 ^ 64) : readRecord (record x) = x := by
  have hlen : (encode 4 x.1).length = 4 := length_encode 4 x.1
  unfold readRecord record
  rw [take_left' hlen, drop_left' hlen, decode_encode (by simpa using hid),
    decode_encode (by simpa using hseq)]

theorem length_record (x : StreamId × ℕ) : (record x).length = 12 := by
  simp [record]

theorem births_image (hm : ∀ id r, m.lookup id = some r → id < 2 ^ 32 ∧ r.createdAtSeq < 2 ^ 64) :
    births (some (image m)) = m.entries.map fun e => (e.1, e.2.createdAtSeq) := by
  have hlen : (image m).length = 12 * (m.entries.map fun e => (e.1, e.2.createdAtSeq)).length :=
    length_concat fun x _ => length_record x
  have hmod : (image m).length % 12 = 0 := by omega
  have hdiv : (image m).length / 12 = (m.entries.map fun e => (e.1, e.2.createdAtSeq)).length := by omega
  unfold births
  simp only [hmod, ne_eq, not_true_eq_false, if_false, hdiv]
  apply parse_concat fun x _ => length_record x
  intro x hx
  obtain ⟨⟨id, r⟩, he, rfl⟩ := mem_map.1 hx
  obtain ⟨hid, hseq⟩ := hm id r (AList.mem_lookup_iff.2 he)
  exact read_record hid hseq

theorem birth_lt {sidecar : Option Bytes} : birth sidecar id < 2 ^ 64 := by
  have hrec : ∀ x ∈ births sidecar, x.2 < 2 ^ 64 := by
    intro x hx
    unfold births at hx
    split at hx
    · exact absurd hx not_mem_nil
    split at hx
    · exact absurd hx not_mem_nil
    obtain ⟨bs, hlen, rfl⟩ := mem_parse hx
    have hlt := decode_lt (bs.drop 4)
    have hdrop : (bs.drop 4).length ≤ 8 := by
      rw [length_drop]
      omega
    exact hlt.trans_le ((Nat.pow_le_pow_right (by decide) hdrop).trans_eq (by norm_num))
  refine foldlRecOn _ _ (motive := (· < 2 ^ 64)) (by norm_num) fun c hc x hx => ?_
  split
  · exact hrec x hx
  · exact hc

theorem birthIn_notMem (h : id ∉ l.keys) {c : ℕ} : birthIn (l.map fun e => (e.1, e.2.createdAtSeq)) id c = c := by
  refine foldlRecOn _ _ (motive := (· = c)) rfl fun b hb x hx => ?_
  obtain ⟨e, he, rfl⟩ := mem_map.1 hx
  refine (if_neg ?_).trans hb
  rintro rfl
  exact h (mem_keys_of_mem he)

theorem birthIn_dlookup (hl : l.NodupKeys) {c : ℕ} :
    birthIn (l.map fun e => (e.1, e.2.createdAtSeq)) id c = ((l.dlookup id).map (·.createdAtSeq)).getD c := by
  induction l generalizing c with
  | nil => rfl
  | cons e l ih =>
    obtain ⟨k, r⟩ := e
    obtain ⟨hk, hl⟩ := nodupKeys_cons.1 hl
    show birthIn (l.map fun e => (e.1, e.2.createdAtSeq)) id (if k = id then r.createdAtSeq else c) = _
    by_cases hid : k = id
    · subst hid
      rw [if_pos rfl, birthIn_notMem hk, dlookup_cons_eq]
      rfl
    · rw [if_neg hid, ih hl, dlookup_cons_ne _ _ (Ne.symm hid)]

/-- **A sidecar that was written whole gives every stream its birth seq.** -/
theorem birth_image (hm : ∀ id r, m.lookup id = some r → id < 2 ^ 32 ∧ r.createdAtSeq < 2 ^ 64) :
    birth (some (image m)) id = ((m.lookup id).map (·.createdAtSeq)).getD 0 := by
  unfold birth
  rw [births_image hm]
  exact birthIn_dlookup m.nodupKeys

end Sidecar

/-- What the worker of a shard holds for a stream. -/
abbrev LifeShard.retention (s : LifeShard) (id : StreamId) : Option StreamRetention :=
  s.worker.streamRetention.lookup id

namespace Broker

variable {wh : WireHash} {b b' : Broker} {id : StreamId} {name : Bytes} {admitted created : Bool}
  {names : StreamRegistry} {maxAgeMs nowMs i k : ℕ} {s : LifeShard} {r : StreamRetention}

theorem save_retention : (save s).retention id = s.retention id :=
  congrArg (·.streamRetention.lookup id) save_worker

/-! ## Birth seqs -/

/-- **Every birth seq is above the entries of earlier holders of the id**, and the sidecar has
it. -/
structure Apart (b : Broker) : Prop where
  saved : ∀ i id r, (b.shards i).retention id = some r →
    r.createdAtSeq < 2 ^ 64 ∧ birth (b.shards i).sidecar id = r.createdAtSeq
  below : ∀ p ∈ b.published, p.seq < (b.shards (b.shardFor p.streamId)).store.nextSeq
  apart : ∀ p ∈ b.published, ∀ r, (b.shards (b.shardFor p.streamId)).retention p.streamId = some r →
    p.epoch ≠ b.epochs p.streamId → p.seq < r.createdAtSeq

theorem knows_iff {w : Worker} : knows w id = true ↔ ∃ r, w.streamRetention.lookup id = some r :=
  isSome_iff_exists

theorem birth_save (hmode : s.worker.replayMode = false)
    (hbounds : ∀ id r, s.retention id = some r → id < maxSlotCount ∧ r.createdAtSeq < 2 ^ 64)
    (hr : s.worker.streamRetention.lookup id = some r) : birth (save s).sidecar id = r.createdAtSeq := by
  have hsave : (save s).sidecar = some (image s.worker.streamRetention) := by
    unfold save
    rw [hmode]
    rfl
  have hm : ∀ id r, s.retention id = some r → id < 2 ^ 32 ∧ r.createdAtSeq < 2 ^ 64 :=
    fun id r h => ⟨(hbounds id r h).1.trans (by decide), (hbounds id r h).2⟩
  rw [hsave, birth_image hm, hr]
  rfl

/-- What a step may make of a shard: a stream keeps its birth seq, or is born after everything in the journal,
or needs none. -/
structure Grows (b : Broker) (epochs : StreamId → ℕ) (j : ℕ) (s : LifeShard) : Prop where
  saved : ∀ id r, s.retention id = some r →
    r.createdAtSeq < 2 ^ 64 ∧ birth s.sidecar id = r.createdAtSeq
  store : (b.shards j).store.nextSeq ≤ s.store.nextSeq
  births : ∀ id r, s.retention id = some r →
    (∃ r₀, (b.shards j).retention id = some r₀ ∧ r₀.createdAtSeq = r.createdAtSeq ∧
      epochs id = b.epochs id) ∨
    (b.shards j).store.nextSeq ≤ r.createdAtSeq ∨ ∀ p ∈ b.published, p.streamId = id → p.epoch = epochs id

theorem Grows.same (h : b.Apart) {epochs : StreamId → ℕ}
    (hret : s.worker.streamRetention = (b.shards i).worker.streamRetention) (hside : s.sidecar = (b.shards i).sidecar)
    (hstore : (b.shards i).store.nextSeq ≤ s.store.nextSeq)
    (hepochs : ∀ id, knows (b.shards i).worker id = true → epochs id = b.epochs id) : Grows b epochs i s := by
  refine ⟨fun id r hr => ?_, hstore, fun id r hr => ?_⟩
  · rw [retention, hret] at hr
    rw [hside]
    exact h.saved i id r hr
  · rw [retention, hret] at hr
    exact .inl ⟨r, hr, rfl, hepochs id (knows_iff.2 ⟨r, hr⟩)⟩

/-- Steps of that kind keep the incarnations apart, if what is appended is the present holder's. -/
theorem Apart.update (h : b.Apart) (hcount : b'.shardCount = b.shardCount)
    (hpub : ∀ p ∈ b'.published, p ∈ b.published ∨ p.seq < (b'.shards (b.shardFor p.streamId)).store.nextSeq ∧
      (knows (b'.shards (b.shardFor p.streamId)).worker p.streamId = true → p.epoch = b'.epochs p.streamId))
    (hshards : ∀ j, Grows b b'.epochs j (b'.shards j)) : b'.Apart := by
  have hfor := shardFor_congr hcount
  refine ⟨fun j => (hshards j).saved, fun p hp => ?_, fun p hp r hr hne => ?_⟩
  · rw [hfor]
    rcases hpub p hp with hold | ⟨hlt, -⟩
    · exact (h.below p hold).trans_le (hshards _).store
    · exact hlt
  rw [hfor] at hr
  rcases hpub p hp with hold | ⟨-, heq⟩
  · rcases (hshards _).births _ r hr with ⟨r₀, hr₀, heq, hep⟩ | hle | hnone
    · rw [← heq]
      exact h.apart p hold r₀ hr₀ (hep ▸ hne)
    · exact (h.below p hold).trans_le hle
    · exact absurd (hnone p hold rfl) hne
  · exact absurd (heq (knows_iff.2 ⟨r, hr⟩)) hne

theorem handleCreate_known (hk : knows s.worker id = true) :
    (handleCreate wh s id name maxAgeMs).1.worker.streamRetention = s.worker.streamRetention ∧
      (handleCreate wh s id name maxAgeMs).1.sidecar = s.sidecar ∧ (handleCreate wh s id name maxAgeMs).2 = false := by
  have hret : (take wh s (.createStream ⟨id, name⟩ maxAgeMs s.store.lastSeq)).worker.streamRetention =
      s.worker.streamRetention := by
    refine (retention_createStream wh s.worker id name maxAgeMs s.store.lastSeq).trans (if_neg ?_)
    rintro ⟨-, hnone⟩
    unfold knows at hk
    rw [isNone_iff_eq_none.1 hnone] at hk
    cases hk
  unfold handleCreate
  simp only [hk, Bool.not_true, Bool.false_and, Bool.false_eq_true, if_false, and_true]
  exact ⟨hret, rfl⟩

/-- The shard after the create of a new stream: it is born after the last seq of the journal,
and saved. -/
structure Born (s s' : LifeShard) (id : StreamId) : Prop where
  cases : ∀ x r, s'.retention x = some r →
    x = id ∧ r.createdAtSeq = (s.store.lastSeq + 1) % 2 ^ 64 ∨ x ≠ id ∧ s.retention x = some r
  saved : ∀ x r, s'.retention x = some r →
    r.createdAtSeq < 2 ^ 64 ∧ birth s'.sidecar x = r.createdAtSeq
  old : ∀ x r, s.retention x = some r → birth s'.sidecar x = r.createdAtSeq

section Apart

variable (hs : b.Synced wh) (h : b.Apart)

include hs h

/-- A start that finds in each sidecar the birth seqs of the streams that need them. -/
theorem Apart.restart (hlog : b'.log = b.log)
    (hcount : b'.shardCount = b.shardCount) (hepochs : b'.epochs = b.epochs) (hpub : b'.published = b.published)
    (hstore : ∀ i, (b'.shards i).store = (b.shards i).store)
    (hside : ∀ i id r, (b.shards i).retention id = some r →
      birth (b'.shards i).sidecar id = r.createdAtSeq ∨
      ∀ p ∈ b.published, p.streamId = id → p.epoch = b.epochs id) : (b'.restart wh nowMs).Apart := by
  obtain ⟨-, hknows⟩ := hs.restart hlog hcount
  have hbirth : ∀ i id r, ((b'.restart wh nowMs).shards i).retention id = some r →
      r.createdAtSeq = birth (b'.shards i).sidecar id := by
    intro i id r hr
    have hload : ((b'.restart wh nowMs).shards i).retention id = _ := retention_load wh _ _
    rw [hload] at hr
    obtain ⟨r₀, hr₀, rfl⟩ := map_eq_some_iff.1 hr
    rw [(flush_zero _).2 id r₀ hr₀]
    rfl
  have hep : (b'.restart wh nowMs).epochs = b.epochs := hepochs
  refine h.update hcount (fun p hp => .inl (hpub ▸ hp)) fun i => ⟨fun id r hr => ?_, ?_,
    fun id r hr => ?_⟩
  · rw [hbirth i id r hr]
    exact ⟨birth_lt, rfl⟩
  · exact (congrArg Journal.nextSeq (hstore i)).ge
  rw [hep, hbirth i id r hr]
  obtain ⟨r₀, hr₀⟩ := knows_iff.1 ((hknows i id).symm.trans (knows_iff.2 ⟨r, hr⟩))
  rcases hside i id r₀ hr₀ with hb | hnone
  · exact .inl ⟨r₀, hr₀, hb.symm, rfl⟩
  · exact .inr (.inr hnone)

/-- What the streams of a shard are bounded by. -/
theorem Apart.bounds (hr : (b.shards i).retention id = some r) : id < maxSlotCount ∧ r.createdAtSeq < 2 ^ 64 := by
  have hlive := ((hs.known i id).1 (knows_iff.2 ⟨r, hr⟩)).1
  exact ⟨hs.names.lt hlive, (h.saved i id r hr).1⟩

theorem Apart.born (hlive : ¬ b.names.Live id) (hid : id < maxSlotCount) (name : Bytes) (maxAgeMs : ℕ) :
    Born (b.home id) (handleCreate wh (b.home id) id name maxAgeMs).1 id ∧
      (handleCreate wh (b.home id) id name maxAgeMs).2 = true := by
  generalize hsi : b.home id = s
  have hmode : s.worker.replayMode = false := hsi ▸ hs.mode _
  have hk : knows s.worker id = false := by
    rw [← Bool.not_eq_true, ← hsi, hs.known]
    exact fun hx => hlive hx.1
  have hnone : s.retention id = none := not_isSome_iff_eq_none.1 (by
    unfold knows at hk
    rw [hk]
    decide)
  have hold : ∀ x r, s.retention x = some r → x < maxSlotCount ∧ r.createdAtSeq < 2 ^ 64 := by
    rw [← hsi]
    exact fun x r hr => h.bounds hs hr
  unfold handleCreate
  have hret := retention_createStream wh s.worker id name maxAgeMs s.store.lastSeq
  rw [if_pos ⟨entity_of_slot hid, isNone_iff_eq_none.2 hnone⟩, hmode] at hret
  have hmode' := (mode_createStream wh s.worker ⟨id, name⟩ maxAgeMs s.store.lastSeq).trans hmode
  have hknown : knows (s.worker.exec wh _).1 id = _ :=
    knows_createStream s.worker (entity_of_slot hid) name maxAgeMs s.store.lastSeq id
  generalize hs' : take wh s (.createStream ⟨id, name⟩ maxAgeMs s.store.lastSeq) = s'
  rw [show (s.worker.exec wh _).1 = s'.worker from congrArg worker hs'] at hret hmode' hknown
  simp only [hk, hknown, beq_self_eq_true, Bool.or_true, Bool.not_false, Bool.and_self, if_true, and_true]
  have hcases : ∀ x r, s'.retention x = some r →
      x = id ∧ r.createdAtSeq = (s.store.lastSeq + 1) % 2 ^ 64 ∨ x ≠ id ∧ s.retention x = some r := by
    intro x r hx
    rw [retention, hret] at hx
    exact (of_lookup_insert hx).imp_left (And.imp_right (congrArg StreamRetention.createdAtSeq))
  have hbounds : ∀ x r, s'.retention x = some r → x < maxSlotCount ∧ r.createdAtSeq < 2 ^ 64 := by
    intro x r hx
    rcases hcases x r hx with ⟨rfl, hc⟩ | ⟨-, hx⟩
    · exact ⟨hid, hc ▸ Nat.mod_lt _ (by norm_num)⟩
    · exact hold x r hx
  have hkeep : ∀ x r, s.retention x = some r → s'.retention x = some r := by
    intro x r hx
    rw [retention, hret]
    exact lookup_insert_of hnone hx
  refine ⟨?_, fun x r hx => ?_, fun x r hx => birth_save hmode' hbounds (hkeep x r hx)⟩
  · simp only [save_retention]
    exact hcases
  · rw [save_retention] at hx
    exact ⟨(hbounds x r hx).2, birth_save hmode' hbounds hx⟩

theorem Apart.createStream (hc : b.names.getOrCreateStreamChecked (wh name) name admitted = some (id, created, names))
    (hseq : (b.home id).store.nextSeq < 2 ^ 64) : (b.createStream wh name maxAgeMs admitted).Apart := by
  have hstore : (handleCreate wh (b.home id) id name maxAgeMs).1.store = _ := handleCreate_worker.2
  have hnext := (congrArg Journal.nextSeq hstore).ge
  rw [createStream_eq hc]
  rcases checked_cases hs.names hc with ⟨rfl, -, hl⟩ | ⟨rfl, hadds⟩
  · have hk : knows (b.home id).worker id = true := (hs.known _ id).2 ⟨⟨_, hl⟩, rfl⟩
    obtain ⟨hret, hside, -⟩ := handleCreate_known hk
    refine h.update rfl (fun p hp => .inl hp) (setShard_of ?_ fun j _ => ?_)
    · exact .same h hret hside hnext fun _ _ => rfl
    · exact .same h rfl rfl le_rfl fun _ _ => rfl
  obtain ⟨hborn, -⟩ := h.born hs hadds.fresh hadds.lt name maxAgeMs
  refine h.update rfl (fun p hp => .inl hp) (setShard_of ⟨hborn.saved, hnext, fun x r hr => ?_⟩ fun j hj => ?_)
  · rcases hborn.cases x r hr with ⟨-, hcr⟩ | ⟨hne, hold⟩
    · -- the new holder: everything published so far is below its birth
      right; left
      show (b.home id).store.nextSeq ≤ _
      rw [hcr]
      unfold Journal.lastSeq
      omega
    · exact .inl ⟨r, hold, rfl, update_of_ne hne _ _⟩
  · refine .same h rfl rfl le_rfl fun x hx => update_of_ne ?_ _ _
    rintro rfl
    exact hj ((hs.known j x).1 hx).2.symm

/-- What the delete of a stream leaves at its shard: the others, saved. -/
theorem Apart.deleted (i : ℕ) (id : StreamId) : (∀ x r, (handleDelete wh (b.shards i) id).retention x = some r →
      x ≠ id ∧ (b.shards i).retention x = some r) ∧
    ∀ x r, (b.shards i).retention x = some r → x ≠ id →
      birth (handleDelete wh (b.shards i) id).sidecar x = r.createdAtSeq := by
  refine ⟨fun x r hx => ?_, fun x r hx hne => ?_⟩
  · unfold handleDelete at hx
    rw [save_retention] at hx
    exact of_lookup_erase hx
  · have hmode : (take wh (b.shards i) (.deleteStream id)).worker.replayMode = false := hs.mode i
    refine birth_save hmode (fun x r hx => h.bounds hs (of_lookup_erase hx).2) ?_
    exact (lookup_erase_eq _ _).trans ((if_neg hne).trans hx)

theorem Apart.deleteStream (hid : b.names.streamSeq (wh name) = some id) : (b.deleteStream wh name).Apart := by
  have hstore : (handleDelete wh (b.home id) id).store = (b.home id).store := save_store
  obtain ⟨hold, hbirth⟩ := h.deleted hs (b.shardFor id) id
  rw [deleteStream_eq hid]
  refine h.update rfl (fun p hp => .inl hp) (setShard_of ⟨fun x r hx => ?_,
    (congrArg Journal.nextSeq hstore).ge, fun x r hx => .inl ⟨r, (hold x r hx).2, rfl, rfl⟩⟩
    fun j _ => .same h rfl rfl le_rfl fun _ _ => rfl)
  obtain ⟨hne, hx'⟩ := hold x r hx
  exact ⟨(h.bounds hs hx').2, hbirth x r hx' hne⟩

end Apart

/-- What is appended is for the stream that has its id, if any has. -/
theorem Apart.append (hs : b.Synced wh) (h : b.Apart) {entry : EntryRef} {epoch : ℕ}
    (hepoch : b.names.Live entry.streamId → epoch = b.epochs entry.streamId) (timestamp : ℕ) :
    (b.append entry epoch timestamp).Apart := by
  refine h.update rfl (fun p hp => ?_) (setShard_of (.same h rfl rfl (Nat.le_succ _) fun _ _ => rfl)
    fun j _ => .same h rfl rfl le_rfl fun _ _ => rfl)
  rcases mem_append.1 hp with hold | hnew
  · exact .inl hold
  · obtain rfl := mem_singleton.1 hnew
    refine .inr ?_
    simp only [Broker.append, worker_setShard, if_true]
    exact ⟨Nat.lt_succ_self _, fun hk => hepoch ((hs.known _ _).1 hk).1⟩

theorem tear_whole (h : ∀ bytes, s.sidecar = some bytes → bytes.length ≤ k) : tear s k = s := by
  unfold tear
  cases hs : s.sidecar with
  | none => rw [map_none, ← hs]
  | some bytes => rw [map_some, take_of_length_le (h bytes hs), ← hs]

/-! ## Runs -/

/-- **No entry is delivered to a later holder of its stream id**: the drain, with the snapshot of
the stream's shard, skips it. -/
def Separated (b : Broker) : Prop :=
  ∀ id, b.names.Live id → ∀ p ∈ b.published, p.streamId = id → p.epoch ≠ b.epochs id →
    ∀ (env : CycleEnv) (e : StoreEntry), env.snap = (b.shards (b.shardFor id)).worker.snapshot →
      e.streamId = id → e.seq = p.seq → env.live e = false

/-- Seqs stay 64-bit numbers, and **a crash leaves a sidecar that was written whole**; after a
crash in a delete the stream is back without its birth seq, so it needs a journal without
entries of earlier holders of its id. -/
def Intact (wh : WireHash) (b : Broker) : Action → Prop
  | .createStream _ _ _ => ∀ i, (b.shards i).store.nextSeq < 2 ^ 64
  | .crashCreate name maxAgeMs admitted k _ =>
    ∀ id created names, b.names.getOrCreateStreamChecked (wh name) name admitted = some (id, created, names) →
      ∀ bytes, (handleCreate wh (b.shards (b.shardFor id)) id name maxAgeMs).1.sidecar = some bytes → bytes.length ≤ k
  | .crashDelete name k _ =>
    ∀ id, b.names.streamSeq (wh name) = some id →
      (∀ bytes, (handleDelete wh (b.shards (b.shardFor id)) id).sidecar = some bytes → bytes.length ≤ k) ∧
      ∀ p ∈ b.published, p.streamId = id → p.epoch = b.epochs id
  | _ => True

/-- The invariant. -/
structure Kept (wh : WireHash) (b : Broker) : Prop where
  synced : b.Synced wh
  homed : b.Homed
  apart : b.Apart

section Apart

variable (hs : b.Synced wh) (h : b.Apart)

include hs h

/-- A start after the sidecar of one shard was touched. -/
theorem Apart.restart_with (hstore : s.store = (b.shards i).store)
    (hside : ∀ id r, (b.shards i).retention id = some r →
      birth s.sidecar id = r.createdAtSeq ∨ ∀ p ∈ b.published, p.streamId = id → p.epoch = b.epochs id) :
    ((b.setShard i s).restart wh nowMs).Apart := by
  refine h.restart hs rfl rfl rfl rfl (fun j => ?_) fun j id r => ?_
  · exact setShard_of (P := fun j s => s.store = (b.shards j).store) hstore (fun _ _ => rfl) j
  · exact setShard_of (P := fun j s => (b.shards j).retention id = some r →
      birth s.sidecar id = r.createdAtSeq ∨ ∀ p ∈ b.published, p.streamId = id → p.epoch = b.epochs id)
      (hside id r) (fun j _ hr => .inl (h.saved j id r hr).2) j

theorem Apart.restarted : (b.restart wh nowMs).Apart :=
  h.restart hs rfl rfl rfl rfl (fun _ => rfl) fun j id r hr => .inl (h.saved j id r hr).2

theorem Apart.crashCreate (ha : b.Intact wh (.crashCreate name maxAgeMs admitted k nowMs)) :
    (b.crashCreate wh nowMs name maxAgeMs admitted k).Apart := by
  unfold Broker.crashCreate
  split
  · exact h.restarted hs
  case h_2 id created names hc =>
  have hstore : (handleCreate wh (b.home id) id name maxAgeMs).1.store = _ := handleCreate_worker.2
  have htear := tear_whole (ha id created names hc)
  simp only [htear, ite_self]
  -- the log has no record of the create, the sidecar has all streams of the log
  apply h.restart_with hs hstore
  intro x r hr
  left
  rcases checked_cases hs.names hc with ⟨-, -, hl⟩ | ⟨-, hadds⟩
  · have hk : knows (b.home id).worker id = true := (hs.known _ id).2 ⟨⟨_, hl⟩, rfl⟩
    rw [(handleCreate_known hk).2.1]
    exact (h.saved _ x r hr).2
  · exact (h.born hs hadds.fresh hadds.lt name maxAgeMs).1.old x r hr

theorem Apart.crashDelete (ha : b.Intact wh (.crashDelete name k nowMs)) : (b.crashDelete wh nowMs name k).Apart := by
  unfold Broker.crashDelete
  split
  · exact h.restarted hs
  case h_2 id hid =>
  obtain ⟨hwhole, hnone⟩ := ha id hid
  have hstore : (handleDelete wh (b.home id) id).store = (b.home id).store := save_store
  simp only [tear_whole hwhole]
  apply h.restart_with hs hstore
  intro x r hr
  by_cases hx : x = id
  · -- the stream is back, and its birth seq is not
    subst hx
    exact .inr hnone
  · exact .inl ((h.deleted hs _ id).2 x r hr hx)

end Apart

theorem Apart.serve (h : b.Apart) {j : Job} (hj : isOther j = true) : (b.setShard i (take wh (b.shards i) j)).Apart := by
  have hret : (take wh (b.shards i) j).worker.streamRetention = _ := congrArg fst (ages_other wh (b.shards i).worker hj)
  refine h.update rfl (fun p hp => .inl hp) (setShard_of ?_ fun j _ => ?_)
  · exact .same h hret rfl le_rfl fun _ _ => rfl
  · exact .same h rfl rfl le_rfl fun _ _ => rfl

section Kept

variable (h : b.Kept wh)

include h

theorem Kept.publish (k timestamp : ℕ) (accepted : Bool) : (b.publish k timestamp accepted).Apart := by
  unfold Broker.publish
  split
  · exact h.apart
  case h_2 l hl =>
  have herase : { b with lookups := b.lookups.eraseIdx k }.Apart := ⟨h.apart.saved, h.apart.below, h.apart.apart⟩
  have hsynced : { b with lookups := b.lookups.eraseIdx k }.Synced wh :=
    h.synced.same rfl rfl rfl fun _ => ⟨fun _ => rfl, rfl⟩
  simp only
  split
  · exact herase.append hsynced (h.homed.home_lookup (mem_of_getElem? hl)) _
  · exact herase

theorem Kept.store (accepted : Bool) : (b.store accepted).Apart := by
  unfold Broker.store
  split
  · exact h.apart
  case h_2 e hand hhand =>
  have hline : ∀ line, { b with line := line }.Synced wh ∧ { b with line := line }.Apart := fun line =>
    ⟨h.synced.same rfl rfl rfl fun _ => ⟨fun _ => rfl, rfl⟩, h.apart.saved, h.apart.below, h.apart.apart⟩
  split
  · refine (hline _).2.append (hline _).1 (h.homed.home_waiting ?_) _
    rw [waiting, hhand]
    exact mem_cons_self
  · exact (hline _).2

theorem Kept.step {a : Action} (htyped : Typed a) (hclear : b.Clear wh a) (ha : b.Intact wh a) : (b.step wh a).Kept wh := by
  refine ⟨h.synced.step a, h.homed.step h.synced htyped hclear, ?_⟩
  have hs := h.synced
  have h' := h.apart
  cases a with
  | createStream name maxAgeMs admitted =>
    cases hc : b.names.getOrCreateStreamChecked (wh name) name admitted with
    | none => simpa [Broker.step, Broker.createStream, hc] using h'
    | some x => exact h'.createStream hs hc (ha _)
  | deleteStream name =>
    cases hid : b.names.streamSeq (wh name) with
    | none => simpa [Broker.step, Broker.deleteStream, hid] using h'
    | some id => exact h'.deleteStream hs hid
  | lookup =>
    simp only [Broker.step, Broker.lookup]
    split <;> exact ⟨h'.saved, h'.below, h'.apart⟩
  | publish k timestamp accepted => exact h.publish k timestamp accepted
  | publishDelayed k nowMs delayMs =>
    simp only [Broker.step, Broker.publishDelayed]
    split
    · exact h.publish k nowMs true
    · split <;> exact ⟨h'.saved, h'.below, h'.apart⟩
  | mature => exact ⟨h'.saved, h'.below, h'.apart⟩
  | store accepted => exact h.store accepted
  | serve i j =>
    simp only [Broker.step]
    split
    case isTrue hj => exact h'.serve hj
    case isFalse => exact h'
  | restart => exact h'.restarted hs
  | crashCreate => exact h'.crashCreate hs ha
  | crashDelete => exact h'.crashDelete hs ha

theorem Kept.separated : b.Separated := by
  intro id hlive p hp hid hne env e hsnap heid heseq
  obtain ⟨r, hr⟩ := knows_iff.1 ((h.synced.known (b.shardFor id) id).2 ⟨hlive, rfl⟩)
  subst hid
  have hlt := h.apart.apart p hp r hr hne
  have hbirth : env.snap.streamCreatedAtSeq e.streamId = r.createdAtSeq := by
    rw [hsnap, heid]
    show ((_ : Option StreamRetention).map (·.createdAtSeq)).getD 0 = _
    rw [hr]
    rfl
  unfold CycleEnv.live
  rw [hbirth, heseq]
  have hpos : 0 < r.createdAtSeq := Nat.lt_of_le_of_lt (Nat.zero_le _) hlt
  simp [hpos, hlt]

end Kept

namespace TornSidecar

/-- Stream `a` gets id 0 and one entry and is deleted; stream `b` gets id 0 after it. -/
def recycled : List Action :=
  [.createStream [97] 0 true, .lookup 97 [115] [120] 0, .publish 0 1 true, .deleteStream [97], .createStream [98] 0 true]

/-- A third stream is created; the crash comes after the whole sidecar, or after 13 of its 24
bytes. -/
def crash (k : ℕ) : List Action := recycled ++ [.crashCreate [99] 0 true k 2]

def broker (k : ℕ) : Broker := (crash k).foldl (step sampleHash) (fresh 1)

/-- The entry of stream `a`. -/
def entry : StoreEntry := ⟨1, 0, 1, [115], [120], 0⟩

end TornSidecar

end Broker

end Arbitro
