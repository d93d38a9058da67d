import Mathlib.Data.List.Induction
import Mathlib.Data.List.TakeWhile
import Arbitro.Proof.RaftLog

/-!
# The Raft log over crashes

* `Indexed`: the index in memory is that of a log with increasing indexes.
* `truncateSuffix_eq`, `appendEntries_eq`: the calls in terms of the log.
* `Clean.call`: a call without a fault leaves the log that it acknowledges, in memory and in the file.
* `Clean.crash`: what a crash inside a call leaves in the files.
* `reopened_log`: what a restart finds, after any run of calls and crashes.
-/

namespace Arbitro.RaftLog

open Storage List Option Bool

variable {crc : Crc32} {s : Storage} {log batch : List LogEntry} {i : UInt64} {dir : Dir}

/-! ## Logs -/

/-- The entries below an index. -/
def below (log : List LogEntry) (i : UInt64) : List LogEntry := log.takeWhile (·.index < i)

/-- The entries from an index on. -/
def fromIndex (log : List LogEntry) (i : UInt64) : List LogEntry := log.dropWhile (·.index < i)

theorem below_append_fromIndex (log : List LogEntry) (i : UInt64) : below log i ++ fromIndex log i = log :=
  takeWhile_append_dropWhile

theorem below_isPrefix (log : List LogEntry) (i : UInt64) : below log i <+: log := takeWhile_prefix _

theorem take_below : log.take (below log i).length = below log i :=
  (prefix_iff_eq_take.1 (below_isPrefix log i)).symm

theorem drop_below (log : List LogEntry) (i : UInt64) : log.drop (below log i).length = fromIndex log i := by
  have hsplit := take_append_drop (below log i).length log
  rw [take_below] at hsplit
  exact append_cancel_left (hsplit.trans (below_append_fromIndex log i).symm)

theorem lt_of_mem_below {e : LogEntry} (h : e ∈ below log i) : e.index < i := by
  simpa using mem_takeWhile_imp h

theorem below_eq_self_iff : below log i = log ↔ ∀ e ∈ log, e.index < i := by
  unfold below
  simp

theorem Ordered.below (h : Ordered log) (i : UInt64) : Ordered (below log i) :=
  Pairwise.sublist (below_isPrefix log i).sublist h

theorem increasing_iff {es : List LogEntry} : increasing es = true ↔ Ordered es := by
  induction es with
  | nil => simp [increasing, Ordered]
  | cons e es ih =>
    cases es with
    | nil => simp [increasing, Ordered]
    | cons d es =>
      simp only [increasing, and_eq_true, decide_eq_true_eq, ih, Ordered]
      constructor
      · rintro ⟨hlt, hord⟩
        have hrest := fun x hx => UInt64.lt_trans hlt ((pairwise_cons.1 hord).1 x hx)
        exact pairwise_cons.2 ⟨forall_mem_cons.2 ⟨hlt, hrest⟩, hord⟩
      · intro hord
        exact ⟨(pairwise_cons.1 hord).1 d mem_cons_self, (pairwise_cons.1 hord).2⟩

theorem Ordered.splice (h : Ordered log) {first : LogEntry} (hb : Ordered (first :: batch)) :
    Ordered (RaftLog.below log first.index ++ first :: batch) := by
  refine pairwise_append.2 ⟨h.below _, hb, fun a ha => ?_⟩
  have hlt := lt_of_mem_below ha
  exact forall_mem_cons.2 ⟨hlt, fun b hmem => UInt64.lt_trans hlt ((pairwise_cons.1 hb).1 b hmem)⟩

/-! ## The index -/

/-- The index holds a log, and where its records would stand in the file. -/
structure Indexed (crc : Crc32) (s : Storage) (log : List LogEntry) : Prop where
  entries : s.entries = stage 0 log
  tail : s.tail = (records crc log).length
  ordered : Ordered log
  fits : ∀ e ∈ log, e.Fits

namespace Indexed

/-- The storage with the file and the index cut below an index. -/
def cutTo (crc : Crc32) (s : Storage) (log : List LogEntry) (i : UInt64) : Storage :=
  { s.setFile (setLen s.file (records crc (below log i)).length) with
    entries := stage 0 (below log i), tail := (records crc (below log i)).length }

theorem length_takeWhile_stage {es : List LogEntry} {offset : ℕ} :
    ((stage offset es).takeWhile (·.index < i)).length = (below es i).length := by
  induction es generalizing offset with
  | nil => rfl
  | cons e es ih =>
    by_cases he : e.index < i
    · simp [stage, below, he, ih]
    · simp [stage, below, he]

variable (h : Indexed crc s log) {t : Storage}

include h

theorem congr (hentries : t.entries = s.entries) (htail : t.tail = s.tail) : Indexed crc t log :=
  ⟨hentries.trans h.entries, htail.trans h.tail, h.ordered, h.fits⟩

theorem sublist {l : List LogEntry} (hl : l.Sublist log) (hentries : t.entries = stage 0 l)
    (htail : t.tail = (records crc l).length) : Indexed crc t l :=
  ⟨hentries, htail, Pairwise.sublist hl h.ordered, fun e he => h.fits e (hl.subset he)⟩

theorem append
    (hentries : t.entries = s.entries ++ stage s.tail batch) (htail : t.tail = s.tail + (records crc batch).length)
    (hord : Ordered (log ++ batch)) (hfits : ∀ e ∈ batch, e.Fits) : Indexed crc t (log ++ batch) := by
  refine ⟨?_, ?_, hord, fun e he => (mem_append.1 he).elim (h.fits e) (hfits e)⟩
  · rw [hentries, stage_append crc, Nat.zero_add, h.entries, h.tail]
  · rw [htail, h.tail, records_append, length_append]

theorem log_eq : s.log = log := by
  rw [Storage.log, h.entries, map_stage]

variable (i)

theorem partitionPoint_eq : s.partitionPoint i = (below log i).length := by
  rw [partitionPoint, h.entries, length_takeWhile_stage]

theorem cutPoint : (below log i = log ∧ s.entries[s.partitionPoint i]? = none) ∨
    (below log i ≠ log ∧ ∃ e, s.entries[s.partitionPoint i]? = some e ∧
      e.offset = (records crc (below log i)).length) := by
  have hsplit := below_append_fromIndex log i
  rw [h.partitionPoint_eq, h.entries]
  cases hrest : fromIndex log i with
  | nil =>
    rw [hrest, append_nil] at hsplit
    exact .inl ⟨hsplit, by rw [hsplit, getElem?_eq_none (by rw [length_stage])]⟩
  | cons e back =>
    rw [hrest] at hsplit
    have hget := stage_split crc (below log i) e back 0
    rw [hsplit, Nat.zero_add] at hget
    refine .inr ⟨fun heq => ?_, _, hget, rfl⟩
    have hlen := congrArg length hsplit
    rw [heq, length_append, length_cons] at hlen
    omega

theorem truncateSuffix_eq (fault : Option TruncateFault) :
    s.truncateSuffix i fault = if below log i = log then (none, s) else
      match fault with
      | some (.setLen kind) => (some (storageWriteErr "truncate raft log" kind), s)
      | some (.sync kind) => (some (storageWriteErr "fsync raft log" kind),
          s.setFile (setLen s.file (records crc (below log i)).length))
      | none => (none, cutTo crc s log i) := by
  have htake : s.entries.take (s.partitionPoint i) = stage 0 (below log i) := by
    rw [h.entries, h.partitionPoint_eq, take_stage, take_below]
  unfold truncateSuffix
  rcases h.cutPoint i with ⟨hall, hnone⟩ | ⟨hne, e, hsome, hoff⟩
  · rw [hnone, if_pos hall]
  rw [hsome, if_neg hne]
  simp only [htake, hoff]
  cases fault with
  | none => rfl
  | some f => cases f <;> rfl

theorem conflicts_eq (first : LogEntry) : s.conflicts first = true ↔ below log first.index ≠ log := by
  have hlast : s.entries.getLast?.map StoredEntry.toLogEntry = log.getLast? := by
    rw [← getLast?_map, h.entries, map_stage]
  have hany : s.conflicts first = log.getLast?.any (fun e => first.index ≤ e.index) := by
    rw [conflicts, ← hlast]
    cases s.entries.getLast? <;> rfl
  rw [hany, Ne, below_eq_self_iff]
  rcases eq_nil_or_concat log with rfl | ⟨front, e, rfl⟩
  · simp
  rw [concat_eq_append, getLast?_concat]
  simp only [any_some, decide_eq_true_eq]
  constructor
  · intro hle hall
    have hlt := UInt64.lt_iff_toNat_lt.1 (hall e (by simp))
    have := UInt64.le_iff_toNat_le.1 hle
    omega
  intro hnot
  by_contra hle
  have hlt : e.index < first.index := UInt64.not_le.1 hle
  apply hnot
  intro d hd
  rcases mem_append.1 hd with hd | hd
  · have hord : Ordered (front ++ [e]) := concat_eq_append ▸ h.ordered
    exact UInt64.lt_trans ((pairwise_append.1 hord).2.2 d hd e (by simp)) hlt
  · rw [mem_singleton.1 hd]
    exact hlt

omit h in
theorem appendEntries_refused (hb : increasing batch = false) {fault : Option AppendFault} :
    s.appendEntries crc batch fault = (some (.storage "append_entries: batch indexes not strictly increasing"), s) := by
  cases batch with
  | nil => cases hb
  | cons first batch => simp only [appendEntries, hb, false_eq_true, if_false]

/-- `append_entries` in terms of the log: a cut that may do nothing, then the write. -/
theorem appendEntries_eq {first : LogEntry} (hb : Ordered (first :: batch)) (fault : Option AppendFault) :
    s.appendEntries crc (first :: batch) fault = let cut := s.truncateSuffix first.index (truncation fault)
      if cut.1.isSome then cut else cut.2.writeBatch crc (first :: batch) fault := by
  unfold appendEntries
  simp only [increasing_iff.2 hb, if_true]
  cases hc : s.conflicts first with
  | true => simp only [if_true]
  | false =>
    have hbelow : below log first.index = log := by
      by_contra hne
      rw [(h.conflicts_eq first).2 hne] at hc
      cases hc
    rw [h.truncateSuffix_eq, if_pos hbelow]
    simp only [false_eq_true, if_false]

theorem drop_partitionPoint : s.log.drop (s.partitionPoint i) = fromIndex log i := by
  rw [h.log_eq, h.partitionPoint_eq, drop_below]

end Indexed

/-! ## Calls without a fault -/

/-- The snapshot file can be read, or there is none. -/
def Readable (crc : Crc32) (dir : Dir) : Prop := ∃ snapshot, readSnapshotFile crc dir.snapshot = .ok snapshot

/-- Memory and file hold the same log. -/
structure Clean (crc : Crc32) (s : Storage) (log : List LogEntry) : Prop where
  indexed : Indexed crc s log
  attached : s.detached = none
  wal : s.dir.wal = records crc log
  readable : Readable crc s.dir

/-- The lengths that the source's types allow for the arguments of a call, and payloads the replay accepts. -/
def Call.Fits : Call → Prop
  | .append batch _ => ∀ e ∈ batch, e.Fits
  | .saveSnapshot _ snapshot _ => snapshot.length < 2 ^ 64
  | _ => True

/-- What a call that is acknowledged makes of the log. -/
def acknowledged (log : List LogEntry) : Call → List LogEntry
  | .append [] _ => log
  | .append (first :: batch) _ =>
    if increasing (first :: batch) then below log first.index ++ first :: batch else log
  | .truncateSuffix i _ => below log i
  | .truncateBefore i _ => fromIndex log i
  | .saveSnapshot _ _ _ => log

/-- No file operation of the call fails. -/
def Call.sound : Call → Bool
  | .append _ fault => fault.isNone
  | .truncateSuffix _ fault => fault.isNone
  | .truncateBefore _ fault => fault.isNone
  | .saveSnapshot _ _ fault => fault.isNone

theorem setFile_attached (hd : s.detached = none) {bytes : Bytes} :
    s.setFile bytes = { s with dir := { s.dir with wal := bytes } } := by
  unfold setFile
  rw [hd]

theorem setLen_records (crc : Crc32) (front back : List LogEntry) (rest : Bytes) :
    setLen (records crc (front ++ back) ++ rest) (records crc front).length = records crc front := by
  unfold setLen
  rw [records_append, append_assoc, take_left, length_append,
    show (records crc front).length - ((records crc front).length + (records crc back ++ rest).length) = 0 by omega]
  simp

namespace Clean

variable (h : Clean crc s log) (i)

include h

theorem file_eq : s.file = records crc log := by
  rw [file, h.attached, getD_none, h.wal]

theorem writeAt_eq (bytes : Bytes) :
    s.writeAt bytes = { s with dir := { s.dir with wal := records crc log ++ bytes } } := by
  unfold writeAt
  split
  · next hnil => rw [hnil, append_nil, ← h.wal]
  · rw [setFile_attached h.attached, h.file_eq, h.indexed.tail, Sparse.write_end]

theorem cutTo : Clean crc (Indexed.cutTo crc s log i) (below log i) := by
  have hlen : setLen s.file (records crc (below log i)).length = records crc (below log i) := by
    have hset := setLen_records crc (below log i) (fromIndex log i) []
    rwa [below_append_fromIndex, append_nil, ← h.file_eq] at hset
  unfold Indexed.cutTo
  rw [hlen, setFile_attached h.attached]
  exact ⟨h.indexed.sublist (below_isPrefix log i).sublist rfl rfl, h.attached, rfl, h.readable⟩

theorem truncateSuffix (fault : Option TruncateFault) : (fault.isSome ∧ (s.truncateSuffix i fault).1.isSome) ∨
      ((s.truncateSuffix i fault).1 = none ∧ Clean crc (s.truncateSuffix i fault).2 (below log i)) := by
  rw [h.indexed.truncateSuffix_eq]
  split
  · next heq => exact .inr ⟨rfl, heq.symm ▸ h⟩
  cases fault with
  | none => exact .inr ⟨rfl, h.cutTo i⟩
  | some f => cases f <;> exact .inl ⟨rfl, rfl⟩

theorem writeBatch (hord : Ordered (log ++ batch)) (hfits : ∀ e ∈ batch, e.Fits) :
    (s.writeBatch crc batch none).1 = none ∧ Clean crc (s.writeBatch crc batch none).2 (log ++ batch) := by
  unfold Storage.writeBatch
  simp only [h.writeAt_eq, ← records_append]
  exact ⟨trivial, ⟨h.indexed.append rfl rfl hord hfits, h.attached, rfl, h.readable⟩⟩

theorem appendEntries {first : LogEntry} (hb : Ordered (first :: batch)) (hfits : ∀ e ∈ first :: batch, e.Fits) :
    Clean crc (s.appendEntries crc (first :: batch) none).2 (below log first.index ++ first :: batch) := by
  rw [h.indexed.appendEntries_eq hb]
  obtain ⟨hok, hcut⟩ := (h.truncateSuffix first.index none).resolve_left (by simp)
  simp only [truncation, hok, isSome_none, false_eq_true, if_false]
  exact (hcut.writeBatch (h.indexed.ordered.splice hb) hfits).2

theorem truncateBefore : Clean crc (s.truncateBefore crc i none).2 (fromIndex log i) := by
  unfold Storage.truncateBefore
  simp only [h.indexed.drop_partitionPoint]
  split
  · next hzero =>
    have hall : fromIndex log i = log := by
      have hdrop := h.indexed.drop_partitionPoint i
      rw [hzero, drop_zero, h.indexed.log_eq] at hdrop
      exact hdrop.symm
    rw [hall]
    exact h
  · exact ⟨h.indexed.sublist (dropWhile_sublist _) rfl rfl, rfl, rfl, h.readable⟩

theorem saveSnapshot (m : SnapshotMeta) {snapshot : Bytes} (hlen : snapshot.length < 2 ^ 64) :
    Clean crc (s.saveSnapshot crc m snapshot none).2 log :=
  ⟨⟨h.indexed.entries, h.indexed.tail, h.indexed.ordered, h.indexed.fits⟩, h.attached, h.wal,
    ⟨_, readSnapshotFile_encode crc m hlen⟩⟩

/-- **A call whose file operations succeed leaves the log that it acknowledges, in memory and in the file.** -/
theorem call (c : Call) (hc : Call.Fits c) (hsound : Call.sound c = true) :
    Clean crc (s.call crc c).2 (acknowledged log c) := by
  cases c with
  | append batch fault =>
    obtain rfl := isNone_iff_eq_none.1 hsound
    cases batch with
    | nil => exact h
    | cons first batch =>
      simp only [acknowledged]
      split
      · next hinc => exact h.appendEntries (increasing_iff.1 hinc) hc
      next hinc =>
      rw [Storage.call, Indexed.appendEntries_refused (eq_false_of_ne_true hinc)]
      exact h
  | truncateSuffix i fault =>
    obtain rfl := isNone_iff_eq_none.1 hsound
    exact ((h.truncateSuffix i none).resolve_left (by simp)).2
  | truncateBefore i fault =>
    obtain rfl := isNone_iff_eq_none.1 hsound
    exact h.truncateBefore i
  | saveSnapshot m snapshot fault =>
    obtain rfl := isNone_iff_eq_none.1 hsound
    exact h.saveSnapshot m hc

end Clean

/-! ## Crashes -/

/-- The files of a directory hold a log, and perhaps some bytes of a write that was interrupted. -/
structure Survives (crc : Crc32) (dir : Dir) (log : List LogEntry) : Prop where
  ordered : Ordered log
  fits : ∀ e ∈ log, e.Fits
  wal : ∃ torn, Torn crc torn ∧ dir.wal = records crc log ++ torn
  readable : Readable crc dir

/-- A restart finds the log that has survived, or leaves it if one of its file operations fails. -/
theorem Survives.start (h : Survives crc dir log) (fault : Option OpenFault) :
    (∃ s, (new crc dir fault).2 = some s ∧ Clean crc s log) ∨
      (fault.isSome ∧ (new crc dir fault).2 = none ∧ Survives crc (new crc dir fault).1 log) := by
  obtain ⟨torn, htorn, hwal⟩ := h.wal
  obtain ⟨snapshot, hsnap⟩ := h.readable
  have hreplay := openAndReplay_records h.fits h.ordered htorn
  have hcut : (records crc log ++ torn).take (records crc log).length = records crc log := take_left
  unfold Storage.new
  simp only [hwal, hreplay, hcut, hsnap]
  cases fault with
  | none => exact .inl ⟨_, rfl, ⟨⟨rfl, rfl, h.ordered, h.fits⟩, rfl, rfl, snapshot, hsnap⟩⟩
  | some f =>
    cases f with
    | before => exact .inr ⟨rfl, rfl, h⟩
    | after => exact .inr ⟨rfl, rfl, h.ordered, h.fits, ⟨[], torn_nil crc, (append_nil _).symm⟩, snapshot, hsnap⟩

theorem Survives.new (h : Survives crc dir log) : ∃ s, (new crc dir none).2 = some s ∧ Clean crc s log :=
  (h.start none).resolve_right (by simp)

theorem Indexed.survives (h : Indexed crc s log) {l : List LogEntry} (hl : l.Sublist log)
    (hwal : dir.wal = records crc l) (hread : Readable crc dir) : Survives crc dir l :=
  ⟨Pairwise.sublist hl h.ordered, fun e he => h.fits e (hl.subset he), ⟨[], torn_nil crc, by rw [hwal, append_nil]⟩, hread⟩

theorem Indexed.survives_part (h : Indexed crc s log) (hord : Ordered (log ++ batch))
    (hfits : ∀ e ∈ batch, e.Fits) (hread : Readable crc s.dir) {n : ℕ} :
    ∃ m, Survives crc { s.dir with wal := records crc log ++ (records crc batch).take n } (log ++ batch.take m) := by
  obtain ⟨m, torn, htorn, htake⟩ := take_records crc batch hfits n
  refine ⟨m, ⟨?_, fun e he => ?_, ⟨torn, htorn, ?_⟩, hread⟩⟩
  · exact Pairwise.sublist ((take_sublist m batch).append_left log) hord
  · exact (mem_append.1 he).elim (h.fits e) fun hb => hfits e (mem_of_mem_take hb)
  · rw [htake, records_append, append_assoc]

/-- What the log may be after a call that a crash has interrupted: as it was, or what the call had come to. -/
def Recovered (log : List LogEntry) : Call → List LogEntry → Prop
  | .append [] _, log' => log' = log
  | .append (first :: batch) _, log' =>
    log' = log ∨ (Ordered (first :: batch) ∧ ∃ m, log' = below log first.index ++ (first :: batch).take m)
  | .truncateSuffix i _, log' => log' = log ∨ log' = below log i
  | .truncateBefore i _, log' => log' = log ∨ log' = fromIndex log i
  | .saveSnapshot _ _ _, log' => log' = log

namespace Clean

variable (h : Clean crc s log)

include h

theorem survives : Survives crc s.dir log := h.indexed.survives (Sublist.refl _) h.wal h.readable

/-- The write of a batch, wherever it is interrupted, leaves whole records and a torn one. -/
theorem survives_write (hord : Ordered (log ++ batch)) (hfits : ∀ e ∈ batch, e.Fits) (fault : Option AppendFault) :
    ∃ m, Survives crc (s.writeBatch crc batch fault).2.dir (log ++ batch.take m) := by
  have hpart : ∀ n, ∃ m, Survives crc
      (s.writeAt ((records crc batch).take n)).dir (log ++ batch.take m) := by
    intro n
    rw [h.writeAt_eq]
    exact h.indexed.survives_part hord hfits h.readable
  have hall : (records crc batch).take (records crc batch).length = records crc batch := take_length
  have hwhole := hpart (records crc batch).length
  rw [hall] at hwhole
  unfold Storage.writeBatch
  cases fault with
  | none => exact hwhole
  | some f =>
    cases f with
    | truncate f => exact hwhole
    | seek kind => exact ⟨0, by simpa using h.survives⟩
    | write n kind => exact hpart n
    | sync kind => exact hwhole

theorem survives_truncate (i : UInt64) (fault : Option TruncateFault) :
    Survives crc (s.truncateSuffix i fault).2.dir log ∨ Survives crc (s.truncateSuffix i fault).2.dir (below log i) := by
  have hcut : Survives crc (Indexed.cutTo crc s log i).dir (below log i) := (h.cutTo i).survives
  rw [h.indexed.truncateSuffix_eq]
  split
  · exact .inl h.survives
  cases fault with
  | none => exact .inr hcut
  | some f =>
    cases f with
    | setLen kind => exact .inl h.survives
    | sync kind => exact .inr hcut

/-- **What a crash inside a call leaves.** A fault of the call stands for the point at which it is interrupted. -/
theorem crash (c : Call) (hc : Call.Fits c) :
    ∃ log', Recovered log c log' ∧ Survives crc (s.call crc c).2.dir log' := by
  cases c with
  | append batch fault =>
    cases batch with
    | nil => exact ⟨log, rfl, h.survives⟩
    | cons first batch =>
      by_cases hord : Ordered (first :: batch)
      · simp only [Storage.call, h.indexed.appendEntries_eq hord]
        split
        · rcases h.survives_truncate first.index (truncation fault) with hs | hs
          · exact ⟨log, .inl rfl, hs⟩
          · exact ⟨_, .inr ⟨hord, 0, by simp⟩, hs⟩
        next hok =>
        -- the cut went through, so the batch is written behind the entries below its first index
        have hcut := ((h.truncateSuffix first.index (truncation fault)).resolve_left fun hf => hok hf.2).2
        obtain ⟨m, hs⟩ := hcut.survives_write (h.indexed.ordered.splice hord) hc fault
        exact ⟨_, .inr ⟨hord, m, rfl⟩, hs⟩
      · have hinc : increasing (first :: batch) = false := by
          rw [← not_eq_true, increasing_iff]
          exact hord
        rw [Storage.call, Indexed.appendEntries_refused hinc]
        exact ⟨log, .inl rfl, h.survives⟩
  | truncateSuffix i fault =>
    rcases h.survives_truncate i fault with hs | hs
    · exact ⟨log, .inl rfl, hs⟩
    · exact ⟨_, .inr rfl, hs⟩
  | truncateBefore i fault =>
    have hnew : Survives crc { s.dir with wal := records crc (fromIndex log i) } (fromIndex log i) :=
      h.indexed.survives (dropWhile_sublist _) rfl h.readable
    simp only [Storage.call, Storage.truncateBefore, h.indexed.drop_partitionPoint]
    split
    · exact ⟨log, .inl rfl, h.survives⟩
    cases fault with
    | none => exact ⟨_, .inr rfl, hnew⟩
    | some f =>
      cases f with
      | create | write | sync | rename => exact ⟨log, .inl rfl, h.survives⟩
      | syncDir | reopen => exact ⟨_, .inr rfl, hnew⟩
  | saveSnapshot m snapshot fault =>
    have hsaved : Survives crc { s.dir with snapshot := some (encodeSnapshot crc m snapshot) } log :=
      ⟨h.indexed.ordered, h.indexed.fits, h.survives.wal, _, readSnapshotFile_encode crc m hc⟩
    refine ⟨log, rfl, ?_⟩
    cases fault with
    | none => exact hsaved
    | some f =>
      cases f with
      | create | write | sync | rename => exact h.survives
      | syncDir => exact hsaved

end Clean

/-! ## Runs with crashes -/

/-- A node's life: calls that return, and calls that a crash interrupts, each followed by a restart. -/
inductive Act where
  | call (c : Call)
  | crash (c : Call)

/-- The storage, unless it has refused to open, and the log as it was acknowledged. -/
structure Life where
  storage : Option Storage
  log : List LogEntry

namespace Life

def begin (crc : Crc32) : Life := { storage := (new crc {} none).2, log := [] }

/-- What a restart finds is the log from then on. -/
def step (crc : Crc32) (l : Life) (a : Act) : Life :=
  match l.storage, a with
  | none, _ => l
  | some s, .call c => { storage := some (s.call crc c).2, log := acknowledged l.log c }
  | some s, .crash c =>
    let s' := (new crc (s.call crc c).2.dir none).2
    { storage := s', log := (s'.map Storage.log).getD [] }

def run (crc : Crc32) (acts : List Act) : Life := acts.foldl (step crc) (begin crc)

end Life

/-- Calls that return have no fault; one that is interrupted may have got to any point. -/
def Act.OK : Act → Prop
  | .call c => Call.Fits c ∧ Call.sound c = true
  | .crash c => Call.Fits c

theorem begin_clean : ∃ s, (Life.begin crc).storage = some s ∧ Clean crc s [] := by
  apply Survives.new
  exact ⟨Pairwise.nil, by simp, ⟨[], torn_nil crc, rfl⟩, none, rfl⟩

/-- Memory and file hold the acknowledged log, whatever crashes there were. -/
theorem run_clean {acts : List Act} (hacts : ∀ a ∈ acts, a.OK) :
    ∃ s, (Life.run crc acts).storage = some s ∧ Clean crc s (Life.run crc acts).log := by
  induction acts using reverseRecOn with
  | nil => exact begin_clean
  | append_singleton acts a ih =>
    obtain ⟨s, hs, hclean⟩ := ih fun b hb => hacts b (by simp [hb])
    have ha := hacts a (by simp)
    have hstep : Life.run crc (acts ++ [a]) = (Life.run crc acts).step crc a := by simp [Life.run]
    rw [hstep]
    unfold Life.step
    rw [hs]
    cases a with
    | call c => exact ⟨_, rfl, hclean.call c ha.1 ha.2⟩
    | crash c =>
      obtain ⟨log', -, hsurvives⟩ := hclean.crash c ha
      obtain ⟨s', hs', hclean'⟩ := hsurvives.new
      simp only [hs', map_some, getD_some, hclean'.indexed.log_eq]
      exact ⟨s', rfl, hclean'⟩

/-- **Reopening after a crash finds the acknowledged log.** After any run of calls and crashes, a call is interrupted at
any point; a restart opens the storage and finds the acknowledged log. Of an interrupted batch that overlaps it the
entries from the batch's first index on are gone, and in any case a first part of the batch may be there. -/
theorem reopened_log (crc : Crc32) (acts : List Act) (hacts : ∀ a ∈ acts, a.OK) (c : Call) (hc : Call.Fits c) :
    ∃ s s', (Life.run crc acts).storage = some s ∧ s.log = (Life.run crc acts).log ∧
      (new crc (s.call crc c).2.dir none).2 = some s' ∧ Recovered (Life.run crc acts).log c s'.log := by
  obtain ⟨s, hs, hclean⟩ := run_clean hacts
  obtain ⟨log', hrec, hsurvives⟩ := hclean.crash c hc
  obtain ⟨s', hs', hclean'⟩ := hsurvives.new
  exact ⟨s, s', hs, hclean.indexed.log_eq, hs', hclean'.indexed.log_eq.symm ▸ hrec⟩

namespace Overwritten

def first : LogEntry := ⟨1, 1, [10]⟩

def second : LogEntry := ⟨2, 1, [20]⟩

/-- Another entry for the second index, of a later term. -/
def replacement : LogEntry := ⟨2, 2, [30]⟩

def acts : List Act := [.call (.append [first, second] none)]

/-- An append that overlaps the log and is interrupted after so many bytes of its write. -/
def interrupted (bytes : ℕ) : Call := .append [replacement] (some (.write bytes .other))

theorem reopened_log_interrupted :
    ∃ s s', (Life.run sampleCrc acts).storage = some s ∧ s.log = (Life.run sampleCrc acts).log ∧
      (new sampleCrc (s.call sampleCrc (interrupted 7)).2.dir none).2 = some s' ∧
      Recovered (Life.run sampleCrc acts).log (interrupted 7) s'.log := by
  apply reopened_log
  · intro a ha
    obtain rfl := mem_singleton.1 ha
    exact ⟨by simp [Call.Fits, LogEntry.Fits, first, second, maxPayloadLen], rfl⟩
  · simp [interrupted, Call.Fits, LogEntry.Fits, replacement, maxPayloadLen]

/-- The second entry was acknowledged, and a restart does not find it: it is cut away before the batch is written. -/
theorem acknowledged_lost :
    (Life.run sampleCrc acts).log = [first, second] ∧
    ((Life.run sampleCrc acts).storage.bind fun s => (new sampleCrc (s.call sampleCrc (interrupted 7)).2.dir none).2).map
      Storage.log = some [first] ∧
    ∀ m, [first] ≠ [first, second] ++ [replacement].take m := by
  refine ⟨by decide +kernel, by decide +kernel, fun m h => ?_⟩
  have hlen := congrArg length h
  simp at hlen

end Overwritten

end Arbitro.RaftLog
