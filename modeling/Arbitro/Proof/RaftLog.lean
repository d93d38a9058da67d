import Arbitro.Cluster.Storage

/-!
# The records of the Raft log

* `openAndReplay_records`: records with increasing indexes, and behind them some first bytes of
  a further record, are replayed as those records.
* `take_records`: what an interrupted write leaves of a batch are whole records and such bytes.
* `readSnapshotFile_encode`: a snapshot that was saved is read back.
-/

namespace Arbitro.RaftLog

open LittleEndian List

variable {crc : Crc32} {data torn : Bytes} (m : SnapshotMeta) (es : List LogEntry) (e : LogEntry) (snapshot : Bytes)
  {off : ℕ} {last : Option ℕ}

/-! ## Records -/

/-- A payload that the replay accepts. -/
def LogEntry.Fits (e : LogEntry) : Prop := e.payload.length ≤ maxPayloadLen

instance (e : LogEntry) : Decidable e.Fits := by unfold LogEntry.Fits; infer_instance

/-- Strictly increasing indexes. -/
def Ordered (es : List LogEntry) : Prop := es.Pairwise fun a b => a.index < b.index

instance (es : List LogEntry) : Decidable (Ordered es) := by unfold Ordered; infer_instance

@[simp] theorem length_headerFront : (headerFront e).length = recCrcOffset := by
  simp [headerFront, width, recCrcOffset]

@[simp] theorem length_encodeRecord (crc : Crc32) (e : LogEntry) :
    (encodeRecord crc e).length = recHeader + e.payload.length := by
  simp only [encodeRecord, length_append, length_headerFront, length_encode, recHeader, recCrcOffset]

@[simp] theorem records_nil : records crc [] = [] := rfl

@[simp] theorem records_cons (es : List LogEntry) :
    records crc (e :: es) = encodeRecord crc e ++ records crc es := rfl

@[simp] theorem records_append (es' : List LogEntry) : records crc (es ++ es') = records crc es ++ records crc es' :=
  flatMap_append

theorem length_le_records (crc : Crc32) (es : List LogEntry) : es.length ≤ (records crc es).length :=
  length_le_concat fun e => by simp [recHeader]

/-! ## The index of records -/

theorem stage_append (crc : Crc32) (es es' : List LogEntry) (offset : ℕ) :
    stage offset (es ++ es') = stage offset es ++ stage (offset + (records crc es).length) es' := by
  induction es generalizing offset with
  | nil => rfl
  | cons e es ih =>
    have hoff : offset + recHeader + e.payload.length + (records crc es).length
        = offset + (records crc (e :: es)).length := by
      rw [records_cons, length_append, length_encodeRecord]
      omega
    simp only [cons_append, stage, ih, hoff]

@[simp] theorem map_stage : ∀ offset : ℕ, (stage offset es).map StoredEntry.toLogEntry = es := by
  induction es with
  | nil => intro offset; rfl
  | cons e es ih => intro offset; simp [stage, ih]

@[simp] theorem length_stage (offset : ℕ) : (stage offset es).length = es.length := by
  have h := congrArg length (map_stage es offset)
  rwa [length_map] at h

theorem take_stage (n : ℕ) : ∀ offset : ℕ, (stage offset es).take n = stage offset (es.take n) := by
  induction es generalizing n with
  | nil => intro offset; simp [stage]
  | cons e es ih =>
    intro offset
    cases n with
    | zero => rfl
    | succ n => simp [stage, ih]

/-- The offset that the index has for an entry is where its record starts. -/
theorem stage_split (crc : Crc32) (front : List LogEntry) (e : LogEntry) (back : List LogEntry) (offset : ℕ) :
    (stage offset (front ++ e :: back))[front.length]?
      = some { e with offset := offset + (records crc front).length } := by
  rw [stage_append crc, getElem?_append_right (by rw [length_stage]), length_stage, Nat.sub_self]
  rfl

/-! ## Replay -/

/-- What an interrupted write can end in. -/
def Torn (crc : Crc32) (torn : Bytes) : Prop :=
  ∃ e : LogEntry, e.Fits ∧ ∃ k < (encodeRecord crc e).length, torn = (encodeRecord crc e).take k

theorem torn_nil (crc : Crc32) : Torn crc [] := ⟨⟨0, 0, []⟩, by simp [LogEntry.Fits], 0, by simp [recHeader], rfl⟩

theorem header_fields {e : LogEntry} (he : e.Fits) (rest : Bytes) :
    Fields (headerFront e ++ rest) 0 [(8, e.index.toNat), (8, e.term.toNat), (4, e.payload.length)] := by
  have hlen : e.payload.length < 256 ^ 4 := by unfold LogEntry.Fits maxPayloadLen at he; omega
  apply fields_layout []
  simp only [forall_mem_cons]
  exact ⟨e.index.toNat_lt, e.term.toNat_lt, hlen, nofun⟩

theorem crc_field (rest : Bytes) :
    field (encodeRecord crc e ++ rest) 20 4 = (crc (headerFront e ++ e.payload)).toNat := by
  have hcrc : (crc (headerFront e ++ e.payload)).toNat < 256 ^ 4 := (crc (headerFront e ++ e.payload)).toNat_lt
  have hdrop : (encodeRecord crc e ++ rest).drop 20
      = encode 4 (crc (headerFront e ++ e.payload)).toNat ++ (e.payload ++ rest) := by
    exact drop_left' (length_headerFront e)
  unfold field
  rw [hdrop, take_left' (length_encode _ _), decode_encode hcrc]

theorem replayRecord_record {e : LogEntry} (he : e.Fits) {rest : Bytes}
    (hdata : data.drop off = encodeRecord crc e ++ rest) (hlast : ∀ l ∈ last, l < e.index.toNat) :
    replayRecord crc data { off := off, last := last }
      = some (some { e with offset := off },
        { off := off + recHeader + e.payload.length, last := some e.index.toNat }) := by
  have hlen : data.length - off = recHeader + e.payload.length + rest.length := by
    rw [← length_drop, hdata, length_append, length_encodeRecord]
  have hsplit : encodeRecord crc e ++ rest = headerFront e ++
      (encode 4 (crc (headerFront e ++ e.payload)).toNat ++ (e.payload ++ rest)) := by
    simp only [encodeRecord, append_assoc]
  obtain ⟨hindex, hterm, hplen, -⟩ := header_fields he
    (encode 4 (crc (headerFront e ++ e.payload)).toNat ++ (e.payload ++ rest))
  rw [← hsplit] at hindex hterm hplen
  have hfront : (encodeRecord crc e ++ rest).take recCrcOffset = headerFront e := by
    exact take_left' (length_headerFront e)
  have hpayload : ((encodeRecord crc e ++ rest).drop recHeader).take e.payload.length = e.payload := by
    exact take_left' rfl
  have hnot : last.any (fun l => decide (e.index.toNat ≤ l)) = false := by
    cases last with
    | none => rfl
    | some l => simpa using hlast l rfl
  unfold LogEntry.Fits at he
  unfold replayRecord
  simp only [hdata, hlen, hindex, hterm, hplen, crc_field, hfront, hpayload, hnot, Option.isSome_none,
    Bool.false_eq_true, if_false, ne_eq, not_true_eq_false]
  rw [if_neg (by omega), if_neg (by omega), if_neg (by omega)]
  simp

theorem replayRecord_torn (h : Torn crc torn) (last : Option ℕ)
    (hdata : data.drop off = torn) : replayRecord crc data { off := off, last := last } = none := by
  obtain ⟨e, he, k, hk, rfl⟩ := h
  have hlen : data.length - off = k := by
    rw [← length_drop, hdata]
    exact length_take_of_le hk.le
  rw [length_encodeRecord] at hk
  unfold replayRecord
  simp only [hdata, hlen, Option.isSome_none, Bool.false_eq_true, if_false]
  by_cases hshort : k < recHeader
  · rw [if_pos hshort]
  have hplen : field ((encodeRecord crc e).take k) 16 4 = e.payload.length := by
    have hsplit : (encodeRecord crc e).take k = headerFront e ++ ((encodeRecord crc e).take k).drop recCrcOffset := by
      conv_lhs => rw [← take_append_drop recCrcOffset ((encodeRecord crc e).take k)]
      rw [take_take, min_eq_left (by unfold recHeader at hshort; unfold recCrcOffset; omega), encodeRecord,
        append_assoc, take_left' (length_headerFront e)]
    rw [hsplit]
    exact (header_fields he _).2.2.1
  unfold LogEntry.Fits at he
  rw [if_neg hshort, hplen, if_neg (by omega), if_pos (by omega)]

theorem reads_records (hfits : ∀ e ∈ es, e.Fits) (hord : Ordered es) {off : ℕ}
    (hdata : data.drop off = records crc es ++ torn) (hlast : ∀ l ∈ last, ∀ e ∈ es, l < e.index.toNat) : ∃ last',
    Scan.Reads (replayRecord crc data) { off := off, last := last } es.length (stage off es)
    { off := off + (records crc es).length, last := last' } := by
  induction es generalizing off last with
  | nil => exact ⟨last, .nil _⟩
  | cons e es ih =>
    rw [records_cons, append_assoc] at hdata
    have hmove := replayRecord_record (hfits e mem_cons_self) hdata fun l hl => hlast l hl e mem_cons_self
    have hdata' : data.drop (off + recHeader + e.payload.length) = records crc es ++ torn := by
      rw [Nat.add_assoc, ← drop_drop, hdata]
      exact drop_left' (length_encodeRecord crc e)
    have hlater : ∀ l ∈ some e.index.toNat, ∀ d ∈ es, l < d.index.toNat := by
      rintro l ⟨⟩ d hd
      exact UInt64.lt_iff_toNat_lt.1 ((pairwise_cons.1 hord).1 d hd)
    obtain ⟨last', hrest⟩ := ih (fun d hd => hfits d (mem_cons_of_mem _ hd)) (pairwise_cons.1 hord).2
      hdata' hlater
    have hend : off + recHeader + e.payload.length + (records crc es).length
        = off + (records crc (e :: es)).length := by
      rw [records_cons, length_append, length_encodeRecord]
      omega
    rw [hend] at hrest
    exact ⟨last', .cons hmove hrest⟩

/-- **Records, and behind them some first bytes of another one, are replayed as those records.** -/
theorem openAndReplay_records {es : List LogEntry} (hfits : ∀ e ∈ es, e.Fits) (hord : Ordered es)
    (htorn : Torn crc torn) :
    openAndReplay crc (records crc es ++ torn) = .ok (stage 0 es, (records crc es).length) := by
  have hdata : (records crc es ++ torn).drop 0 = records crc es ++ torn := rfl
  have hnone : ∀ l ∈ (none : Option ℕ), ∀ e ∈ es, l < e.index.toNat := by simp
  obtain ⟨last, hreads⟩ := reads_records es hfits hord hdata hnone
  rw [Nat.zero_add] at hreads
  have hstop : replayRecord crc (records crc es ++ torn) { off := (records crc es).length, last := last } = none :=
    replayRecord_torn htorn last drop_left
  have hfuel : es.length ≤ (records crc es ++ torn).length + 2 := by
    have := length_le_records crc es
    rw [length_append]
    omega
  have hwalk := Scan.walk_of_reads hreads hstop hfuel
  unfold openAndReplay
  simp only [hwalk]

theorem take_records (crc : Crc32) (es : List LogEntry) (hfits : ∀ e ∈ es, e.Fits) (n : ℕ) :
    ∃ m torn, Torn crc torn ∧ (records crc es).take n = records crc (es.take m) ++ torn := by
  induction es generalizing n with
  | nil => exact ⟨0, [], torn_nil crc, by simp⟩
  | cons e es ih =>
    by_cases hn : n < (encodeRecord crc e).length
    · refine ⟨0, (encodeRecord crc e).take n, ⟨e, hfits e mem_cons_self, n, hn, rfl⟩, ?_⟩
      rw [records_cons, take_append_of_le_length hn.le]
      rfl
    obtain ⟨m, torn, htorn, htake⟩ := ih (fun d hd => hfits d (mem_cons_of_mem _ hd))
      (n - (encodeRecord crc e).length)
    refine ⟨m + 1, torn, htorn, ?_⟩
    rw [records_cons, take_append, take_of_length_le (by omega), htake, take_succ_cons, records_cons,
      append_assoc]

/-! ## Snapshots -/

theorem snapFront_eq :
    snapFront m snapshot = layout [(4, 0x504E5341), (4, snapVersion), (8, m.lastIncludedIndex.toNat),
      (8, m.lastIncludedTerm.toNat), (8, snapshot.length)] := rfl

@[simp] theorem length_snapFront : (snapFront m snapshot).length = snapCrcOffset := by
  simp [snapFront_eq, width, snapCrcOffset]

theorem snap_fields {snapshot : Bytes} (h : snapshot.length < 2 ^ 64) (rest : Bytes) :
    Fields (snapFront m snapshot ++ rest) 0 [(4, 0x504E5341), (4, snapVersion), (8, m.lastIncludedIndex.toNat),
      (8, m.lastIncludedTerm.toNat), (8, snapshot.length)] := by
  rw [snapFront_eq]
  apply fields_layout []
  simp only [forall_mem_cons]
  exact ⟨by decide, by decide, m.lastIncludedIndex.toNat_lt, m.lastIncludedTerm.toNat_lt, h, nofun⟩

/-- **A snapshot that was saved is read back.** -/
theorem readSnapshotFile_encode (crc : Crc32) (m : SnapshotMeta) {snapshot : Bytes} (h : snapshot.length < 2 ^ 64) :
    readSnapshotFile crc (some (encodeSnapshot crc m snapshot)) = .ok (some (m, snapshot)) := by
  set stored := encode 4 (crc (snapFront m snapshot ++ snapshot)).toNat with hstored
  have hbytes : encodeSnapshot crc m snapshot = snapFront m snapshot ++ (stored ++ snapshot) := by
    rw [encodeSnapshot, append_assoc]
  have hlen : (encodeSnapshot crc m snapshot).length = snapHeader + snapshot.length := by
    rw [hbytes, length_append, length_snapFront, length_append, length_encode]
    unfold snapHeader snapCrcOffset
    omega
  have hpayload : (encodeSnapshot crc m snapshot).drop snapHeader = snapshot := by
    apply drop_left'
    rfl
  have hfront : (encodeSnapshot crc m snapshot).take snapCrcOffset = snapFront m snapshot := by
    exact take_left' (length_snapFront m snapshot)
  have hmagic : (encodeSnapshot crc m snapshot).take 4 = snapMagic := by
    rw [hbytes, snapFront, append_assoc]
    exact take_left' rfl
  have hcrc : field (encodeSnapshot crc m snapshot) snapCrcOffset 4
      = (crc (snapFront m snapshot ++ snapshot)).toNat := by
    unfold field
    rw [hbytes, drop_left' (length_snapFront m snapshot), take_left' (length_encode _ _)]
    exact decode_encode (crc (snapFront m snapshot ++ snapshot)).toNat_lt
  obtain ⟨-, hversion, hindex, hterm, hplen, -⟩ := snap_fields m h (stored ++ snapshot)
  rw [← hbytes] at hversion hindex hterm hplen
  unfold readSnapshotFile
  simp only [hlen, hmagic, hversion, hindex, hterm, hplen, hcrc, hpayload, hfront, ne_eq, not_true_eq_false, if_false]
  simp

end Arbitro.RaftLog
