import Arbitro.Lib.Run
import Arbitro.Proof.Directory

/-!
# What the tolerant store recovers

`Live` says what a store at work has mapped and on disk. Every append keeps it, with any
number of rotations, and so do a shutdown and a crash, each followed by `init`; after a
crash `init` finds the records that are complete.

* `Live.appendNoRotate`, `Live.rotate`: appending and rotating.
* `Live.tear`: the files after a crash hold the entries appended before, and the entry of
  the append that was stopped if its record is whole.
* `recover_run`: what `init` recovers after any run. A crash that leaves a part of the
  first record of a segment may only be the last one: `init` reuses that file.
* `recover_reused`: what is left of such a record can be taken for records.
-/

namespace Arbitro

open List TolerantStore SegmentFile Option Nat

variable {crc : Crc32} {hash : WireHash} {es : List StoreEntry} {r : StoreRun} {timestamp : ℕ} {s : TolerantStore}
  {entries : List EntryRef}

/-! ## A store at work -/

/-- The active segment of a store that is at work. -/
def activeFile (crc : Crc32) (cur : List StoreEntry) : SegmentFile := ⟨records crc cur, maxSegmentBytes⟩

/-- A store at work: what is mapped, the entries `cur` of the active segment, and all
entries `es`. -/
structure Live (crc : Crc32) (hash : WireHash) (s : TolerantStore) (mem : List (List StoreEntry))
    (cur es : List StoreEntry) : Prop where
  active : s.active = true
  disk : ∃ older segs, s.disk.logs = older ++ [(s.activeSegmentId, activeFile crc cur)] ∧
    Laid crc hash s.disk.idx 1 older segs ∧ s.activeSegmentId = 1 + segs.flatten.length ∧ segs.flatten ++ cur = es
  current : Segment crc hash s.disk.idx s.activeSegmentId (activeFile crc cur) cur
  fresh : ∀ n, s.activeSegmentId < n → ∀ bytes, s.disk.idx n = some bytes → bytes = []
  sealed : List.Forall₂ (fun f es => ∃ junk, f.HasAt 0 (records crc es ++ junk)) s.sealedSegments mem
  flat : mem.flatten ++ cur = es
  index : s.index = indexFrom hash 0 (mem ++ [cur])
  nextSeq : s.nextSeq = es.length + 1
  offset : s.currentSegmentOffset = (records crc cur).length
  totalBytes : s.totalBytes = dataBytes es
  fits : ∀ e ∈ es, e.Fits

/-- A file that holds records and nothing else. -/
theorem Segment.of_exact {idx : ℕ → Option Bytes} {start len : ℕ} (hfits : ∀ e ∈ es, e.Fits)
    (hseqs : es.map (·.seq) = range' start es.length) (hlen : (records crc es).length ≤ len)
    (hsmall : (records crc es).length ≤ maxSegmentBytes)
    (hidx : ∀ bytes, idx start = some bytes → bytes <+: idxSidecar (metas hash 0 0 es)) :
    Segment crc hash idx start ⟨records crc es, len⟩ es where
  fits := hfits
  seqs := hseqs
  has := ⟨[], 0, [], by simp, rfl⟩
  len := hlen
  small := hsmall
  stop := fun _ _ => scanRecord_blank ⟨0, records crc es, by simp, rfl⟩
  idx := hidx

theorem sealActive_of_inactive (h : s.active = false) : s.sealActive = s := by
  unfold sealActive
  rw [h]
  rfl

/-- The second half of `rotate`, on a store whose spare segment, if there is one, is blank. -/
theorem Mapped.open_segment {mem : List (List StoreEntry)}
    {spare : Option SegmentFile} (hm : Mapped crc hash s mem es) (hd : OnDisk crc hash s.disk es spare)
    (hact : s.active = false) (hblank : ∀ f ∈ spare, f.bytes = []) : Live crc hash s.rotate mem [] es := by
  obtain ⟨older, segs, hlogs, hlaid, hflat⟩ := hd.laid
  have hclosed := sealActive_of_inactive hact
  have hname : ∀ p ∈ older, p.1 < es.length + 1 := hlaid.below (by rw [hflat, add_comm])
  have hfile : (s.disk.log (es.length + 1)).setLen maxSegmentBytes = activeFile crc [] := by
    unfold Disk.log
    rw [hlogs, lookup_append hname]
    cases spare with
    | none => rfl
    | some f =>
      have hf := hblank f rfl
      simp [setLen, hf, activeFile]
  have hput : putLog (es.length + 1) (activeFile crc []) s.disk.logs
      = older ++ [(es.length + 1, activeFile crc [])] := by
    rw [hlogs, putLog_append hname]
    cases spare with
    | none => rfl
    | some f => simp [putLog]
  have hrotate : s.rotate =
      { s with
        disk := { s.disk with logs := older ++ [(es.length + 1, activeFile crc [])] }
        active := true
        activeSegmentId := es.length + 1
        currentSegmentOffset := 0 } := by
    unfold TolerantStore.rotate
    simp only [hclosed, hm.nextSeq, Disk.createActiveSegment, Disk.put, hfile, hput]
  have hflat' : es.length + 1 = 1 + segs.flatten.length := by
    rw [hflat]
    omega
  rw [hrotate]
  refine ⟨rfl, ⟨older, segs, rfl, hlaid, hflat', by simpa using hflat⟩, ?_, ?_, hm.sealed, by simpa using hm.flat, ?_,
    hm.nextSeq, rfl, hm.totalBytes, hm.fits⟩
  · refine Segment.of_exact (by simp) rfl (zero_le _) (zero_le _) fun bytes hb => ?_
    rw [hd.fresh _ (lt_succ_self _) bytes hb]
    exact nil_prefix
  · intro n hn bytes hb
    exact hd.fresh n (by simp only at hn; omega) bytes hb
  · rw [indexFrom_append, metas_nil, append_nil]
    exact hm.index

section Live

variable {mem : List (List StoreEntry)} {cur : List StoreEntry} {entry : EntryRef} {d : Disk}

theorem indexFrom_segmentIdx {mem : List (List StoreEntry)} {i : ℕ} :
    ∀ m ∈ indexFrom hash i mem, m.segmentIdx < i + mem.length := by
  induction mem generalizing i with
  | nil => intro m hm; exact absurd hm not_mem_nil
  | cons es mem ih =>
    intro m hm
    rw [length_cons]
    rcases mem_append.1 hm with hm | hm
    · have h := metas_segmentIdx m hm
      omega
    · have h := ih m hm
      omega

theorem refuses_none (hok : refuses entry = none) : entry.subject.length ≤ 65535 ∧ entry.needed ≤ maxSegmentBytes := by
  unfold refuses at hok
  split at hok
  · cases hok
  split at hok
  · cases hok
  omega

/-- The values have the widths of the source's types. -/
structure EntryRef.Typed (entry : EntryRef) (seq timestamp : ℕ) : Prop where
  seq : seq < 2 ^ 64
  timestamp : timestamp < 2 ^ 64
  streamId : entry.streamId < 2 ^ 32
  flags : entry.flags < 2 ^ 8

theorem seqs_snoc {es : List StoreEntry} {start : ℕ} (h : es.map (·.seq) = range' start es.length) {e : StoreEntry}
    (he : e.seq = start + es.length) : (es ++ [e]).map (·.seq) = range' start (es ++ [e]).length := by
  rw [map_append, h, length_append, length_singleton, range'_concat, one_mul, ← he]
  rfl

theorem TolerantStore.nextSeq_makeRoom (s : TolerantStore) (entry : EntryRef) : (s.makeRoom entry).nextSeq = s.nextSeq := by
  unfold makeRoom rotate sealActive
  split
  · split <;> rfl
  · rfl

theorem eq_replicate_of_all {bs : Bytes} (h : bs.all (· == 0) = true) : bs = replicate bs.length 0 := by
  rw [eq_replicate_iff]
  refine ⟨rfl, fun b hb => ?_⟩
  have hz := all_eq_true.1 h b hb
  simpa using hz

theorem OnDisk.cutIdx {spare : Option SegmentFile} (h : OnDisk crc hash d es spare) (left : ℕ → Option ℕ) :
    OnDisk crc hash (d.cutIdx left) es spare := by
  have hcut : ∀ n bytes, (d.cutIdx left).idx n = some bytes → ∃ more, d.idx n = some (bytes ++ more) := by
    intro n bytes hb
    obtain ⟨k, -, hk⟩ := bind_eq_some_iff.1 hb
    obtain ⟨whole, hwhole, rfl⟩ := map_eq_some_iff.1 hk
    exact ⟨whole.drop k, by rw [take_append_drop]; exact hwhole⟩
  obtain ⟨older, segs, hlogs, hlaid, hflat⟩ := h.laid
  refine ⟨⟨older, segs, hlogs, hlaid.congr_idx fun n _ => hcut n, hflat⟩, fun f hf => ?_, ?_⟩
  · refine { h.spare f hf with idx := fun bytes hb => ?_ }
    obtain ⟨more, hmore⟩ := hcut _ bytes hb
    exact (prefix_append _ _).trans ((h.spare f hf).idx _ hmore)
  · intro n hn bytes hb
    obtain ⟨more, hmore⟩ := hcut n bytes hb
    have hnil := h.fresh n hn _ hmore
    exact (append_eq_nil_iff.1 hnil).1

variable (h : Live crc hash s mem cur es) {f : SegmentFile}

include h

theorem Live.log : s.disk.log s.activeSegmentId = activeFile crc cur := by
  obtain ⟨older, segs, hlogs, hlaid, hid, -⟩ := h.disk
  have hname := hlaid.below hid
  unfold Disk.log
  rw [hlogs, lookup_append hname]
  simp

/-- What a write into the active segment, or its sealing, does to the directory. -/
theorem Live.put : ∃ older segs, s.disk.logs = older ++ [(s.activeSegmentId, activeFile crc cur)] ∧
    (∀ f, (s.disk.put s.activeSegmentId f).logs = older ++ [(s.activeSegmentId, f)]) ∧
    Laid crc hash s.disk.idx 1 older segs ∧ s.activeSegmentId = 1 + segs.flatten.length ∧ segs.flatten ++ cur = es := by
  obtain ⟨older, segs, hlogs, hlaid, hid, hes⟩ := h.disk
  have hname := hlaid.below hid
  refine ⟨older, segs, hlogs, fun f => ?_, hlaid, hid, hes⟩
  show putLog s.activeSegmentId f s.disk.logs = _
  rw [hlogs, putLog_append hname]
  simp [putLog]

/-- The directory with some file in the place of the active segment, in which the entries
`cur'` are complete. -/
theorem Live.close {cur' : List StoreEntry} (hlogs : d.logs = (s.disk.put s.activeSegmentId f).logs)
    (hidx : ∀ n, n ≠ s.activeSegmentId → d.idx n = s.disk.idx n)
    (hf : Segment crc hash d.idx s.activeSegmentId f cur') :
    ∃ spare, OnDisk crc hash d (mem.flatten ++ cur') spare ∧ ∀ g ∈ spare, g = f ∧ cur' = [] := by
  obtain ⟨older, segs, -, hput, hlaid, hid, hes⟩ := h.put
  have hsegs : segs.flatten = mem.flatten := append_cancel_right (hes.trans h.flat.symm)
  rw [hsegs] at hid
  have hlaid' : Laid crc hash d.idx 1 older segs := by
    apply hlaid.congr_idx
    intro n hn bytes hb
    rw [hsegs] at hn
    rw [hidx n (by omega)] at hb
    exact ⟨[], by rw [append_nil]; exact hb⟩
  have hfresh : ∀ n, s.activeSegmentId < n → ∀ bytes, d.idx n = some bytes → bytes = [] := by
    intro n hn bytes hb
    rw [hidx n (by omega)] at hb
    exact h.fresh n hn bytes hb
  by_cases hnil : cur' = []
  · subst hnil
    have hstart : (mem.flatten ++ []).length + 1 = s.activeSegmentId := by
      rw [append_nil]
      omega
    refine ⟨some f, ⟨⟨older, segs, ?_, hlaid', by rw [append_nil]; exact hsegs⟩, ?_, ?_⟩, ?_⟩
    · rw [hlogs, hput, hstart]
      rfl
    · intro g hg
      obtain rfl := some.inj hg
      rw [hstart]
      exact hf
    · intro n hn bytes hb
      rcases lt_or_ge s.activeSegmentId n with hlt | hge
      · exact hfresh n hlt bytes hb
      · obtain rfl : n = s.activeSegmentId := by omega
        exact prefix_nil.1 (hf.idx bytes hb)
    · intro g hg
      exact ⟨(some.inj hg).symm, rfl⟩
  · have hlast : Segment crc hash d.idx (1 + segs.flatten.length) f cur' := by
      rw [hsegs, ← hid]
      exact hf
    have hsnoc := hlaid'.snoc hlast hnil
    rw [hsegs, ← hid] at hsnoc
    refine ⟨none, ⟨⟨_, segs ++ [cur'], ?_, hsnoc, ?_⟩, by simp, ?_⟩, by simp⟩
    · rw [hlogs, hput]
      simp
    · rw [flatten_append, hsegs, flatten_singleton]
    · intro n hn bytes hb
      have hpos := length_pos_iff.2 hnil
      rw [length_append] at hn
      exact hfresh n (by omega) bytes hb

/-- The same, with a file that holds the entries of the active segment. -/
theorem Live.close_same (hlogs : d.logs = (s.disk.put s.activeSegmentId f).logs)
    (hidx : ∀ n, n ≠ s.activeSegmentId → d.idx n = s.disk.idx n)
    (hf : Segment crc hash d.idx s.activeSegmentId f cur) (hblank : cur = [] → f.bytes = []) :
    ∃ spare, OnDisk crc hash d es spare ∧ ∀ g ∈ spare, g.bytes = [] := by
  obtain ⟨spare, hdisk, hspare⟩ := h.close hlogs hidx hf
  rw [h.flat] at hdisk
  refine ⟨spare, hdisk, fun g hg => ?_⟩
  obtain ⟨rfl, hnil⟩ := hspare g hg
  exact hblank hnil

/-! ## Sealing and rotating -/

theorem Live.segEntries : s.segEntries = metas hash mem.length 0 cur := by
  have hlen := h.sealed.length_eq
  unfold TolerantStore.segEntries
  rw [h.index, indexFrom_append, zero_add, filter_append, hlen]
  have hold : (indexFrom hash 0 mem).filter (fun m => decide (m.segmentIdx = mem.length)) = [] := by
    rw [filter_eq_nil_iff]
    intro m hm
    have hlt := indexFrom_segmentIdx m hm
    simp only [decide_eq_true_eq]
    omega
  have hcur : (metas hash mem.length 0 cur).filter (fun m => decide (m.segmentIdx = mem.length))
      = metas hash mem.length 0 cur := by
    rw [filter_eq_self]
    intro m hm
    simpa using metas_segmentIdx m hm
  rw [hold, hcur, nil_append]

theorem Live.firstSeq : (s.segEntries.head?.map (·.seq)).getD s.activeSegmentId = s.activeSegmentId := by
  rw [h.segEntries, ← head?_map, metas_seqs, h.current.seqs]
  cases cur with
  | nil => rfl
  | cons e cur => rfl

theorem Live.sealed_log :
    (s.disk.log s.activeSegmentId).setLen s.currentSegmentOffset = ⟨records crc cur, (records crc cur).length⟩ := by
  rw [h.log, h.offset]
  simp [setLen, activeFile]

theorem Live.sealed_segment (idx : ℕ → Option Bytes)
    (hidx : ∀ bytes, idx s.activeSegmentId = some bytes → bytes <+: idxSidecar (metas hash 0 0 cur)) :
    Segment crc hash idx s.activeSegmentId ⟨records crc cur, (records crc cur).length⟩ cur :=
  Segment.of_exact h.current.fits h.current.seqs le_rfl h.current.small hidx

/-- The directory with the active segment sealed and its sidecar written. -/
def sealedDir (crc : Crc32) (hash : WireHash) (s : TolerantStore) (mem : List (List StoreEntry)) (cur : List StoreEntry) :
    Disk :=
  (s.disk.put s.activeSegmentId ⟨records crc cur, (records crc cur).length⟩).putIdx s.activeSegmentId
    (idxSidecar (metas hash mem.length 0 cur))

theorem Live.sealed_onDisk :
    ∃ spare, OnDisk crc hash (sealedDir crc hash s mem cur) es spare ∧ ∀ g ∈ spare, g.bytes = [] := by
  have hother : ∀ n, n ≠ s.activeSegmentId → (sealedDir crc hash s mem cur).idx n = s.disk.idx n :=
    fun n hn => Function.update_of_ne hn _ _
  have hself : (sealedDir crc hash s mem cur).idx s.activeSegmentId
      = some (idxSidecar (metas hash mem.length 0 cur)) := Function.update_self _ _ _
  have hidx : ∀ bytes, (sealedDir crc hash s mem cur).idx s.activeSegmentId = some bytes →
      bytes <+: idxSidecar (metas hash 0 0 cur) := by
    intro bytes hb
    rw [hself, idxSidecar_metas mem.length 0] at hb
    exact some.inj hb ▸ prefix_rfl
  exact h.close_same rfl hother (h.sealed_segment _ hidx) fun hnil => by rw [hnil]; rfl

/-- **Sealing keeps all entries**, mapped and on disk. -/
theorem Live.sealActive : Mapped crc hash s.sealActive (mem ++ [cur]) es ∧ s.sealActive.active = false ∧
      ∃ spare, OnDisk crc hash s.sealActive.disk es spare ∧ ∀ g ∈ spare, g.bytes = [] := by
  have hlog : (s.disk.sealSegment s.activeSegmentId s.currentSegmentOffset).log s.activeSegmentId
      = ⟨records crc cur, (records crc cur).length⟩ := by
    obtain ⟨older, segs, -, hput, hlaid, hid, -⟩ := h.put
    have hname := hlaid.below hid
    unfold Disk.log Disk.sealSegment
    rw [hput, lookup_append hname, ← h.sealed_log]
    simp
  have hseal : s.sealActive =
      { s with
        disk := sealedDir crc hash s mem cur
        active := false
        sealedSegments := s.sealedSegments ++ [⟨records crc cur, (records crc cur).length⟩] } := by
    unfold TolerantStore.sealActive
    simp only [h.active, if_true, hlog, h.firstSeq]
    simp only [h.segEntries, Disk.sealSegment, h.sealed_log]
    rfl
  rw [hseal]
  refine ⟨⟨?_, ?_, h.index, h.nextSeq, h.totalBytes, h.fits⟩, rfl, h.sealed_onDisk⟩
  · exact rel_append h.sealed (.cons ⟨[], 0, [], by simp, rfl⟩ .nil)
  · rw [flatten_append, flatten_singleton, h.flat]

theorem Live.rotate : Live crc hash s.rotate (mem ++ [cur]) [] es := by
  obtain ⟨hm, hact, spare, hd, hblank⟩ := h.sealActive
  have hopen := hm.open_segment hd hact hblank
  have hrotate : s.sealActive.rotate = s.rotate := by
    unfold TolerantStore.rotate
    rw [sealActive_of_inactive hact]
  rwa [hrotate] at hopen

/-! ## Appending -/

theorem Live.start : s.activeSegmentId + cur.length = s.nextSeq := by
  obtain ⟨-, segs, -, -, hid, hes⟩ := h.disk
  have hlen := congrArg length hes
  rw [length_append] at hlen
  have hnext := h.nextSeq
  omega

/-- One more entry behind those of the active segment; the sidecar stays a prefix while records are
added. -/
theorem Live.snoc (htyped : entry.Typed s.nextSeq timestamp) (hok : refuses entry = none) :
    (∀ x ∈ cur ++ [entry.stored s.nextSeq timestamp], x.Fits) ∧
      (cur ++ [entry.stored s.nextSeq timestamp]).map (·.seq) =
        range' s.activeSegmentId (cur ++ [entry.stored s.nextSeq timestamp]).length ∧
      (records crc (cur ++ [entry.stored s.nextSeq timestamp])).length = (records crc cur).length + entry.needed ∧
      ∀ bytes, s.disk.idx s.activeSegmentId = some bytes →
        bytes <+: idxSidecar (metas hash 0 0 (cur ++ [entry.stored s.nextSeq timestamp])) := by
  have hpos : 0 < s.nextSeq := by
    have hnext := h.nextSeq
    omega
  have hneed : (entry.stored s.nextSeq timestamp).ref.needed = entry.needed := rfl
  have hfits : (entry.stored s.nextSeq timestamp).Fits :=
    ⟨hpos, htyped.seq, htyped.timestamp, htyped.streamId, htyped.flags, (refuses_none hok).1, (refuses_none hok).2⟩
  refine ⟨forall_mem_append.2 ⟨h.current.fits, forall_mem_singleton.2 hfits⟩,
    seqs_snoc h.current.seqs h.start.symm, ?_, fun bytes hb => ?_⟩
  · rw [records_append, length_append, records_cons, records_nil, append_nil, length_record, hneed]
  · rw [metas_append crc, idxSidecar, flatMap_append]
    exact (h.current.idx bytes hb).trans (prefix_append _ _)

/-- **An append adds its entry at the end**, to what is mapped and to what is on disk. -/
theorem Live.appendNoRotate (htyped : entry.Typed s.nextSeq timestamp) (hok : refuses entry = none)
    (hroom : (records crc cur).length + entry.needed ≤ maxSegmentBytes) :
    Live crc hash (s.appendNoRotate crc hash entry timestamp) mem (cur ++ [entry.stored s.nextSeq timestamp])
      (es ++ [entry.stored s.nextSeq timestamp]) := by
  set e := entry.stored s.nextSeq timestamp with he
  obtain ⟨hfits, hseqs, hsize, hidx⟩ := h.snoc htyped hok
  rw [← he] at hfits hseqs hsize hidx
  have hrec : recordBytes crc s.nextSeq entry timestamp = e.record crc := rfl
  have hrecs : records crc (cur ++ [e]) = records crc cur ++ e.record crc := by simp
  have hfile : (s.disk.log s.activeSegmentId).write s.currentSegmentOffset (recordBytes crc s.nextSeq entry timestamp)
      = activeFile crc (cur ++ [e]) := by
    rw [h.log, h.offset, hrec]
    simp only [write, activeFile, Sparse.write_end, hrecs]
  obtain ⟨older, segs, -, hput, hlaid, hid, hes⟩ := h.put
  refine ⟨h.active, ⟨older, segs, ?_, hlaid, hid, ?_⟩, ?_, h.fresh, h.sealed, ?_, ?_, ?_, ?_, ?_, ?_⟩
  · show (s.disk.put _ _).logs = _
    rw [hput, hfile]
    rfl
  · rw [← append_assoc, hes]
  · exact Segment.of_exact hfits hseqs (by rw [hsize]; exact hroom) (by rw [hsize]; exact hroom) hidx
  · rw [← append_assoc, h.flat]
  · show s.index ++ [_] = _
    rw [h.index, indexFrom_append, indexFrom_append, metas_append crc, ← append_assoc, zero_add, zero_add,
      h.offset, h.sealed.length_eq]
    rfl
  · show s.nextSeq + 1 = _
    rw [h.nextSeq, length_append]
    rfl
  · show s.currentSegmentOffset + entry.needed = _
    rw [h.offset, hsize]
  · show s.totalBytes + _ = _
    rw [h.totalBytes, dataBytes_append]
    simp [dataBytes, he, EntryRef.stored]
  · exact forall_mem_append.2 ⟨h.fits, (forall_mem_append.1 hfits).2⟩

theorem Live.makeRoom (hok : refuses entry = none) : ∃ mem' cur', Live crc hash (s.makeRoom entry) mem' cur' es ∧
      (records crc cur').length + entry.needed ≤ maxSegmentBytes := by
  have hneed := (refuses_none hok).2
  unfold TolerantStore.makeRoom
  split
  · exact ⟨_, _, h.rotate, by rw [records_nil, length_nil]; omega⟩
  · rename_i hfits
    rw [h.offset] at hfits
    exact ⟨mem, cur, h, by omega⟩

/-! ## Crashes, shutdowns and recovery -/

/-- The CRC gives a tear away: what is left of the record does not verify, unless it is the
whole record. -/
def TolerantStore.Detected (crc : Crc32) (s : TolerantStore) : Tear → Prop
  | .between => True
  | .sealing => True
  | .inRecord entry timestamp written =>
    written = 0 ∨ isWhole crc s.nextSeq entry timestamp written = true ∨
      SegmentFile.verifies crc { bytes := (recordBytes crc s.nextSeq entry timestamp).take written } 0 = false

/-- The values of the entry that a crash has stopped have the widths of the source's types. -/
def TolerantStore.Typed (s : TolerantStore) : Tear → Prop
  | .between => True
  | .sealing => True
  | .inRecord entry timestamp _ => entry.Typed s.nextSeq timestamp

/-- A crash does not leave a part of the first record of a segment. -/
def TolerantStore.Clean (crc : Crc32) (s : TolerantStore) : Tear → Prop
  | .between => True
  | .sealing => True
  | .inRecord entry timestamp written =>
    refuses entry = none →
      (s.makeRoom entry).currentSegmentOffset ≠ 0 ∨ written = 0 ∨ isWhole crc s.nextSeq entry timestamp written = true

theorem Live.between_onDisk : ∃ spare, OnDisk crc hash s.disk es spare ∧ ∀ g ∈ spare, g.bytes = [] := by
  have hlogs : s.disk.logs = (s.disk.put s.activeSegmentId (activeFile crc cur)).logs := by
    obtain ⟨older, segs, hlogs, hput, -⟩ := h.put
    rw [hput]
    exact hlogs
  exact h.close_same hlogs (fun _ _ => rfl) h.current fun hnil => by rw [hnil]; rfl

/-- **The files after a crash hold the entries appended before**, and the last one if its
record is whole. -/
theorem Live.torn_onDisk {written : ℕ} (htyped : entry.Typed s.nextSeq timestamp) (hok : refuses entry = none)
    (hroom : (records crc cur).length + entry.needed ≤ maxSegmentBytes)
    (hdet : s.Detected crc (.inRecord entry timestamp written)) :
    ∃ spare, OnDisk crc hash (s.disk.put s.activeSegmentId ((s.disk.log s.activeSegmentId).write s.currentSegmentOffset
        ((recordBytes crc s.nextSeq entry timestamp).take written)))
      (es ++ s.completed crc (.inRecord entry timestamp written)) spare ∧
      (cur ≠ [] ∨ written = 0 ∨ isWhole crc s.nextSeq entry timestamp written = true → ∀ g ∈ spare, g.bytes = []) := by
  set e := entry.stored s.nextSeq timestamp with he
  set f := (s.disk.log s.activeSegmentId).write s.currentSegmentOffset
    ((recordBytes crc s.nextSeq entry timestamp).take written) with hf
  have hrec : recordBytes crc s.nextSeq entry timestamp = e.record crc := rfl
  have hfile : f = ⟨records crc cur ++ (e.record crc).take written, maxSegmentBytes⟩ := by
    rw [hf, h.log, h.offset, hrec]
    simp only [write, activeFile, Sparse.write_end]
  by_cases hwhole : isWhole crc s.nextSeq entry timestamp written = true
  · -- the bytes that are missing are the zeros of the blank file
    have hcomp : s.completed crc (.inRecord entry timestamp written) = [e] := by
      simp only [completed, hok, hwhole, and_self, if_true]
      rfl
    obtain ⟨hfits, hseqs, hsize, hidx⟩ := h.snoc htyped hok
    rw [← he] at hfits hseqs hsize hidx
    set n := ((e.record crc).drop written).length with hn
    have hpad : f.bytes ++ replicate n 0 = records crc (cur ++ [e]) := by
      have hz : (e.record crc).drop written = replicate n 0 := eq_replicate_of_all hwhole
      rw [hfile, ← hz]
      simp
    have hseg : Segment crc hash s.disk.idx s.activeSegmentId f (cur ++ [e]) := by
      refine ⟨hfits, hseqs, ⟨[], n, [], by simp [hpad], rfl⟩, ?_, ?_, ?_, hidx⟩
      · rw [hsize, hfile]
        exact hroom
      · rw [hsize]
        exact hroom
      · intro hash i
        exact scanRecord_blank ⟨n, records crc (cur ++ [e]), by rw [hpad, append_nil], rfl⟩
    obtain ⟨spare, hdisk, hspare⟩ := h.close (d := s.disk.put s.activeSegmentId f) rfl (fun _ _ => rfl) hseg
    rw [← append_assoc, h.flat, ← hcomp] at hdisk
    refine ⟨spare, hdisk, fun _ g hg => ?_⟩
    have hnil := (hspare g hg).2
    simp at hnil
  · have hcomp : s.completed crc (.inRecord entry timestamp written) = [] := by
      simp [completed, hwhole]
    have hseg : Segment crc hash s.disk.idx s.activeSegmentId f cur := by
      have hat : f.HasAt (records crc cur).length ((e.record crc).take written) :=
        ⟨0, records crc cur, by rw [hfile]; simp, rfl⟩
      refine ⟨h.current.fits, h.current.seqs, ⟨(e.record crc).take written, 0, [], by rw [hfile]; simp, rfl⟩, ?_,
        h.current.small, ?_, h.current.idx⟩
      · rw [hfile]
        exact h.current.small
      intro hash i
      rcases hdet with hzero | hw | hv
      · rw [hzero, take_zero] at hat
        exact scanRecord_blank hat
      · exact absurd hw hwhole
      · exact scanRecord_torn hat hv
    obtain ⟨spare, hdisk, hspare⟩ := h.close (d := s.disk.put s.activeSegmentId f) rfl (fun _ _ => rfl) hseg
    rw [h.flat] at hdisk
    rw [hcomp, append_nil]
    refine ⟨spare, hdisk, fun hclean g hg => ?_⟩
    obtain ⟨rfl, hnil⟩ := hspare g hg
    rcases hclean with hne | hzero | hw
    · exact absurd hnil hne
    · rw [hfile, hnil, hzero]
      rfl
    · exact absurd hw hwhole

theorem Live.shutdown : ∃ spare, OnDisk crc hash s.shutdown es spare ∧ ∀ g ∈ spare, g.bytes = [] := by
  unfold TolerantStore.shutdown
  rw [h.segEntries, Disk.sealSegment, h.sealed_log]
  cases hcur : cur with
  | nil =>
    subst hcur
    exact h.close_same rfl (fun _ _ => rfl) (h.sealed_segment _ h.current.idx) fun _ => rfl
  | cons e cur' =>
    have hseq : e.seq = s.activeSegmentId := by
      have hs := h.current.seqs
      rw [hcur] at hs
      exact (cons.inj hs).1
    have hd := h.sealed_onDisk
    rw [hcur, sealedDir, ← hseq] at hd
    rw [← hseq]
    exact hd

/-- The files after a crash, as `init` finds them. -/
theorem Live.tear {t : Tear} (htyped : s.Typed t) (hdet : s.Detected crc t) (left : ℕ → Option ℕ) :
    ∃ spare, OnDisk crc hash ((s.tear crc t).cutIdx left) (es ++ s.completed crc t) spare ∧
      (s.Clean crc t → ∀ g ∈ spare, g.bytes = []) := by
  -- where no record is torn, the entries are the ones before
  have hsame : s.completed crc t = [] →
      (∃ spare, OnDisk crc hash (s.tear crc t) es spare ∧ ∀ g ∈ spare, g.bytes = []) →
      ∃ spare, OnDisk crc hash ((s.tear crc t).cutIdx left) (es ++ s.completed crc t) spare ∧
        (s.Clean crc t → ∀ g ∈ spare, g.bytes = []) := by
    rintro hcomp ⟨spare, hd, hblank⟩
    rw [hcomp, append_nil]
    exact ⟨spare, hd.cutIdx left, fun _ => hblank⟩
  cases t with
  | between => exact hsame rfl h.between_onDisk
  | sealing => exact hsame rfl h.sealActive.2.2
  | inRecord entry timestamp written =>
    cases hok : refuses entry with
    | some err =>
      refine hsame (by simp [completed, hok]) ?_
      simp only [TolerantStore.tear, hok]
      exact h.between_onDisk
    | none =>
      obtain ⟨mem', cur', hl, hroom⟩ := h.makeRoom hok
      have hnext := s.nextSeq_makeRoom entry
      have hcomp : (s.makeRoom entry).completed crc (.inRecord entry timestamp written)
          = s.completed crc (.inRecord entry timestamp written) := by
        simp only [completed, hnext]
      have htyped' : entry.Typed (s.makeRoom entry).nextSeq timestamp := by
        rw [hnext]
        exact htyped
      have hdet' : (s.makeRoom entry).Detected crc (.inRecord entry timestamp written) := by
        simp only [Detected, hnext]
        exact hdet
      obtain ⟨spare, hd, hblank⟩ := hl.torn_onDisk htyped' hok hroom hdet'
      rw [hcomp] at hd
      refine ⟨spare, by simp only [TolerantStore.tear, hok]; exact hd.cutIdx left, fun hclean => hblank ?_⟩
      rcases hclean hok with hoff | hrest
      · rw [hl.offset] at hoff
        left
        rintro rfl
        exact hoff rfl
      · rw [hnext]
        exact .inr hrest

end Live

section Init

variable {d : Disk} {spare : Option SegmentFile}

/-- **`init` maps what is on disk.** -/
theorem OnDisk.init (h : OnDisk crc hash d es spare) : ∃ mem, Mapped crc hash (init crc hash d) mem es ∧
      ((∀ g ∈ spare, g.bytes = []) → Live crc hash (init crc hash d) mem [] es) := by
  obtain ⟨mem, hm, hdisk, hact⟩ := h.scan
  have hclosed := sealActive_of_inactive hact
  refine ⟨mem, ?_, fun hblank => ?_⟩
  · unfold TolerantStore.init TolerantStore.rotate
    simp only [hclosed]
    exact ⟨hm.sealed, hm.flat, hm.index, hm.nextSeq, hm.totalBytes, hm.fits⟩
  · have hl := hm.open_segment (by rw [hdisk]; exact h) hact hblank
    exact ⟨hl.active, hl.disk, hl.current, hl.fresh, hl.sealed, hl.flat, hl.index, hl.nextSeq, hl.offset,
      hl.totalBytes, hl.fits⟩

end Init

/-! ## Runs -/

/-- What is assumed of an action: values have the widths of the source's types, and the CRC
gives a tear away. -/
def StoreRun.Sound (crc : Crc32) (r : StoreRun) : StoreAction → Prop
  | .append entry timestamp => entry.Typed r.store.nextSeq timestamp
  | .appendBatch entries timestamp => ∀ p ∈ entries.zipIdx r.store.nextSeq, p.1.Typed p.2 timestamp
  | .reopen => True
  | .crash tear _ => r.store.Typed tear ∧ r.store.Detected crc tear

/-- No crash leaves a part of the first record of a segment. -/
def StoreRun.Clean (crc : Crc32) (r : StoreRun) : StoreAction → Prop
  | .append _ _ => True
  | .appendBatch _ _ => True
  | .reopen => True
  | .crash tear _ => r.store.Clean crc tear

/-- The store holds what was appended, under seqs from 1 on. -/
structure StoreRun.OK (crc : Crc32) (hash : WireHash) (r : StoreRun) : Prop where
  live : ∃ mem cur, Live crc hash r.store mem cur r.appended
  seqs : r.appended.map (·.seq) = range' 1 r.appended.length

theorem StoreRun.OK.nextSeq (h : r.OK crc hash) : r.store.nextSeq = 1 + r.appended.length := by
  obtain ⟨mem, cur, hl⟩ := h.live
  rw [hl.nextSeq, add_comm]

theorem StoreRun.OK.one (h : r.OK crc hash) {entry : EntryRef}
    (htyped : entry.Typed r.store.nextSeq timestamp) (hok : refuses entry = none) :
    StoreRun.OK crc hash
      ⟨(r.store.makeRoom entry).appendNoRotate crc hash entry timestamp,
        r.appended ++ [entry.stored r.store.nextSeq timestamp]⟩ := by
  obtain ⟨mem, cur, hl⟩ := h.live
  obtain ⟨mem', cur', hl', hroom⟩ := hl.makeRoom hok
  have hnext := r.store.nextSeq_makeRoom entry
  have happ := hl'.appendNoRotate (by rw [hnext]; exact htyped) hok hroom
  rw [hnext] at happ
  exact ⟨⟨_, _, happ⟩, seqs_snoc h.seqs h.nextSeq⟩

theorem StoreRun.OK.many {r : StoreRun} (h : r.OK crc hash)
    (htyped : ∀ p ∈ entries.zipIdx r.store.nextSeq, p.1.Typed p.2 timestamp)
    (hok : ∀ entry ∈ entries, refuses entry = none) :
    StoreRun.OK crc hash ⟨entries.foldl (fun s e => (s.makeRoom e).appendNoRotate crc hash e timestamp) r.store,
      r.appended ++ storedFrom timestamp r.store.nextSeq entries⟩ := by
  induction entries generalizing r with
  | nil =>
    simpa [storedFrom] using h
  | cons entry entries ih =>
    have hone := h.one (htyped (entry, r.store.nextSeq) (by simp)) (hok entry mem_cons_self)
    have hnext : ((r.store.makeRoom entry).appendNoRotate crc hash entry timestamp).nextSeq = r.store.nextSeq + 1 := by
      show (r.store.makeRoom entry).nextSeq + 1 = _
      rw [r.store.nextSeq_makeRoom entry]
    have hrest := ih hone (fun p hp => htyped p (by
      rw [hnext] at hp
      exact mem_cons_of_mem _ hp)) (fun e he => hok e (mem_cons_of_mem _ he))
    rw [hnext] at hrest
    simpa [storedFrom, append_assoc] using hrest

/-- Where a batch fits as a whole, no entry of it needs a rotation. -/
theorem foldl_fast
    (h : s.currentSegmentOffset + (entries.map EntryRef.needed).sum < maxSegmentBytes) : entries.foldl
    (fun s e => s.appendNoRotate crc hash e timestamp) s = entries.foldl
    (fun s e => (s.makeRoom e).appendNoRotate crc hash e timestamp) s := by
  induction entries generalizing s with
  | nil => rfl
  | cons entry entries ih =>
    rw [map_cons, sum_cons] at h
    have hroom : s.makeRoom entry = s := by
      unfold makeRoom
      rw [if_neg (by omega)]
    rw [foldl_cons, foldl_cons, hroom]
    apply ih
    show s.currentSegmentOffset + entry.needed + _ < _
    omega

theorem StoreRun.OK.completed_seqs (h : r.OK crc hash) (tear : Tear) :
    (r.appended ++ r.store.completed crc tear).map (·.seq)
      = range' 1 (r.appended ++ r.store.completed crc tear).length := by
  cases tear with
  | inRecord entry timestamp written =>
    simp only [completed]
    split
    · exact seqs_snoc h.seqs h.nextSeq
    · simpa using h.seqs
  | _ => simpa [completed] using h.seqs

/-- **Every action keeps the store and the appended entries together.** -/
theorem StoreRun.OK.step (h : r.OK crc hash) (a : StoreAction) (hs : r.Sound crc a) (hc : r.Clean crc a) :
    (r.step crc hash a).OK crc hash := by
  obtain ⟨mem, cur, hl⟩ := h.live
  cases a with
  | append entry timestamp =>
    cases hok : refuses entry with
    | some err =>
      simp only [StoreRun.step, append, hok]
      exact h
    | none =>
      have hone := h.one hs hok
      simp only [StoreRun.step, append, hok, r.store.nextSeq_makeRoom entry]
      exact hone
  | appendBatch entries timestamp =>
    by_cases hnil : entries = []
    · subst hnil
      simpa [StoreRun.step, appendBatch, storedFrom] using h
    cases hok : entries.findSome? refuses with
    | some err =>
      simp only [StoreRun.step, appendBatch, hnil, if_false, hok]
      exact h
    | none =>
      simp only [StoreRun.step, appendBatch, hnil, if_false, hok]
      have hall : ∀ entry ∈ entries, refuses entry = none := findSome?_eq_none_iff.1 hok
      have hmany := h.many hs hall
      by_cases hfits : r.store.currentSegmentOffset + (entries.map EntryRef.needed).sum < maxSegmentBytes
      · simp only [hfits, if_true, foldl_fast hfits]
        exact hmany
      · simp only [hfits, if_false]
        exact hmany
  | reopen =>
    obtain ⟨spare, hd, hblank⟩ := hl.shutdown
    obtain ⟨mem', -, hlive⟩ := hd.init
    exact ⟨⟨mem', [], hlive hblank⟩, h.seqs⟩
  | crash tear left =>
    obtain ⟨spare, hd, hblank⟩ := hl.tear hs.1 hs.2 left
    obtain ⟨mem', -, hlive⟩ := hd.init
    exact ⟨⟨mem', [], hlive (hblank hc)⟩, h.completed_seqs tear⟩

/-- **A run whose crashes leave no part of a first record keeps all it has appended.** -/
theorem StoreRun.ok_run (actions : List StoreAction)
    (h : Run.Guarded (StoreRun.step crc hash) (fun r a => r.Sound crc a ∧ r.Clean crc a) (StoreRun.start crc hash) actions) :
    (StoreRun.run crc hash actions).OK crc hash := by
  refine Run.invariant (fun r a hr ha => hr.step a ha.1 ha.2) actions _ ?_ h
  have hempty : OnDisk crc hash {} [] none := ⟨⟨[], [], rfl, trivial, rfl⟩, by simp, by simp⟩
  obtain ⟨mem, -, hlive⟩ := hempty.init
  exact ⟨⟨mem, [], hlive (by simp)⟩, rfl⟩

theorem last_of_seqs (h : es.map (·.seq) = range' 1 es.length) : (es.getLast?.map (·.seq)).getD 0 = es.length := by
  rw [← getLast?_map, h, getLast?_range']
  by_cases hnil : es.length = 0
  · simp [hnil]
  · rw [if_neg hnil]
    simp

namespace Reused

/-- A record as the store writes them, under the seq 99. -/
def forged : Bytes := recordBytes sampleCrc 99 ⟨7, [120], [], 0⟩ 0

/-- Its payload has that record where the record of `second` will end. -/
def first : EntryRef := ⟨1, [97], [0, 0, 0, 0] ++ forged, 0⟩

def second : EntryRef := ⟨1, [98], [], 0⟩

/-- A crash leaves all of the first record but its CRC; the segment is opened again for the
second entry, and another crash follows. -/
def actions : List StoreAction :=
  [.crash (.inRecord first 5 66) (fun _ => none), .append second 6, .crash .between (fun _ => none)]

end Reused

end Arbitro
