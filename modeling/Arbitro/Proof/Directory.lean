import Arbitro.Proof.Segment
import Arbitro.Store.Tolerant

/-!
# What the segments of a directory hold

The records that are complete in the files of a store, and what loading the files makes of
them.

* `loadSegment_eq`: a segment is loaded with its complete records, whatever is left of its
  sidecar.
* `OnDisk.scan`: scanning a directory maps all complete records, in order.
* `Mapped.entries`: what is mapped is what the store hands out.
-/

namespace Arbitro

open TolerantStore List Option Nat

variable {crc : Crc32} {hash : WireHash} {segs : List (List StoreEntry)} {es : List StoreEntry} {idx : ℕ → Option Bytes}
  {start name : ℕ} {f : SegmentFile} {s : TolerantStore} {mem : List (List StoreEntry)}
  {logs older : List (ℕ × SegmentFile)} (i j : ℕ) {rest : List (ℕ × SegmentFile)}

/-! ## Entries in a segment -/

/-- The bytes of subjects and payloads, as `total_bytes` counts them. -/
def dataBytes (es : List StoreEntry) : ℕ := (es.map fun e => e.subject.length + e.payload.length).sum

/-- The entries of the index for segments one after the other. -/
def indexFrom (hash : WireHash) : ℕ → List (List StoreEntry) → List LogMetadata
  | _, [] => []
  | i, es :: segs => metas hash i 0 es ++ indexFrom hash (i + 1) segs

/-- A segment file and the entries whose records are complete in it. -/
structure Segment (crc : Crc32) (hash : WireHash) (idx : ℕ → Option Bytes) (start : ℕ) (f : SegmentFile)
    (es : List StoreEntry) : Prop where
  fits : ∀ e ∈ es, e.Fits
  seqs : es.map (·.seq) = range' start es.length
  has : ∃ junk, f.HasAt 0 (records crc es ++ junk)
  len : (records crc es).length ≤ f.len
  small : (records crc es).length ≤ maxSegmentBytes
  stop : ∀ hash i, scanRecord crc hash i f (records crc es).length = none
  idx : ∀ bytes, idx start = some bytes → bytes <+: idxSidecar (metas hash 0 0 es)

/-- Segment files one after the other, each named after its first seq and none without a
record. -/
def Laid (crc : Crc32) (hash : WireHash) (idx : ℕ → Option Bytes) :
    ℕ → List (ℕ × SegmentFile) → List (List StoreEntry) → Prop
  | _, [], [] => True
  | start, log :: logs, es :: segs =>
    log.1 = start ∧ es ≠ [] ∧ Segment crc hash idx start log.2 es ∧ Laid crc hash idx (start + es.length) logs segs
  | _, _, _ => False

/-- The files of a closed store: segments with records, and possibly one more, named after
the next seq, in which no record is complete. -/
structure OnDisk (crc : Crc32) (hash : WireHash) (d : Disk) (es : List StoreEntry) (spare : Option SegmentFile) :
    Prop where
  laid : ∃ older segs, d.logs = older ++ (spare.map fun f => (es.length + 1, f)).toList ∧
    Laid crc hash d.idx 1 older segs ∧ segs.flatten = es
  spare : ∀ f ∈ spare, Segment crc hash d.idx (es.length + 1) f []
  fresh : ∀ n, es.length < n → ∀ bytes, d.idx n = some bytes → bytes = []

/-- The mapped segments and the index, without the active segment. -/
structure Mapped (crc : Crc32) (hash : WireHash) (s : TolerantStore) (mem : List (List StoreEntry)) (es : List StoreEntry) :
    Prop where
  sealed : Forall₂ (fun f es => ∃ junk, f.HasAt 0 (records crc es ++ junk)) s.sealedSegments mem
  flat : mem.flatten = es
  index : s.index = indexFrom hash 0 mem
  nextSeq : s.nextSeq = es.length + 1
  totalBytes : s.totalBytes = dataBytes es
  fits : ∀ e ∈ es, e.Fits

/-! ## Small facts -/

theorem indexFrom_append (i : ℕ) :
    indexFrom hash i (mem ++ [es]) = indexFrom hash i mem ++ metas hash (i + mem.length) 0 es := by
  induction mem generalizing i with
  | nil => simp [indexFrom]
  | cons a mem ih =>
    simp only [cons_append, indexFrom, ih, append_assoc, length_cons]
    rw [add_assoc, add_comm 1]

theorem dataBytes_append (es es' : List StoreEntry) : dataBytes (es ++ es') = dataBytes es + dataBytes es' := by
  simp [dataBytes]

theorem dataBytes_metas (i : ℕ) {offset : ℕ} :
    ((metas hash i offset es).map fun m => m.subjLen + m.payloadLen).sum = dataBytes es := by
  induction es generalizing offset with
  | nil => rfl
  | cons e es ih =>
    simp only [metas, map_cons, sum_cons, ih]
    rfl

theorem metas_stop (crc : Crc32) (hne : es ≠ []) (i : ℕ) : ∀ offset : ℕ,
    (metas hash i offset es).getLast?.map LogMetadata.stop = some (offset + (records crc es).length) := by
  induction es with
  | nil => exact absurd rfl hne
  | cons e es ih =>
    intro offset
    cases es with
    | nil =>
      have hneed := e.needed_ref
      simp only [metas, metaAt, LogMetadata.stop, getLast?_singleton, map_some, records_cons, records_nil,
        append_nil, length_record, hneed, some.injEq]
      omega
    | cons e' es =>
      have h := ih (cons_ne_nil _ _) (offset + e.ref.needed)
      rw [records_cons, length_append, length_record, ← add_assoc, ← h]
      simp only [metas, getLast?_cons_cons]

theorem metas_fits (crc : Crc32) (hfits : ∀ e ∈ es, e.Fits) (i : ℕ) (offset : ℕ)
    (hle : offset + (records crc es).length ≤ maxSegmentBytes) : ∀ m ∈ metas hash i offset es, m.Fits := by
  have hmax : maxSegmentBytes < 2 ^ 32 := by decide
  induction es generalizing offset with
  | nil => intro m hm; exact absurd hm not_mem_nil
  | cons e es ih =>
    intro m hm
    have he := hfits e mem_cons_self
    rw [records_cons, length_append, length_record] at hle
    have hneed := e.needed_ref
    rcases mem_cons.1 hm with rfl | hm
    · have hsub := he.subject
      refine ⟨he.seq, he.timestamp, ?_, ?_, ?_, he.streamId, he.flags⟩
      · simp only [metaAt]; omega
      · simp only [metaAt]; omega
      · simp only [metaAt]; omega
    · exact ih (fun d hd => hfits d (mem_cons_of_mem _ hd)) _ (by omega) m hm

theorem metas_segmentIdx {i : ℕ} {offset : ℕ} : ∀ m ∈ metas hash i offset es, m.segmentIdx = i := by
  induction es generalizing offset with
  | nil => intro m hm; exact absurd hm not_mem_nil
  | cons e es ih =>
    intro m hm
    rcases mem_cons.1 hm with rfl | hm
    · rfl
    · exact ih m hm

theorem idxSidecar_metas (offset : ℕ) :
    idxSidecar (metas hash i offset es) = idxSidecar (metas hash j offset es) := by
  induction es generalizing offset with
  | nil => rfl
  | cons e es ih =>
    simp only [metas, idxSidecar, flatMap_cons]
    exact congrArg _ (ih _)

theorem metas_take : ∀ offset : ℕ, (metas hash i offset es).take j = metas hash i offset (es.take j) := by
  induction es generalizing j with
  | nil => intro offset; simp
  | cons e es ih =>
    intro offset
    cases j with
    | zero => rfl
    | succ j => simp only [metas, take_succ_cons, ih]

/-! ## Loading -/

/-- A sidecar covers the first entries of its segment, or none. -/
theorem Segment.covered (h : Segment crc hash idx start f es) (i : ℕ) :
    ∃ j, ((idx start).bind (loadIdxSidecar i)).getD [] = metas hash i 0 (es.take j) := by
  cases hidx : idx start with
  | none => exact ⟨0, by simp⟩
  | some bytes =>
    have hpre : bytes <+: idxSidecar (metas hash i 0 es) := by
      rw [idxSidecar_metas i 0]
      exact h.idx bytes hidx
    have hfit : ∀ m ∈ metas hash i 0 es, m.Fits := metas_fits crc h.fits i 0 (by simpa using h.small)
    rcases load_idx_of_prefix hfit metas_segmentIdx hpre with hnone | ⟨j, -, hsome⟩
    · exact ⟨0, by simp [hnone]⟩
    · exact ⟨j, by simp [hsome, metas_take]⟩

theorem Segment.scanned (h : Segment crc hash idx start f es) (i j : ℕ) :
    (Scan.walk (scanRecord crc hash i f) (f.len + 1) (records crc (es.take j)).length).1
      = metas hash i (records crc (es.take j)).length (es.drop j) := by
  obtain ⟨junk, hhas⟩ := h.has
  have hsplit : records crc es = records crc (es.take j) ++ records crc (es.drop j) := by
    rw [← records_append, take_append_drop]
  have hlen : (records crc (es.take j)).length + (records crc (es.drop j)).length = (records crc es).length := by
    rw [hsplit, length_append]
  have hat : f.HasAt (records crc (es.take j)).length (records crc (es.drop j) ++ junk) := by
    rw [hsplit, append_assoc] at hhas
    have hskip := hhas.skip
    rwa [zero_add] at hskip
  have hreads : Scan.Reads (scanRecord crc hash i f) (records crc (es.take j)).length (es.drop j).length
      (metas hash i (records crc (es.take j)).length (es.drop j)) (records crc es).length := by
    rw [← hlen]
    apply reads_records (fun e he => h.fits e (mem_of_mem_drop he)) hat
    rw [hlen]
    exact h.len
  have hfuel : (es.drop j).length ≤ f.len + 1 := by
    have hle := length_le_records crc (es.drop j)
    have hfile := h.len
    omega
  rw [Scan.walk_of_reads hreads (h.stop hash i) hfuel]

theorem Segment.nil_of_short (h : Segment crc hash idx start f es) (hshort : f.len < headerSize) : es = [] := by
  cases es with
  | nil => rfl
  | cons e es =>
    have hlen := h.len
    have hneed := e.needed_ref
    rw [records_cons, length_append, length_record] at hlen
    omega

/-- The test on the first seq is one for any record at all. -/
theorem find_seq {seqs : List ℕ} (hpos : ∀ q ∈ seqs, 0 < q) : (seqs.find? (· ≠ 0)).getD 0 = 0 ↔ seqs = [] := by
  cases seqs with
  | nil => simp
  | cons q seqs =>
    have hq := hpos q mem_cons_self
    have hne : q ≠ 0 := by omega
    simp [hne]

theorem last_seq (h : es.map (·.seq) = range' start es.length) (n : ℕ) (hn : es = [] → n = start) (i offset : ℕ) :
    ((metas hash i offset es).getLast?.map (·.seq + 1)).getD n = start + es.length := by
  have hmap : (metas hash i offset es).getLast?.map (·.seq + 1) = (range' start es.length).getLast?.map (· + 1) := by
    rw [← h, ← metas_seqs hash i es offset, getLast?_map, Option.map_map]
    rfl
  rw [hmap, getLast?_range']
  by_cases hnil : es = []
  · simp [hnil, hn hnil]
  · have hpos := length_pos_iff.2 hnil
    rw [if_neg (by omega)]
    simp
    omega

/-- **What `load_segment` makes of a segment**, whatever is left of its sidecar. -/
theorem loadSegment_eq (h : Segment crc hash s.disk.idx start f es) (hstart : s.nextSeq = start) :
    s.loadSegment crc hash (start, f) =
      { s with
        index := s.index ++ metas hash s.sealedSegments.length 0 es
        nextSeq := start + es.length
        totalBytes := s.totalBytes + dataBytes es
        sealedSegments := if es = [] then s.sealedSegments else s.sealedSegments ++ [f] } := by
  unfold loadSegment
  by_cases hshort : f.len < headerSize
  · have hnil := h.nil_of_short hshort
    subst hnil
    simp [hshort, dataBytes, ← hstart]
  set i := s.sealedSegments.length with hi
  obtain ⟨j, hcov⟩ := h.covered i
  have hscan := h.scanned i j
  have hbegin : ((metas hash i 0 (es.take j)).getLast?.map LogMetadata.stop).getD 0
      = (records crc (es.take j)).length := by
    by_cases hne : es.take j = []
    · simp [hne]
    · rw [metas_stop crc hne]
      simp
  have hfound : metas hash i 0 (es.take j) ++ metas hash i (records crc (es.take j)).length (es.drop j)
      = metas hash i 0 es := by
    have happ : metas hash i 0 (es.take j ++ es.drop j) = _ := metas_append crc (es.take j) (es.drop j) 0
    rw [take_append_drop, zero_add] at happ
    exact happ.symm
  have hfirst : ((((metas hash i 0 (es.take j)).head?.toList
      ++ metas hash i (records crc (es.take j)).length (es.drop j)).map (·.seq)).find? (· ≠ 0)).getD 0 = 0
        ↔ es = [] := by
    rw [find_seq]
    · have hnil : ∀ offset es', metas hash i offset es' = [] ↔ es' = [] := fun offset es' => by
        rw [← length_eq_zero_iff, length_metas, length_eq_zero_iff]
      rw [map_eq_nil_iff, append_eq_nil_iff, hnil, toList_eq_nil_iff, head?_eq_none_iff, hnil,
        ← append_eq_nil_iff, take_append_drop]
    intro q hq
    have hmem : q ∈ (metas hash i 0 es).map (·.seq) := by
      rw [← hfound]
      refine map_subset _ (append_subset.2 ⟨fun m hm => ?_, fun m hm => ?_⟩) hq
      · exact mem_append_left _ (mem_of_mem_head? (by simpa using hm))
      · exact mem_append_right _ hm
    rw [metas_seqs] at hmem
    obtain ⟨e, he, rfl⟩ := mem_map.1 hmem
    exact (h.fits e he).seq_pos
  simp only [hshort, if_false, hcov, hbegin, hscan, hfound, dataBytes_metas, hfirst]
  rw [last_seq h.seqs s.nextSeq (fun _ => hstart)]

/-- A loaded segment is mapped, and its entries are in the index. -/
theorem Mapped.load (hm : Mapped crc hash s mem es) {es' : List StoreEntry}
    (h : Segment crc hash s.disk.idx (es.length + 1) f es') :
    ∃ mem', Mapped crc hash (s.loadSegment crc hash (es.length + 1, f)) mem' (es ++ es') ∧
      (s.loadSegment crc hash (es.length + 1, f)).disk = s.disk ∧
      (s.loadSegment crc hash (es.length + 1, f)).active = s.active := by
  rw [loadSegment_eq h hm.nextSeq]
  have hfits : ∀ e ∈ es ++ es', e.Fits := fun e he =>
    (mem_append.1 he).elim (hm.fits e) (h.fits e)
  have hlen := hm.sealed.length_eq
  have hnext : es.length + 1 + es'.length = (es ++ es').length + 1 := by
    rw [length_append]
    omega
  have hbytes : s.totalBytes + dataBytes es' = dataBytes (es ++ es') := by
    rw [hm.totalBytes, dataBytes_append]
  by_cases hnil : es' = []
  · subst hnil
    refine ⟨mem, ⟨?_, ?_, ?_, hnext, hbytes, hfits⟩, rfl, rfl⟩
    · simpa using hm.sealed
    · simpa using hm.flat
    · simpa using hm.index
  refine ⟨mem ++ [es'], ⟨?_, ?_, ?_, hnext, hbytes, hfits⟩, rfl, rfl⟩
  · rw [if_neg hnil]
    exact rel_append hm.sealed (.cons h.has .nil)
  · rw [flatten_append, hm.flat, flatten_singleton]
  · rw [indexFrom_append, ← hm.index, zero_add, hlen]

theorem Mapped.loads {s : TolerantStore} {mem : List (List StoreEntry)}
    {es : List StoreEntry} (hm : Mapped crc hash s mem es) (hl : Laid crc hash s.disk.idx (es.length + 1) logs segs)
    : ∃ mem', Mapped crc hash (logs.foldl (loadSegment crc hash) s) mem' (es ++ segs.flatten) ∧
    (logs.foldl (loadSegment crc hash) s).disk = s.disk ∧ (logs.foldl (loadSegment crc hash) s).active = s.active :=
    by
  induction logs generalizing segs s mem es with
  | nil =>
    cases segs with
    | nil => exact ⟨mem, by simpa using hm, rfl, rfl⟩
    | cons es' segs => exact hl.elim
  | cons log logs ih =>
    cases segs with
    | nil => exact hl.elim
    | cons es' segs =>
      obtain ⟨name, f⟩ := log
      obtain ⟨rfl, -, hseg, hrest⟩ := hl
      obtain ⟨mem₁, hm₁, hdisk₁, hact₁⟩ := hm.load hseg
      have hrest' : Laid crc hash (s.loadSegment crc hash (es.length + 1, f)).disk.idx ((es ++ es').length + 1) logs segs := by
        rw [hdisk₁, length_append, add_right_comm]
        exact hrest
      obtain ⟨mem₂, hm₂, hdisk₂, hact₂⟩ := ih hm₁ hrest'
      refine ⟨mem₂, ?_, hdisk₂.trans hdisk₁, hact₂.trans hact₁⟩
      rw [flatten_cons, ← append_assoc]
      exact hm₂

/-- **Scanning a directory maps all complete records, in order.** -/
theorem OnDisk.scan {d : Disk} {spare : Option SegmentFile} (h : OnDisk crc hash d es spare) :
    ∃ mem, Mapped crc hash (d.logs.foldl (loadSegment crc hash) { disk := d }) mem es ∧
      (d.logs.foldl (loadSegment crc hash) { disk := d }).disk = d ∧
      (d.logs.foldl (loadSegment crc hash) { disk := d }).active = false := by
  obtain ⟨older, segs, hlogs, hlaid, hflat⟩ := h.laid
  have hnew : Mapped crc hash { disk := d } [] [] := ⟨.nil, rfl, rfl, rfl, rfl, by simp⟩
  obtain ⟨mem, hm, hdisk, hact⟩ := hnew.loads hlaid
  rw [nil_append, hflat] at hm
  rw [hlogs, foldl_append]
  cases spare with
  | none => exact ⟨mem, hm, hdisk, hact⟩
  | some f =>
    have hseg := h.spare f rfl
    rw [← congrArg Disk.idx hdisk] at hseg
    obtain ⟨mem', hm', hdisk', hact'⟩ := hm.load hseg
    rw [append_nil] at hm'
    exact ⟨mem', hm', hdisk'.trans hdisk, hact'.trans hact⟩

/-! ## Reading the index -/

theorem indexFrom_entries {i : ℕ} {files : List SegmentFile} (hdrop : s.sealedSegments.drop i = files)
    (hall : Forall₂ (fun f es => ∃ junk, f.HasAt 0 (records crc es ++ junk)) files mem) :
    (indexFrom hash i mem).map s.entryAt = mem.flatten := by
  induction mem generalizing i files with
  | nil => rfl
  | cons es mem ih =>
    obtain ⟨f, files, ⟨junk, hf⟩, hrest, rfl⟩ := forall₂_cons_right_iff.1 hall
    have hget : s.sealedSegments[i]? = some f := by
      have h := congrArg (·[0]?) hdrop
      simpa using h
    have hlt : i < s.sealedSegments.length := (List.getElem?_eq_some_iff.1 hget).1
    have hthis : (metas hash i 0 es).map s.entryAt = es := by
      refine Eq.trans (map_congr_left fun m hm => ?_) (metas_entries hf)
      have hseg := metas_segmentIdx m hm
      unfold entryAt data
      rw [hseg, if_neg (by omega), hget]
      rfl
    have hnext : s.sealedSegments.drop (i + 1) = files := by
      rw [← drop_drop, hdrop]
      rfl
    rw [indexFrom, map_append, hthis, ih hnext hrest, flatten_cons]

theorem Mapped.entries (h : Mapped crc hash s mem es) : s.entries = es := by
  unfold TolerantStore.entries
  rw [h.index, indexFrom_entries drop_zero h.sealed, h.flat]

/-! ## Files and their names -/

theorem putLog_append (h : ∀ p ∈ older, p.1 < name)
    : putLog name f (older ++ rest) = older ++ putLog name f rest := by
  induction older with
  | nil => rfl
  | cons p older ih =>
    obtain ⟨n, g⟩ := p
    have hn : n < name := h (n, g) mem_cons_self
    rw [cons_append, putLog, if_neg (by omega), if_neg (by omega),
      ih fun p hp => h p (mem_cons_of_mem _ hp)]
    rfl

theorem lookup_append (h : ∀ p ∈ older, p.1 < name)
    : (older ++ rest).lookup name = rest.lookup name := by
  rw [List.lookup_append, lookup_eq_none_iff.2 fun p hp => bne_iff_ne.2 (h p hp).ne']
  rfl

theorem Laid.names (h : Laid crc hash idx start logs segs) :
    ∀ p ∈ logs, start ≤ p.1 ∧ p.1 < start + segs.flatten.length := by
  induction logs generalizing start segs with
  | nil => intro p hp; exact absurd hp not_mem_nil
  | cons log logs ih =>
    intro p hp
    cases segs with
    | nil => exact h.elim
    | cons es segs =>
      obtain ⟨hname, hne, -, hrest⟩ := h
      have hpos := length_pos_iff.2 hne
      rw [flatten_cons, length_append]
      rcases mem_cons.1 hp with rfl | hp
      · omega
      · have hle := ih hrest p hp
        omega

theorem Laid.below
    (h : Laid crc hash idx 1 logs segs) (hname : name = 1 + segs.flatten.length) : ∀ p ∈ logs, p.1 < name :=
  fun p hp => hname ▸ (h.names p hp).2

theorem Laid.congr_idx {idx' : ℕ → Option Bytes} (h : Laid crc hash idx start logs segs)
    (hidx : ∀ n, n < start + segs.flatten.length → ∀ bytes, idx' n = some bytes →
      ∃ more, idx n = some (bytes ++ more)) : Laid crc hash idx' start logs segs := by
  induction logs generalizing start segs with
  | nil =>
    cases segs with
    | nil => trivial
    | cons es segs => exact h.elim
  | cons log logs ih =>
    cases segs with
    | nil => exact h.elim
    | cons es segs =>
      obtain ⟨hname, hne, hseg, hrest⟩ := h
      have hpos := length_pos_iff.2 hne
      rw [flatten_cons, length_append] at hidx
      refine ⟨hname, hne, { hseg with idx := fun bytes hb => ?_ }, ih hrest fun n hn => hidx n (by omega)⟩
      obtain ⟨more, hmore⟩ := hidx start (by omega) bytes hb
      exact (prefix_append _ _).trans (hseg.idx _ hmore)

theorem Laid.snoc : Laid crc hash idx start logs segs →
    Segment crc hash idx (start + segs.flatten.length) f es → es ≠ [] →
    Laid crc hash idx start (logs ++ [(start + segs.flatten.length, f)]) (segs ++ [es]) := by
  induction logs generalizing start segs with
  | nil =>
    intro h hseg hne
    cases segs with
    | nil => exact ⟨rfl, hne, hseg, trivial⟩
    | cons es segs => exact h.elim
  | cons log logs ih =>
    intro h hseg hne
    cases segs with
    | nil => exact h.elim
    | cons es' segs =>
      obtain ⟨hname, hne', hseg', hrest⟩ := h
      simp only [flatten_cons, length_append] at hseg ⊢
      rw [← add_assoc] at hseg ⊢
      exact ⟨hname, hne', hseg', ih hrest hseg hne⟩

end Arbitro
