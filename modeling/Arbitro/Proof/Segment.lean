import Arbitro.Store.Segment

/-!
# Reading a segment back

What a scan finds in a segment file, and what a sidecar says about it, for a file that
begins with the records of some entries.

* `scanRecord_record`: the scan reads a record back and goes on behind it.
* `scanRecord_blank`, `scanRecord_torn`: it stops where nothing was written, and at a
  record whose CRC gives the tear away.
* `load_idx_of_prefix`: of a sidecar that was cut, the whole entries are loaded or none.
-/

namespace Arbitro

open LittleEndian Sparse List Nat

variable {f : SegmentFile} {offset : ℕ}

/-! ## Records of entries -/

/-- What is appended to get an entry. -/
def StoreEntry.ref (e : StoreEntry) : EntryRef := ⟨e.streamId, e.subject, e.payload, e.flags⟩

/-- The bytes of an entry in a segment. -/
def StoreEntry.record (crc : Crc32) (e : StoreEntry) : Bytes := recordBytes crc e.seq e.ref e.timestamp

/-- The bytes of entries, one after the other. -/
def records (crc : Crc32) (es : List StoreEntry) : Bytes := es.flatMap (StoreEntry.record crc)

/-- The entry can be written: its fields have the widths of the source's types, it was not
refused, and its seq is one that is given out. -/
structure StoreEntry.Fits (e : StoreEntry) : Prop where
  seq_pos : 0 < e.seq
  seq : e.seq < 2 ^ 64
  timestamp : e.timestamp < 2 ^ 64
  streamId : e.streamId < 2 ^ 32
  flags : e.flags < 2 ^ 8
  subject : e.subject.length ≤ 65535
  size : e.ref.needed ≤ maxSegmentBytes

/-- The index entry of a record at an offset of a segment. -/
def metaAt (hash : WireHash) (segmentIdx offset : ℕ) (e : StoreEntry) : LogMetadata :=
  { seq := e.seq
    ts := e.timestamp
    subjLen := e.subject.length
    payloadLen := e.payload.length
    offset := offset + headerSize
    segmentIdx := segmentIdx
    subjectHash := hash e.subject
    streamId := e.streamId
    flags := e.flags }

/-- The index entries of records one after the other. -/
def metas (hash : WireHash) (segmentIdx : ℕ) : ℕ → List StoreEntry → List LogMetadata
  | _, [] => []
  | offset, e :: es => metaAt hash segmentIdx offset e :: metas hash segmentIdx (offset + e.ref.needed) es

variable {crc : Crc32} {hash : WireHash} {segmentIdx : ℕ} (seq : ℕ) (e : StoreEntry) (es : List StoreEntry)

@[simp] theorem length_recordHeader {entry : EntryRef} {timestamp : ℕ} :
    (recordHeader seq entry timestamp).length = headerSize := by
  rfl

@[simp] theorem length_recordBytes (seq : ℕ) (entry : EntryRef) (timestamp : ℕ) :
    (recordBytes crc seq entry timestamp).length = entry.needed := by
  simp only [recordBytes, recordBody, length_append, length_recordHeader, length_encode, EntryRef.needed]
  omega

@[simp] theorem records_nil : records crc [] = [] := rfl

@[simp] theorem records_cons :
    records crc (e :: es) = e.record crc ++ records crc es := flatMap_cons

@[simp] theorem records_append (es es' : List StoreEntry) :
    records crc (es ++ es') = records crc es ++ records crc es' := flatMap_append

@[simp] theorem length_record (crc : Crc32) (e : StoreEntry) : (e.record crc).length = e.ref.needed :=
  length_recordBytes _ _ _

theorem StoreEntry.needed_ref :
    e.ref.needed = headerSize + (e.subject.length + e.payload.length) + recordCrcSize := rfl

theorem length_le_records (crc : Crc32) (es : List StoreEntry) : es.length ≤ (records crc es).length :=
  length_le_concat fun e => by simp [EntryRef.needed, headerSize]

@[simp] theorem metas_nil : metas hash segmentIdx offset [] = [] := rfl

theorem metas_append (crc : Crc32) (es es' : List StoreEntry) (offset : ℕ) : metas hash segmentIdx offset (es ++ es')
      = metas hash segmentIdx offset es ++ metas hash segmentIdx (offset + (records crc es).length) es' := by
  induction es generalizing offset with
  | nil => simp
  | cons e es ih =>
    simp only [cons_append, metas, ih, records_cons, length_append, length_record, add_assoc]

@[simp] theorem length_metas : ∀ offset : ℕ, (metas hash segmentIdx offset es).length = es.length := by
  induction es with
  | nil => intro offset; rfl
  | cons e es ih => intro offset; simp [metas, ih]

theorem metas_seqs (hash : WireHash) (segmentIdx : ℕ) (es : List StoreEntry) (offset : ℕ) :
    (metas hash segmentIdx offset es).map (·.seq) = es.map (·.seq) := by
  induction es generalizing offset with
  | nil => rfl
  | cons e es ih => simp [metas, metaAt, ih]

/-! ## The scan -/

/-- A file holds some bytes from an offset on. -/
def SegmentFile.HasAt (f : SegmentFile) (offset : ℕ) (tail : Bytes) : Prop :=
  ∃ (n : ℕ) (before : Bytes), f.bytes ++ replicate n 0 = before ++ tail ∧ before.length = offset

theorem SegmentFile.HasAt.slice {tail : Bytes} (h : f.HasAt offset tail) (off k : ℕ) :
    f.slice (offset + off) k = Sparse.slice tail off k := by
  obtain ⟨n, before, heq, rfl⟩ := h
  unfold SegmentFile.slice
  rw [← slice_pad f.bytes n, heq, slice_append_right]

theorem SegmentFile.HasAt.skip {a tail : Bytes} (h : f.HasAt offset (a ++ tail)) :
    f.HasAt (offset + a.length) tail := by
  obtain ⟨n, before, heq, rfl⟩ := h
  exact ⟨n, before ++ a, by rw [heq, append_assoc], length_append⟩

/-- The lengths, and so the place of the CRC, as the header gives them. -/
theorem verifies_of_hasAt {g : SegmentFile} (h : f.HasAt offset g.bytes) :
    f.verifies crc offset = g.verifies crc 0 := by
  have hhead : f.slice offset headerSize = g.slice 0 headerSize := h.slice 0 headerSize
  have hslice : ∀ k, f.slice offset k = g.slice 0 k := h.slice 0
  have hcrc : ∀ off k, f.slice (offset + off) k = g.slice (0 + off) k := by
    intro off k
    rw [h.slice, zero_add]
    rfl
  unfold SegmentFile.verifies
  simp only [hhead, hslice, hcrc]

section Record

variable {e} {rest : Bytes}

theorem record_slices :
    slice (e.record crc ++ rest) 0 headerSize = recordHeader e.seq e.ref e.timestamp ∧
      slice (e.record crc ++ rest) headerSize e.subject.length = e.subject ∧
      slice (e.record crc ++ rest) (headerSize + e.subject.length) e.payload.length = e.payload ∧
      slice (e.record crc ++ rest) 0 (headerSize + e.subject.length + e.payload.length)
        = recordBody e.seq e.ref e.timestamp ∧
      slice (e.record crc ++ rest) (headerSize + e.subject.length + e.payload.length) recordCrcSize
        = encode recordCrcSize (crc (recordBody e.seq e.ref e.timestamp)).toNat := by
  set h := recordHeader e.seq e.ref e.timestamp with hh
  set c := encode recordCrcSize (crc (recordBody e.seq e.ref e.timestamp)).toNat with hc
  have hlen : h.length = headerSize := length_recordHeader _
  have hclen : c.length = recordCrcSize := length_encode _ _
  have hbody : recordBody e.seq e.ref e.timestamp = h ++ e.subject ++ e.payload := rfl
  have hrec : e.record crc ++ rest = h ++ (e.subject ++ (e.payload ++ (c ++ rest))) := by
    simp only [StoreEntry.record, recordBytes, hbody, append_assoc]
    rfl
  have hfive := slice_mid (h ++ e.subject ++ e.payload) c rest
  have hfour := slice_mid [] (h ++ e.subject ++ e.payload) (c ++ rest)
  have hthree := slice_mid (h ++ e.subject) e.payload (c ++ rest)
  have htwo := slice_mid h e.subject (e.payload ++ (c ++ rest))
  have hone := slice_mid [] h (e.subject ++ (e.payload ++ (c ++ rest)))
  simp only [append_assoc, length_append, hlen, hclen, nil_append, length_nil] at hone htwo hthree hfour hfive
  rw [hrec, hbody, append_assoc]
  simp only [add_assoc]
  exact ⟨hone, htwo, hthree, hfour, hfive⟩

theorem header_fields (he : e.Fits) :
    Fields (recordHeader e.seq e.ref e.timestamp) 0 [(1, magic), (2, e.subject.length), (4, e.payload.length),
      (8, e.timestamp), (8, e.seq), (4, e.streamId), (1, e.flags)] := by
  have hsub := he.subject
  have hsize := he.size
  have hpay : e.payload.length < 256 ^ 4 := by
    have hmax : maxSegmentBytes < 256 ^ 4 := by decide
    have hle : e.payload.length ≤ e.ref.needed := by
      simp only [EntryRef.needed, StoreEntry.ref]
      omega
    omega
  rw [← append_nil (recordHeader _ _ _)]
  refine fields_layout [] _ ?_ []
  simp only [forall_mem_cons]
  exact ⟨by decide, lt_succ_of_le hsub, hpay, he.timestamp, he.seq, he.streamId, he.flags, nofun⟩

theorem record_verifies (he : e.Fits) (hf : f.HasAt offset (e.record crc ++ rest)) : f.verifies crc offset = true := by
  obtain ⟨hone, -, -, hfour, hfive⟩ := record_slices
  obtain ⟨-, hsl, hpl, -⟩ := header_fields he
  have hhead : f.slice offset headerSize = recordHeader e.seq e.ref e.timestamp := (hf.slice 0 _).trans hone
  have hbody : f.slice offset (headerSize + e.subject.length + e.payload.length)
      = recordBody e.seq e.ref e.timestamp := (hf.slice 0 _).trans hfour
  have hcrc := (hf.slice (headerSize + e.subject.length + e.payload.length) recordCrcSize).trans hfive
  have hword : (crc (recordBody e.seq e.ref e.timestamp)).toNat < 256 ^ recordCrcSize :=
    (crc (recordBody e.seq e.ref e.timestamp)).toNat_lt
  unfold SegmentFile.verifies
  simp only [hhead, hsl, hpl, hbody, hcrc, decode_encode hword, beq_self_eq_true]

/-- **The scan reads a record back and goes on behind it.** -/
theorem scanRecord_record (he : e.Fits)
    (hf : f.HasAt offset (e.record crc ++ rest)) (hlen : offset + e.ref.needed ≤ f.len) :
    scanRecord crc hash segmentIdx f offset = some (some (metaAt hash segmentIdx offset e), offset + e.ref.needed) := by
  obtain ⟨hone, htwo, -, -, -⟩ := record_slices
  obtain ⟨hmagic, hsl, hpl, hts, hseq, hsid, hflags, -⟩ := header_fields he
  have hhead : f.slice offset headerSize = recordHeader e.seq e.ref e.timestamp := (hf.slice 0 _).trans hone
  have hsubj : f.slice (offset + headerSize) e.subject.length = e.subject := (hf.slice headerSize _).trans htwo
  have hneed := e.needed_ref
  have hend : offset + headerSize + e.subject.length + e.payload.length + recordCrcSize
      = offset + e.ref.needed := by omega
  unfold scanRecord
  rw [if_neg (by omega)]
  simp only [hhead, hmagic, hsl, hpl, hts, hseq, hsid, hflags, hsubj, hend, record_verifies he hf]
  rw [if_neg (not_not.2 rfl), if_neg (by omega)]
  rfl

end Record

variable {es} {rest : Bytes}

theorem scanRecord_blank (hf : f.HasAt offset []) : scanRecord crc hash segmentIdx f offset = none := by
  have hzero : f.slice offset headerSize = replicate headerSize 0 := (hf.slice 0 _).trans (slice_past (zero_le 0))
  have hmagic : field (replicate headerSize 0) 0 1 ≠ magic := by decide
  unfold scanRecord
  split
  · rfl
  · simp only [hzero]
    rw [if_pos hmagic]

/-- The scan stops at bytes whose CRC does not belong to them. -/
theorem scanRecord_torn {torn : Bytes} (hf : f.HasAt offset torn)
    (hcrc : SegmentFile.verifies crc { bytes := torn } 0 = false) :
    scanRecord crc hash segmentIdx f offset = none := by
  have hv : f.verifies crc offset = false := by
    rw [← hcrc]
    exact verifies_of_hasAt hf
  unfold scanRecord
  simp only [hv, Bool.not_false, if_true, ite_self]

theorem reads_records (hes : ∀ e ∈ es, e.Fits)
    (hf : f.HasAt offset (records crc es ++ rest)) (hlen : offset + (records crc es).length ≤ f.len) : Scan.Reads
    (scanRecord crc hash segmentIdx f) offset es.length (metas hash segmentIdx offset es)
    (offset + (records crc es).length) := by
  induction es generalizing offset with
  | nil => exact .nil offset
  | cons e es ih =>
    simp only [records_cons, length_append, length_record, append_assoc] at hf hlen ⊢
    have hmove : scanRecord crc hash segmentIdx f offset
        = some (some (metaAt hash segmentIdx offset e), offset + e.ref.needed) :=
      scanRecord_record (hes e mem_cons_self) hf (by omega)
    have hskip : f.HasAt (offset + e.ref.needed) (records crc es ++ rest) := by
      have h := hf.skip
      rwa [length_record] at h
    have hrest := ih (fun d hd => hes d (mem_cons_of_mem _ hd)) hskip (by omega)
    rw [← add_assoc]
    exact .cons hmove hrest

theorem metas_entries (hf : f.HasAt offset (records crc es ++ rest)) :
    (metas hash segmentIdx offset es).map (·.entry f) = es := by
  induction es generalizing offset with
  | nil => rfl
  | cons e es ih =>
    rw [records_cons, append_assoc] at hf
    obtain ⟨-, hsubj, hpay, -, -⟩ := record_slices
    have hskip : f.HasAt (offset + e.ref.needed) (records crc es ++ rest) := by
      have h := hf.skip
      rwa [length_record] at h
    have hs : f.slice (offset + headerSize) e.subject.length = e.subject := (hf.slice _ _).trans hsubj
    have hp : f.slice (offset + headerSize + e.subject.length) e.payload.length = e.payload := by
      rw [add_assoc]
      exact (hf.slice _ _).trans hpay
    have hthis : (metaAt hash segmentIdx offset e).entry f = e := by
      simp only [metaAt, LogMetadata.entry, hs, hp]
    rw [metas, map_cons, hthis, ih hskip]

/-! ## Sidecars -/

@[simp] theorem length_idxEntry {m : LogMetadata} : (idxEntry m).length = idxEntrySize := by
  rfl

theorem length_idxSidecar {ms : List LogMetadata} : (idxSidecar ms).length = idxEntrySize * ms.length :=
  length_concat fun _ _ => length_idxEntry

/-- An index entry that fits its sidecar entry. -/
structure LogMetadata.Fits (m : LogMetadata) : Prop where
  seq : m.seq < 2 ^ 64
  ts : m.ts < 2 ^ 64
  subjLen : m.subjLen < 2 ^ 16
  payloadLen : m.payloadLen < 2 ^ 32
  offset : m.offset < 2 ^ 32
  streamId : m.streamId < 2 ^ 32
  flags : m.flags < 2 ^ 8

theorem readIdxEntry_idxEntry {m : LogMetadata} (hm : m.Fits) {i : ℕ} :
    readIdxEntry i (idxEntry m) = { m with segmentIdx := i } := by
  obtain ⟨hseq, hts, hsl, hpl, hoff, hsid, hflags⟩ := hm
  have hall : Fields (idxEntry m ++ []) 0 [(8, m.seq), (8, m.ts), (2, m.subjLen), (4, m.payloadLen), (4, m.offset),
      (4, m.subjectHash.toNat), (4, m.streamId), (1, m.flags)] := by
    refine fields_layout [] _ ?_ []
    simp only [forall_mem_cons]
    exact ⟨hseq, hts, hsl, hpl, hoff, m.subjectHash.toNat_lt, hsid, hflags, nofun⟩
  rw [append_nil] at hall
  obtain ⟨h0, h1, h2, h3, h4, h5, h6, h7, -⟩ := hall
  simp only [readIdxEntry, h0, h1, h2, h3, h4, h5, h6, h7, UInt32.ofNat_toNat]

/-- **Of a sidecar that was cut, the entries that are whole are loaded, or none.** -/
theorem load_idx_of_prefix {ms : List LogMetadata} (hms : ∀ m ∈ ms, m.Fits) {i : ℕ}
    (hseg : ∀ m ∈ ms, m.segmentIdx = i) {bytes : Bytes} (h : bytes <+: idxSidecar ms) :
    loadIdxSidecar i bytes = none ∨ ∃ j, 0 < j ∧ loadIdxSidecar i bytes = some (ms.take j) := by
  unfold loadIdxSidecar
  split
  · exact .inl rfl
  rename_i hcut
  obtain ⟨hne, hmod⟩ := not_or.1 hcut
  right
  obtain ⟨j, hj⟩ : ∃ j, bytes.length = idxEntrySize * j :=
    ⟨bytes.length / idxEntrySize, (Nat.mul_div_cancel' (Nat.dvd_of_mod_eq_zero (not_not.1 hmod))).symm⟩
  have hsize : 0 < idxEntrySize := by decide
  have hpos : 0 < bytes.length := length_pos_iff.2 hne
  have hjpos : 0 < j := by
    rcases Nat.eq_zero_or_pos j with rfl | hp
    · omega
    · exact hp
  have hle : j ≤ ms.length := by
    have hlen := h.length_le
    rw [length_idxSidecar, hj] at hlen
    exact le_of_mul_le_mul_left hlen hsize
  -- the bytes are the sidecar of the first entries
  have hbytes : bytes = idxSidecar (ms.take j) := by
    have hsplit : idxSidecar ms = idxSidecar (ms.take j) ++ idxSidecar (ms.drop j) := by
      rw [idxSidecar, idxSidecar, idxSidecar, ← flatMap_append, take_append_drop]
    have hlen : (idxSidecar (ms.take j)).length = bytes.length := by
      rw [length_idxSidecar, length_take_of_le hle, hj]
    rw [hsplit] at h
    exact IsPrefix.eq_of_length (prefix_of_prefix_length_le h (prefix_append _ _) (by omega)) hlen.symm
  refine ⟨j, hjpos, ?_⟩
  have hdiv : bytes.length / idxEntrySize = (ms.take j).length := by
    rw [hj, Nat.mul_div_cancel_left _ hsize, length_take_of_le hle]
  rw [hdiv, hbytes]
  congr 1
  apply parse_concat
  · intro m _
    exact length_idxEntry
  · intro m hm
    have hmem := mem_of_mem_take hm
    rw [readIdxEntry_idxEntry (hms m hmem), ← hseg m hmem]

end Arbitro
