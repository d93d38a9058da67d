import Arbitro.Lib.Sparse
import Arbitro.Server.CommandLog
import Arbitro.Shard.Store

/-!
# Records and segment files

`TolerantStore` writes its records into segment files that are mapped with their full
length before the first byte is written. A record is a header of 28 bytes, the subject,
the payload and the CRC-32 of all that. A sealed segment gets a sidecar with one entry of
35 bytes for each record.
-/

namespace Arbitro

open LittleEndian

def maxSegmentBytes : ℕ := 64 * 1024 * 1024

def headerSize : ℕ := 28

def recordCrcSize : ℕ := 4

def magic : ℕ := 0xAF

/-! ## Files -/

/-- A segment file: zeros from the last byte written up to its length. -/
structure SegmentFile where
  bytes : Bytes := []
  len : ℕ := 0
  deriving DecidableEq, Repr

namespace SegmentFile

/-- `mmap[off..off + n]`. -/
def slice (f : SegmentFile) (off n : ℕ) : Bytes := Sparse.slice f.bytes off n

/-- `copy_from_slice` at an offset of the mapping. -/
def write (f : SegmentFile) (off : ℕ) (bs : Bytes) : SegmentFile :=
  { f with bytes := Sparse.write f.bytes off bs }

/-- `file.set_len`. -/
def setLen (f : SegmentFile) (len : ℕ) : SegmentFile := { bytes := f.bytes.take len, len := len }

end SegmentFile

/-! ## Records -/

/-- The header that `append_no_rotate` writes, field by field. -/
def recordHeader (seq : ℕ) (entry : EntryRef) (timestamp : ℕ) : Bytes :=
  layout [(1, magic), (2, entry.subject.length), (4, entry.payload.length), (8, timestamp), (8, seq),
    (4, entry.streamId), (1, entry.flags)]

/-- What the CRC of a record covers. -/
def recordBody (seq : ℕ) (entry : EntryRef) (timestamp : ℕ) : Bytes :=
  recordHeader seq entry timestamp ++ entry.subject ++ entry.payload

/-- The bytes of a record, in the order they are written in. -/
def recordBytes (crc : Crc32) (seq : ℕ) (entry : EntryRef) (timestamp : ℕ) : Bytes :=
  recordBody seq entry timestamp ++ encode recordCrcSize (crc (recordBody seq entry timestamp)).toNat

/-- `total_needed`. -/
def EntryRef.needed (entry : EntryRef) : ℕ :=
  headerSize + (entry.subject.length + entry.payload.length) + recordCrcSize

structure LogMetadata where
  seq : ℕ
  ts : ℕ
  subjLen : ℕ
  payloadLen : ℕ
  offset : ℕ
  segmentIdx : ℕ
  subjectHash : SubjectHash
  streamId : StreamId
  flags : ℕ
  deriving DecidableEq, Repr

/-- Where the record of an index entry ends. -/
def LogMetadata.stop (m : LogMetadata) : ℕ := m.offset + m.subjLen + m.payloadLen + recordCrcSize

/-- The `Entry` an index entry points at, in the bytes of its segment. -/
def LogMetadata.entry (m : LogMetadata) (f : SegmentFile) : StoreEntry :=
  { seq := m.seq
    streamId := m.streamId
    timestamp := m.ts
    subject := f.slice m.offset m.subjLen
    payload := f.slice (m.offset + m.subjLen) m.payloadLen
    flags := m.flags }

/-- Does the CRC at the end of the record at an offset belong to it, with the lengths that
its header gives? -/
def SegmentFile.verifies (crc : Crc32) (f : SegmentFile) (offset : ℕ) : Bool :=
  let h := f.slice offset headerSize
  let body := headerSize + field h 1 2 + field h 3 4
  decode (f.slice (offset + body) recordCrcSize) == (crc (f.slice offset body)).toNat

/-- A turn of the scan in `load_segment`. -/
def scanRecord (crc : Crc32) (hash : WireHash) (segmentIdx : ℕ) (f : SegmentFile) (offset : ℕ) :
    Option (Option LogMetadata × ℕ) :=
  if f.len < offset + headerSize then none
  else
    let h := f.slice offset headerSize
    -- the end of the valid data in a segment of full length
    if field h 0 1 ≠ magic then none
    else
      let subjLen := field h 1 2
      let payloadLen := field h 3 4
      let dataOff := offset + headerSize
      let crcEnd := dataOff + subjLen + payloadLen + recordCrcSize
      if f.len < crcEnd then none
      else if !f.verifies crc offset then none
      else
        let m : LogMetadata :=
          { seq := field h 15 8
            ts := field h 7 8
            subjLen := subjLen
            payloadLen := payloadLen
            offset := dataOff
            segmentIdx := segmentIdx
            subjectHash := hash (f.slice dataOff subjLen)
            streamId := field h 23 4
            flags := field h 27 1 }
        some (some m, crcEnd)

/-! ## Sidecars -/

/-- The size of a sidecar entry. -/
def idxEntrySize : ℕ := 35

/-- One entry of `write_idx_sidecar`; the number of the segment is not kept. -/
def idxEntry (m : LogMetadata) : Bytes :=
  layout [(8, m.seq), (8, m.ts), (2, m.subjLen), (4, m.payloadLen), (4, m.offset),
    (4, m.subjectHash.toNat), (4, m.streamId), (1, m.flags)]

/-- `write_idx_sidecar`. -/
def idxSidecar (entries : List LogMetadata) : Bytes := entries.flatMap idxEntry

def readIdxEntry (segmentIdx : ℕ) (chunk : Bytes) : LogMetadata :=
  { seq := field chunk 0 8
    ts := field chunk 8 8
    subjLen := field chunk 16 2
    payloadLen := field chunk 18 4
    offset := field chunk 22 4
    segmentIdx := segmentIdx
    subjectHash := UInt32.ofNat (field chunk 26 4)
    streamId := field chunk 30 4
    flags := field chunk 34 1 }

/-- `load_idx_sidecar`: no entries if the sidecar is empty or ends inside an entry. -/
def loadIdxSidecar (segmentIdx : ℕ) (bytes : Bytes) : Option (List LogMetadata) :=
  if bytes = [] ∨ bytes.length % idxEntrySize ≠ 0 then none
  else some (parse idxEntrySize (readIdxEntry segmentIdx) (bytes.length / idxEntrySize) bytes)

end Arbitro
