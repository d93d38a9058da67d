import Arbitro.Lib.Numbered
import Arbitro.Lib.Run
import Arbitro.Server.Delayed

/-!
# What becomes of delayed messages

* `scanRecord_record`, `Delayed.Log.walk`: the scan of a log reads back its records and
  stops at a torn one.
* `Delayed.Log.marks`: setting `matured` bytes changes nothing else of a log.
* `DelayedJournal.OK.popMatured`: the loop pops exactly the messages that are due.
* `recover_ok`: a recovery finds the records that are not matured.
* `DelayLine.run_safe`: with a main store that accepts everything, and no crash between the
  marking of a message and its append, messages are neither lost nor early.
* `DelayLine.run_lost`: a crash in between loses a message.
-/

namespace Arbitro

open LittleEndian DelayedJournal DelayLine DelayedEntry List Nat

variable {j : DelayedJournal} {disk : List (DelayedEntry × Bool)} {torn : Bytes} {nowMs : ℕ} {s : DelayLine}
  (actions : List DelayAction)

namespace Delayed

variable {e : DelayedEntry} {file : Bytes} (offsets : List ℕ) {m : ℕ}

/-! ## Records -/

/-- The values have the widths of the record's fields. -/
structure Fits (e : DelayedEntry) : Prop where
  deliverAtMs : e.deliverAtMs < 2 ^ 64
  streamId : e.streamId < 2 ^ 32
  subject : e.subject.length < 2 ^ 16
  payload : e.payload.length < 2 ^ 32
  flags : e.flags < 2 ^ 8

/-- The `matured` byte. -/
def mark (matured : Bool) : ℕ := if matured then 1 else 0

/-- The records of a log. -/
def bytes (disk : List (DelayedEntry × Bool)) : Bytes := disk.flatMap fun p => record p.1 (mark p.2)

/-- Each entry knows where its record is. -/
def Placed : ℕ → List (DelayedEntry × Bool) → Prop
  | _, [] => True
  | offset, p :: disk => p.1.fileOffset = offset ∧ Placed (offset + size p.1) disk

@[simp] theorem length_header : (header e m).length = recordHeaderSize := by
  rfl

@[simp] theorem length_record (e : DelayedEntry) (m : ℕ) : (record e m).length = size e := by
  simp only [record, length_append, length_header, size]

theorem size_pos (e : DelayedEntry) : 0 < size e := by
  unfold size recordHeaderSize
  omega

@[simp] theorem bytes_nil : bytes [] = [] := rfl

@[simp] theorem bytes_cons {p : DelayedEntry × Bool} :
    bytes (p :: disk) = record p.1 (mark p.2) ++ bytes disk := flatMap_cons

@[simp] theorem bytes_append {a b : List (DelayedEntry × Bool)} : bytes (a ++ b) = bytes a ++ bytes b :=
  flatMap_append

theorem length_le_bytes (disk : List (DelayedEntry × Bool)) : disk.length ≤ (bytes disk).length :=
  length_le_concat fun p => by rw [length_record]; exact size_pos p.1

variable {offset : ℕ}

theorem placed_append {a b : List (DelayedEntry × Bool)} :
    Placed offset (a ++ b) ↔ Placed offset a ∧ Placed (offset + (bytes a).length) b := by
  induction a generalizing offset with
  | nil => simp [Placed]
  | cons p a ih =>
    simp only [cons_append, Placed, ih, bytes_cons, length_append, length_record, and_assoc, add_assoc]

theorem header_fields (he : Fits e) (hm : m < 2 ^ 8) (rest : Bytes) :
    (header e m ++ rest).take recordHeaderSize = header e m ∧
      Fields (header e m) 0 [(8, e.deliverAtMs), (4, e.streamId), (2, e.subject.length), (4, e.payload.length),
        (1, e.flags), (1, m)] := by
  obtain ⟨hat, hsid, hsub, hpay, hflags⟩ := he
  refine ⟨take_left' length_header, ?_⟩
  rw [← append_nil (header e m)]
  refine fields_layout [] _ ?_ []
  simp only [forall_mem_cons]
  exact ⟨hat, hsid, hsub, hpay, hflags, hm, nofun⟩

theorem scanRecord_shift {before tail : Bytes} :
    scanRecord (before ++ tail) before.length = none ↔ scanRecord tail 0 = none := by
  have hdrop : (before ++ tail).drop before.length = tail := drop_left
  have hlen : (before ++ tail).length = before.length + tail.length := length_append
  unfold scanRecord
  simp only [hdrop, hlen, drop_zero, zero_add, add_assoc, add_lt_add_iff_left]
  split
  · rfl
  · split
    · rfl
    · simp

theorem scanRecord_record (he : Fits e) (hm : m < 2 ^ 8) (before rest : Bytes) (hoff : e.fileOffset = before.length) :
    scanRecord (before ++ (record e m ++ rest)) before.length = some (some (e, m), before.length + size e) := by
  obtain ⟨htake, hat, hsid, hsub, hpay, hflags, hmat, -⟩ := header_fields he hm (e.subject ++ (e.payload ++ rest))
  have hrec : record e m ++ rest = header e m ++ (e.subject ++ (e.payload ++ rest)) := by
    simp only [record, append_assoc]
  have hdrop : (before ++ (record e m ++ rest)).drop before.length = record e m ++ rest := drop_left
  have htail : (before ++ (record e m ++ rest)).drop (before.length + recordHeaderSize)
      = e.subject ++ (e.payload ++ rest) := by
    rw [← drop_drop, hdrop, hrec]
    exact drop_left' length_header
  have hlen : (before ++ (record e m ++ rest)).length = before.length + (size e + rest.length) := by
    rw [length_append, length_append, length_record]
  have hsize : size e = recordHeaderSize + e.subject.length + e.payload.length := rfl
  have hbody : (e.subject ++ (e.payload ++ rest)).take (e.subject.length + e.payload.length) = e.subject ++ e.payload := by
    rw [← append_assoc]
    exact take_left' length_append
  have hhead : ((before ++ (record e m ++ rest)).drop before.length).take recordHeaderSize = header e m := by
    rw [hdrop, hrec, htake]
  have hend : before.length + (recordHeaderSize + (e.subject.length + e.payload.length)) = before.length + size e := by
    omega
  unfold scanRecord
  simp only [hhead, hlen, hsub, hpay, htail, hbody, hat, hsid, hflags, hmat, hend]
  rw [if_neg (by omega), if_neg (by omega), take_left' rfl, drop_left' rfl, ← hoff]

theorem scanRecord_torn (he : Fits e) {m k : ℕ} (hm : m < 2 ^ 8) (hk : k < size e) :
    scanRecord ((record e m).take k) 0 = none := by
  obtain ⟨htake, -, -, hsub, hpay, -⟩ := header_fields he hm (e.subject ++ e.payload)
  have hrec : record e m = header e m ++ (e.subject ++ e.payload) := by
    simp only [record, append_assoc]
  have hlen : ((record e m).take k).length = k := by
    rw [length_take_of_le]
    rw [length_record]
    exact hk.le
  have hsize : size e = recordHeaderSize + e.subject.length + e.payload.length := rfl
  unfold scanRecord
  simp only [hlen, drop_zero, zero_add]
  by_cases hshort : k < recordHeaderSize
  · rw [if_pos hshort]
  · have hhead : ((record e m).take k).take recordHeaderSize = header e m := by
      rw [take_take, min_eq_left (by omega), hrec, htake]
    rw [if_neg hshort, hhead, hsub, hpay, if_pos (by omega)]

/-! ## Logs -/

/-- A file with the records of a log, and behind them something the scan stops at. -/
structure Log (file : Bytes) (disk : List (DelayedEntry × Bool)) (torn : Bytes) : Prop where
  file : file = bytes disk ++ torn
  placed : Placed 0 disk
  fits : ∀ p ∈ disk, Fits p.1
  stop : scanRecord torn 0 = none

theorem mark_lt (b : Bool) : mark b < 2 ^ 8 := by
  cases b <;> decide

theorem reads_records (hfits : ∀ p ∈ disk, Fits p.1) (torn : Bytes) (before : Bytes)
    (hplaced : Placed before.length disk) :
    Scan.Reads (scanRecord (before ++ (bytes disk ++ torn))) before.length
      disk.length (disk.map fun p => (p.1, mark p.2)) (before.length + (bytes disk).length) := by
  induction disk generalizing before with
  | nil => exact .nil _
  | cons p disk ih =>
    have hmove := scanRecord_record (hfits p mem_cons_self) (mark_lt p.2) before (bytes disk ++ torn) hplaced.1
    have hrest := ih (fun q hq => hfits q (mem_cons_of_mem _ hq)) (before ++ record p.1 (mark p.2)) (by
      rw [length_append, length_record]
      exact hplaced.2)
    simp only [length_append, length_record, append_assoc] at hrest
    simp only [bytes_cons, append_assoc, length_append, length_record, ← add_assoc]
    exact .cons hmove hrest

theorem Log.walk (h : Log file disk torn) :
    Scan.walk (scanRecord file) (file.length + 1) 0 = (disk.map fun p => (p.1, mark p.2), (bytes disk).length) := by
  have hreads := reads_records h.fits torn [] h.placed
  rw [nil_append, ← h.file, length_nil, zero_add] at hreads
  have hstop : scanRecord file (bytes disk).length = none := by
    rw [h.file]
    exact scanRecord_shift.2 h.stop
  have hfuel : disk.length ≤ file.length + 1 := by
    have hle := length_le_bytes disk
    rw [h.file, length_append]
    omega
  exact Scan.walk_of_reads hreads hstop hfuel

/-- The entries of a log that are not matured. -/
def waiting (disk : List (DelayedEntry × Bool)) : List DelayedEntry := (disk.filter (!·.2)).map Prod.fst

theorem Log.unmatured (h : Log file disk torn) : unmatured file = waiting disk := by
  unfold DelayedJournal.unmatured waiting
  rw [h.walk, filter_map, map_map]
  congr 1
  apply filter_congr
  intro p _
  cases hp : p.2 <;> simp [hp, mark]

/-! ## Marking -/

/-- The log with the records at some offsets matured. -/
def marked (offsets : List ℕ) (disk : List (DelayedEntry × Bool)) : List (DelayedEntry × Bool) :=
  disk.map fun p => (p.1, p.2 || decide (p.1.fileOffset ∈ offsets))

theorem placed_offsets (h : Placed offset disk) :
    ∀ p ∈ disk, offset ≤ p.1.fileOffset ∧ p.1.fileOffset < offset + (bytes disk).length := by
  induction disk generalizing offset with
  | nil => intro p hp; exact absurd hp not_mem_nil
  | cons q disk ih =>
    intro p hp
    have hpos := size_pos q.1
    rw [bytes_cons, length_append, length_record]
    rcases mem_cons.1 hp with rfl | hp
    · have hoff := h.1
      omega
    · have hrest := ih h.2 p hp
      omega

theorem marked_of_not_mem {offsets : List ℕ}
    (h : ∀ p ∈ disk, p.1.fileOffset ∉ offsets) : marked offsets disk = disk := by
  conv_rhs => rw [← map_id disk]
  apply map_congr_left
  intro p hp
  simp [h p hp]

theorem length_bytes_marked : (bytes (marked offsets disk)).length = (bytes disk).length := by
  induction disk with
  | nil => rfl
  | cons p disk ih =>
    have hcons : marked offsets (p :: disk)
        = (p.1, p.2 || decide (p.1.fileOffset ∈ offsets)) :: marked offsets disk := rfl
    rw [hcons, bytes_cons, bytes_cons, length_append, length_append, ih, length_record, length_record]

theorem placed_marked (h : Placed offset disk) : Placed offset (marked offsets disk) := by
  induction disk generalizing offset with
  | nil => trivial
  | cons p disk ih => exact ⟨h.1, ih h.2⟩

theorem record_matured (e : DelayedEntry) : ∃ front : Bytes, front.length = 19 ∧
    ∀ m, record e m = front ++ (encode 1 m ++ (e.subject ++ e.payload)) := by
  refine ⟨layout [(8, e.deliverAtMs), (4, e.streamId), (2, e.subject.length), (4, e.payload.length),
    (1, e.flags)], by rw [length_layout]; rfl, fun m => ?_⟩
  simp [record, header, layout]

theorem Log.mark_one (h : Log file disk torn)
    (he : e ∈ disk.map Prod.fst) : Log (Sparse.write file (e.fileOffset + 19) [1]) (marked [e.fileOffset] disk) torn := by
  obtain ⟨p, hp, rfl⟩ := mem_map.1 he
  obtain ⟨a, b, rfl⟩ := append_of_mem hp
  have hplaced := placed_append.1 h.placed
  rw [zero_add] at hplaced
  obtain ⟨ha, hoff, hb⟩ := hplaced
  have hmarked : marked [p.1.fileOffset] (a ++ p :: b) = a ++ (p.1, true) :: b := by
    have hleft : marked [p.1.fileOffset] a = a := marked_of_not_mem fun q hq => by
      have hlt := (placed_offsets ha q hq).2
      rw [mem_singleton]
      omega
    have hright : marked [p.1.fileOffset] b = b := marked_of_not_mem fun q hq => by
      have hge := (placed_offsets hb q hq).1
      have hpos := size_pos p.1
      rw [mem_singleton]
      omega
    have hsplit : marked [p.1.fileOffset] (a ++ p :: b)
        = marked [p.1.fileOffset] a ++ (p.1, p.2 || decide (p.1.fileOffset ∈ [p.1.fileOffset]))
          :: marked [p.1.fileOffset] b := by
      simp only [marked, map_append, map_cons]
    rw [hsplit, hleft, hright]
    simp
  obtain ⟨front, hfront, hrec⟩ := record_matured p.1
  have hfile : file = (bytes a ++ front) ++ (encode 1 (mark p.2)
      ++ (p.1.subject ++ p.1.payload ++ bytes b ++ torn)) := by
    rw [h.file, bytes_append, bytes_cons, hrec]
    simp only [append_assoc]
  have hpos : p.1.fileOffset + 19 = (bytes a ++ front).length := by
    rw [length_append, hfront, hoff]
  have hplaced' := placed_marked [p.1.fileOffset] h.placed
  rw [hmarked] at hplaced' ⊢
  refine ⟨?_, hplaced', ?_, h.stop⟩
  · have hone : (encode 1 (mark p.2)).length = [(1 : UInt8)].length := length_encode _ _
    rw [hfile, hpos, Sparse.write_mid _ _ hone, bytes_append, bytes_cons, hrec]
    simp only [append_assoc]
    rfl
  · obtain ⟨hfitsa, hfitsb⟩ := forall_mem_append.1 h.fits
    exact forall_mem_append.2 ⟨hfitsa, forall_mem_cons.2 (forall_mem_cons.1 hfitsb)⟩

theorem marked_marked {o : ℕ} (offsets : List ℕ) : marked offsets (marked [o] disk) = marked (o :: offsets) disk := by
  simp only [marked, map_map]
  apply map_congr_left
  intro p _
  simp [Bool.or_assoc]

theorem map_fst_marked :
    (marked offsets disk).map Prod.fst = disk.map Prod.fst := by
  simp only [marked, map_map]
  rfl

/-- **Setting the `matured` bytes of some entries of the log.** -/
theorem Log.marks {es : List DelayedEntry} {file : Bytes} {disk : List (DelayedEntry × Bool)}
    (h : Log file disk torn) (hmem : ∀ e ∈ es, e ∈ disk.map Prod.fst) :
    Log (markMaturedOnDisk file (es.map (·.fileOffset))) (marked (es.map (·.fileOffset)) disk) torn := by
  induction es generalizing file disk with
  | nil =>
    have hnil : marked [] disk = disk := marked_of_not_mem fun p _ => not_mem_nil
    rw [map_nil, hnil]
    exact h
  | cons e es ih =>
    have hone := h.mark_one (hmem e mem_cons_self)
    have hrest := ih hone fun d hd => by
      rw [map_fst_marked]
      exact hmem d (mem_cons_of_mem _ hd)
    rw [marked_marked] at hrest
    exact hrest

theorem placed_inj (h : Placed offset disk) : ∀ p ∈ disk, ∀ q ∈ disk, p.1.fileOffset = q.1.fileOffset → p = q := by
  induction disk generalizing offset with
  | nil => intro p hp; exact absurd hp not_mem_nil
  | cons r disk ih =>
    intro p hp q hq heq
    have hr := h.1
    have hpos := size_pos r.1
    have hbehind : ∀ x ∈ disk, offset < x.1.fileOffset := fun x hx => by
      have hx := (placed_offsets h.2 x hx).1
      omega
    rcases mem_cons.1 hp with rfl | hp'
    · rcases mem_cons.1 hq with rfl | hq'
      · rfl
      · have hlt := hbehind q hq'
        omega
    · rcases mem_cons.1 hq with rfl | hq'
      · have hlt := hbehind p hp'
        omega
      · exact ih h.2 p hp' q hq' heq

theorem mem_waiting : e ∈ waiting disk ↔ (e, false) ∈ disk := by
  simp [waiting]

theorem mem_of_waiting (h : e ∈ waiting disk) : e ∈ disk.map Prod.fst := mem_map_of_mem (mem_waiting.1 h)

theorem waiting_marked (h : Placed offset disk) {due : List DelayedEntry}
    {p : DelayedEntry → Bool} (hdue : ∀ e, e ∈ due ↔ e ∈ waiting disk ∧ p e = true) :
    waiting (marked (due.map (·.fileOffset)) disk) = (waiting disk).filter (!p ·) := by
  have hmem : ∀ q ∈ disk, q.2 = false → (q.1.fileOffset ∈ due.map (·.fileOffset) ↔ p q.1 = true) := by
    intro q hq hfalse
    have hq' : (q.1, false) ∈ disk := by
      rw [← hfalse]
      exact hq
    constructor
    · intro hin
      obtain ⟨d, hd, hoff⟩ := mem_map.1 hin
      obtain ⟨hwait, hp⟩ := (hdue d).1 hd
      have heq := placed_inj h _ (mem_waiting.1 hwait) q hq hoff
      rw [← heq]
      exact hp
    · intro hp
      exact mem_map_of_mem ((hdue q.1).2 ⟨mem_waiting.2 hq', hp⟩)
  unfold waiting marked
  rw [filter_map, map_map, filter_map, filter_filter]
  have hfilter : disk.filter ((fun x => !x.2) ∘ fun q => (q.1, q.2 || decide (q.1.fileOffset ∈ due.map (·.fileOffset))))
      = disk.filter fun q => (fun e => !p e) q.1 && !q.2 := by
    apply filter_congr
    intro q hq
    cases hq2 : q.2 with
    | true => simp [hq2]
    | false =>
      have hdec : decide (q.1.fileOffset ∈ due.map (·.fileOffset)) = p q.1 := by
        rw [Bool.eq_iff_iff, decide_eq_true_iff]
        exact hmem q hq hq2
      simp only [Function.comp_apply, hq2, hdec, Bool.false_or, Bool.not_false, Bool.and_true]
  rw [hfilter]
  rfl

theorem Log.append (h : Log file disk [])
    (he : Fits e) (hoff : e.fileOffset = (bytes disk).length) {k : ℕ} (hk : k < size e) :
    Log (file ++ record e 0) (disk ++ [(e, false)]) [] ∧ Log (file ++ (record e 0).take k) disk ((record e 0).take k) := by
  have hfile : file = bytes disk := by
    rw [h.file, append_nil]
  refine ⟨⟨?_, ?_, ?_, h.stop⟩, ⟨by rw [hfile], h.placed, h.fits, scanRecord_torn he (by decide) hk⟩⟩
  · rw [hfile, bytes_append, bytes_cons, bytes_nil]
    simp [mark]
  · rw [placed_append, zero_add]
    exact ⟨h.placed, hoff, trivial⟩
  · exact forall_mem_append.2 ⟨h.fits, forall_mem_singleton.2 he⟩

end Delayed

/-! ## The heap -/

open Delayed

instance : Std.Total Before := ⟨fun a b => by
  unfold Before
  omega⟩

instance : IsTrans DelayedEntry Before := ⟨fun a b c hab hbc => by
  unfold Before at *
  omega⟩

theorem heap_perm (es : List DelayedEntry) (heap : List DelayedEntry) (h : heap.Pairwise Before) :
    (es.foldl (fun h e => h.orderedInsert Before e) heap).Perm (heap ++ es) ∧
      (es.foldl (fun h e => h.orderedInsert Before e) heap).Pairwise Before := by
  induction es generalizing heap with
  | nil => simpa using h
  | cons e es ih =>
    have hsorted := h.orderedInsert e heap
    obtain ⟨hperm, hpair⟩ := ih _ hsorted
    refine ⟨hperm.trans ?_, hpair⟩
    have hins := (perm_orderedInsert Before e heap).append_right es
    refine hins.trans ?_
    exact perm_middle.symm

/-! ## The line -/

/-- The journal in memory and its log. -/
structure DelayedJournal.OK (j : DelayedJournal) (disk : List (DelayedEntry × Bool)) (torn : Bytes) : Prop where
  log : Log j.file disk torn
  offset : j.writeOffset = (bytes disk).length
  pending : j.pending.Perm (waiting disk)
  sorted : j.pending.Pairwise Before

/-- **Popping takes exactly the entries that are due**, in memory and in the log. -/
theorem DelayedJournal.OK.popMatured (h : j.OK disk torn) (now : ℕ) :
    ∃ disk', (j.popMatured now).1.OK disk' torn ∧ disk'.map Prod.fst = disk.map Prod.fst ∧
      (j.popMatured now).2 = j.pending.filter (·.deliverAtMs ≤ now) ∧
      (j.popMatured now).1.pending = j.pending.filter (fun e => !decide (e.deliverAtMs ≤ now)) := by
  -- what is behind the entries that are due is not due
  obtain ⟨htake, hdrop⟩ := takeWhile_of_pairwise (p := fun e => decide (e.deliverAtMs ≤ now)) (h.sorted.imp fun hb => by
    unfold Before at hb
    simp only [decide_eq_true_eq]
    omega)
  have hdue : ∀ e, e ∈ j.due now ↔ e ∈ waiting disk ∧ decide (e.deliverAtMs ≤ now) = true := by
    intro e
    rw [due, htake, mem_filter, h.pending.mem_iff]
  have hmem : ∀ e ∈ j.due now, e ∈ disk.map Prod.fst := fun e he => mem_of_waiting ((hdue e).1 he).1
  refine ⟨marked ((j.due now).map fileOffset) disk, ⟨h.log.marks hmem, ?_, ?_, ?_⟩, map_fst_marked _, htake, hdrop⟩
  · rw [length_bytes_marked]
    exact h.offset
  · rw [waiting_marked h.log.placed hdue]
    show (j.pending.dropWhile _).Perm _
    rw [hdrop]
    exact h.pending.filter _
  · show (j.pending.dropWhile _).Pairwise _
    rw [hdrop]
    exact h.sorted.filter _

/-- **Recovery finds what was waiting**: what is due is to be caught up, the rest waits on. -/
theorem recover_ok {file : Bytes} (h : Log file disk torn) {now : ℕ} :
    ∃ disk', (recover file now).1.OK disk' torn ∧ disk'.map Prod.fst = disk.map Prod.fst ∧
      (recover file now).2 = (waiting disk).filter (·.deliverAtMs ≤ now) ∧
      (recover file now).1.pending.Perm ((waiting disk).filter (fun e => !decide (e.deliverAtMs ≤ now))) := by
  have hcatch : catchUp file now = (waiting disk).filter (·.deliverAtMs ≤ now) := by
    rw [catchUp, h.unmatured]
  have hlater : (waiting disk).filter (fun e => decide (now < e.deliverAtMs))
      = (waiting disk).filter (fun e => !decide (e.deliverAtMs ≤ now)) := by
    apply filter_congr
    intro e _
    rw [← decide_not, decide_eq_decide, not_le]
  have hdue : ∀ e, e ∈ catchUp file now ↔ e ∈ waiting disk ∧ decide (e.deliverAtMs ≤ now) = true := by
    intro e
    rw [hcatch, mem_filter]
  have hmem : ∀ e ∈ catchUp file now, e ∈ disk.map Prod.fst := fun e he => mem_of_waiting ((hdue e).1 he).1
  obtain ⟨hperm, hsorted⟩ := heap_perm ((unmatured file).filter (now < ·.deliverAtMs)) [] .nil
  rw [nil_append, h.unmatured, hlater] at hperm
  rw [h.unmatured, hlater] at hsorted
  have hpending : (recover file now).1.pending
      = ((waiting disk).filter (fun e => !decide (e.deliverAtMs ≤ now))).foldl
        (fun h e => h.orderedInsert Before e) [] := by
    unfold recover
    rw [h.unmatured, hlater]
  refine ⟨marked ((catchUp file now).map fileOffset) disk, ⟨h.marks hmem, ?_, ?_, ?_⟩,
    map_fst_marked _, hcatch, ?_⟩
  · rw [length_bytes_marked]
    show (Scan.walk _ _ _).2 = _
    rw [h.walk]
  · rw [waiting_marked h.placed hdue, hpending]
    exact hperm
  · rw [hpending]
    exact hsorted
  · rw [hpending]
    exact hperm

/-- Every acknowledged message is in the main store, popped or waiting, and none is handed
over early. -/
structure DelayLine.OK (s : DelayLine) : Prop where
  journal : ∃ disk torn, s.journal.OK disk torn
  books : s.acked.Perm (s.stored.map Prod.fst ++ s.hand ++ s.journal.pending)
  stored : ∀ p ∈ s.stored, p.1.deliverAtMs ≤ p.2
  hand : ∀ e ∈ s.hand, e.deliverAtMs ≤ s.handTime

/-- The message a publish asks for. -/
def DelayLine.message (s : DelayLine) (deliverAtMs : ℕ) (entry : EntryRef) : DelayedEntry :=
  ⟨deliverAtMs, entry.streamId, entry.subject, entry.payload, entry.flags, s.journal.writeOffset⟩

/-- Values have the widths of the source's types. -/
def DelayLine.Typed (s : DelayLine) : DelayAction → Prop
  | .publish _ deliverAtMs entry => Fits (s.message deliverAtMs entry)
  | .crash (.inAppend _ deliverAtMs entry _) _ => Fits (s.message deliverAtMs entry)
  | _ => True

/-- `append` answers with an error. -/
def DelayedJournal.Refuses (j : DelayedJournal) (nowMs deliverAtMs : ℕ) : Prop :=
  maxDelayMs < deliverAtMs - nowMs ∨ maxPendingDelayed ≤ j.pending.length

/-- Nothing stands behind the last record of the log. -/
def DelayedJournal.Untorn (j : DelayedJournal) : Prop := j.writeOffset = j.file.length

/-- What keeps messages from being lost: the main store accepts what is handed over, no
crash comes between marking an entry and handing it over, a record is not written behind
one that a crash has torn, and no crash comes between the last byte of a record and its
acknowledgement. -/
def DelayLine.Safe (s : DelayLine) : DelayAction → Prop
  | .publish nowMs deliverAtMs _ => s.journal.Refuses nowMs deliverAtMs ∨ s.journal.Untorn
  | .mature _ => True
  | .store accepted => s.hand = [] ∨ accepted = true
  | .crash tear _ => s.hand = [] ∧
    match tear with
    | .between => True
    | .inAppend nowMs deliverAtMs entry written => s.journal.Refuses nowMs deliverAtMs ∨ written = 0 ∨
      written < size (s.message deliverAtMs entry) ∧ s.journal.Untorn
    | .inMark nowMs written => s.journal.due nowMs = [] ∨ written = 0
    | .inRecover nowMs written => catchUp s.journal.file nowMs = [] ∨ written = 0

theorem DelayedJournal.append_eq_ok {j' : DelayedJournal} {deliverAtMs : ℕ} {entry : EntryRef}
    (h : j.append nowMs deliverAtMs entry = .ok j') :
    ¬ j.Refuses nowMs deliverAtMs ∧ j' =
      { file := j.file ++ record ⟨deliverAtMs, entry.streamId, entry.subject, entry.payload, entry.flags, j.writeOffset⟩ 0
        pending := j.pending.orderedInsert Before
          ⟨deliverAtMs, entry.streamId, entry.subject, entry.payload, entry.flags, j.writeOffset⟩
        writeOffset := j.writeOffset
          + size ⟨deliverAtMs, entry.streamId, entry.subject, entry.payload, entry.flags, j.writeOffset⟩ } := by
  unfold append at h
  split at h
  · cases h
  split at h
  · cases h
  next hdelay hfull => exact ⟨not_or.2 ⟨hdelay, hfull⟩, (Except.ok.inj h).symm⟩

theorem DelayedJournal.OK.untorn (h : j.OK disk torn) (hlen : j.Untorn) : torn = [] := by
  have hend : j.writeOffset = j.file.length := hlen
  have hfile := congrArg length h.log.file
  have hoff := h.offset
  rw [length_append] at hfile
  exact length_eq_zero_iff.1 (by omega)

theorem DelayedJournal.OK.append (h : j.OK disk [])
    {e : DelayedEntry} (he : Fits e) (hoff : e.fileOffset = j.writeOffset) :
    OK
      { file := j.file ++ record e 0
        pending := j.pending.orderedInsert Before e
        writeOffset := j.writeOffset + size e } (disk ++ [(e, false)]) [] := by
  refine ⟨(h.log.append he (hoff.trans h.offset) (size_pos e)).1, ?_, ?_, h.sorted.orderedInsert e _⟩
  · rw [bytes_append, length_append, bytes_cons, bytes_nil, append_nil, length_record, h.offset]
  have hwait : waiting (disk ++ [(e, false)]) = waiting disk ++ [e] := by
    simp [waiting]
  rw [hwait]
  refine (perm_orderedInsert _ e j.pending).trans ?_
  exact (perm_append_singleton e _).symm.trans (h.pending.append_right [e])

/-- The log that a crash leaves, where `Safe` allows it. -/
theorem DelayLine.torn_log (h : s.journal.OK disk torn)
    {tear : DelayTear} (htyped : s.Typed (.crash tear nowMs)) (hsafe : s.Safe (.crash tear nowMs)) :
    ∃ torn', Log (s.torn tear) disk torn' := by
  obtain ⟨-, hsafe⟩ := hsafe
  cases tear with
  | between => exact ⟨torn, h.log⟩
  | inAppend now deliverAtMs entry written =>
    cases happ : s.journal.append now deliverAtMs entry with
    | error err =>
      simp only [DelayLine.torn, happ]
      exact ⟨torn, h.log⟩
    | ok j =>
      obtain ⟨hno, hj⟩ := append_eq_ok happ
      have hfile : j.file.take (s.journal.file.length + written)
          = s.journal.file ++ (record (s.message deliverAtMs entry) 0).take written := by
        rw [hj]
        exact take_length_add_append written
      simp only [DelayLine.torn, happ, hfile]
      rcases hsafe.resolve_left hno with rfl | ⟨hw, hlen⟩
      · refine ⟨torn, ?_⟩
        rw [take_zero, append_nil]
        exact h.log
      · obtain rfl := h.untorn hlen
        exact ⟨_, (h.log.append htyped h.offset hw).2⟩
  | _ =>
    refine ⟨torn, ?_⟩
    rcases hsafe with hdue | rfl
    · simp only [DelayLine.torn, hdue, take_nil]
      exact h.log
    · exact h.log

/-- **Every safe action keeps the books.** -/
theorem DelayLine.OK.step (h : s.OK) (a : DelayAction) (htyped : s.Typed a) (hsafe : s.Safe a) : (s.step a).OK := by
  obtain ⟨disk, torn, hj⟩ := h.journal
  cases a with
  | publish nowMs deliverAtMs entry =>
    cases happ : s.journal.append nowMs deliverAtMs entry with
    | error err =>
      simp only [DelayLine.step, happ]
      exact h
    | ok j =>
      simp only [DelayLine.step, happ]
      obtain ⟨hno, rfl⟩ := append_eq_ok happ
      obtain rfl := hj.untorn (hsafe.resolve_left hno)
      refine ⟨⟨_, [], hj.append htyped rfl⟩, ?_, h.stored, h.hand⟩
      have hins := perm_orderedInsert Before (s.message deliverAtMs entry) s.journal.pending
      have hpush : (s.acked ++ [s.message deliverAtMs entry]).Perm
          (s.stored.map Prod.fst ++ s.hand ++ (s.message deliverAtMs entry :: s.journal.pending)) := by
        refine (h.books.append_right _).trans ?_
        rw [append_assoc]
        exact Perm.append_left _ (perm_append_singleton _ _)
      exact hpush.trans (Perm.append_left _ hins.symm)
  | mature nowMs =>
    by_cases hhand : s.hand = []
    · simp only [DelayLine.step, if_pos hhand]
      obtain ⟨disk', hok, -, hpop, hpend⟩ := hj.popMatured nowMs
      refine ⟨⟨disk', torn, hok⟩, ?_, h.stored, ?_⟩
      · have hbooks := h.books
        rw [hhand, append_nil] at hbooks
        rw [hpop, hpend, append_assoc]
        refine hbooks.trans (Perm.append_left _ ?_)
        exact (filter_append_perm _ s.journal.pending).symm
      · intro e he
        rw [hpop] at he
        simpa using (mem_filter.1 he).2
    · simp only [DelayLine.step, if_neg hhand]
      exact h
  | store accepted =>
    cases hhand : s.hand with
    | nil =>
      simp only [DelayLine.step, hhand]
      exact h
    | cons e hand =>
      obtain rfl : accepted = true := hsafe.resolve_left (by rw [hhand]; exact cons_ne_nil e hand)
      simp only [DelayLine.step, hhand, if_true]
      have hbooks := h.books
      rw [hhand] at hbooks
      refine ⟨⟨disk, torn, hj⟩, ?_, ?_, ?_⟩
      · simpa using hbooks
      · exact forall_mem_append.2 ⟨h.stored, forall_mem_singleton.2 (h.hand e (by rw [hhand]; exact mem_cons_self))⟩
      · intro d hd
        exact h.hand d (by rw [hhand]; exact mem_cons_of_mem _ hd)
  | crash tear nowMs =>
    obtain ⟨torn', hlog⟩ := torn_log hj htyped hsafe
    obtain ⟨disk', hok, -, hcatch, hpend⟩ := recover_ok hlog
    refine ⟨⟨disk', torn', hok⟩, ?_, h.stored, ?_⟩
    · have hbooks := h.books
      rw [hsafe.1, append_nil] at hbooks
      show s.acked.Perm (s.stored.map Prod.fst ++ (recover (s.torn tear) nowMs).2
        ++ (recover (s.torn tear) nowMs).1.pending)
      rw [hcatch, append_assoc]
      refine hbooks.trans (Perm.append_left _ (hj.pending.trans ?_))
      exact (filter_append_perm _ _).symm.trans (Perm.append_left _ hpend.symm)
    · intro e he
      have he' : e ∈ (recover (s.torn tear) nowMs).2 := he
      rw [hcatch] at he'
      exact of_decide_eq_true (mem_filter.1 he').2

theorem DelayLine.ok_run (h : Run.Guarded step (fun s a => s.Typed a ∧ s.Safe a) {} actions) : (run actions).OK := by
  refine Run.invariant (fun s a hs ha => hs.step a ha.1 ha.2) actions _ ?_ h
  refine ⟨⟨[], [], ⟨rfl, trivial, by simp, rfl⟩, rfl, .nil, .nil⟩, .nil, by simp, by simp⟩

theorem DelayLine.handOver_eq :
    s.handOver = { s with hand := [], stored := s.stored ++ s.hand.map fun e => (e, s.handTime) } := by
  obtain ⟨journal, hand, handTime, acked, stored⟩ := s
  unfold handOver
  induction hand generalizing stored with
  | nil => simp
  | cons e hand ih =>
    have hrest := ih (stored ++ [(e, handTime)])
    simp only [append_assoc] at hrest
    exact hrest

/-- **Delayed messages are neither lost nor early.** After any run that is safe, and in
every state of it: no message was appended to the main store before its time; the
acknowledged messages are those in the main store, those popped and those waiting; once
the loop has run at a time, every acknowledged message that is due is in the main store;
and a recovery, with nothing popped, finds exactly the acknowledged messages that are not
yet in the main store. -/
theorem DelayLine.run_safe
    (h : Run.Guarded step (fun s a => s.Typed a ∧ s.Safe a) {} actions) :
    (∀ p ∈ (run actions).stored, p.1.deliverAtMs ≤ p.2) ∧
      (run actions).acked.Perm ((run actions).stored.map Prod.fst ++ (run actions).hand
        ++ (run actions).journal.pending) ∧
      (∀ nowMs, ∀ e ∈ (run actions).acked, e.deliverAtMs ≤ nowMs →
        e ∈ ((run actions).handOver.step (.mature nowMs)).handOver.stored.map Prod.fst) ∧
      ((run actions).hand = [] → ∀ nowMs,
        (run actions).acked.Perm ((run actions).stored.map Prod.fst
          ++ (recover (run actions).journal.file nowMs).2
          ++ (recover (run actions).journal.file nowMs).1.pending)) := by
  have hok := ok_run actions h
  set s := run actions with hs
  obtain ⟨disk, torn, hj⟩ := hok.journal
  refine ⟨hok.stored, hok.books, ?_, ?_⟩
  · intro nowMs e he hdue
    obtain ⟨-, -, -, hpop, -⟩ := hj.popMatured nowMs
    have hmem := hok.books.mem_iff.1 he
    rw [mem_append, mem_append] at hmem
    rw [handOver_eq, handOver_eq]
    simp only [step, if_true, hpop, map_append, map_map, mem_append]
    rcases hmem with (hstored | hhand) | hpending
    · exact .inl (.inl hstored)
    · exact .inl (.inr (by simpa using hhand))
    · refine .inr ?_
      simpa using ⟨hpending, hdue⟩
  · intro hhand nowMs
    have hsame : (s.step (.crash .between nowMs)).OK := hok.step _ trivial ⟨hhand, trivial⟩
    exact hsame.books

/-- A message for 100 is published and a crash tears the record of the next one: at 100 the
loop of the restarted broker appends the message to the main store. -/
theorem DelayLine.run_safe_torn :
    (⟨100, 1, [97], [1, 2], 0, 0⟩ : DelayedEntry) ∈ (((run [.publish 5 100 ⟨1, [97], [1, 2], 0⟩,
      .crash (.inAppend 6 90 ⟨1, [98], [3], 0⟩ 7) 50]).handOver.step (.mature 100)).handOver.stored.map Prod.fst) := by
  have hrun := run_safe [.publish 5 100 ⟨1, [97], [1, 2], 0⟩, .crash (.inAppend 6 90 ⟨1, [98], [3], 0⟩ 7) 50]
    ⟨⟨⟨by decide, by decide, by decide, by decide, by decide⟩, .inr rfl⟩,
      ⟨⟨by decide, by decide, by decide, by decide, by decide⟩, rfl, .inr (.inr ⟨by decide, rfl⟩)⟩, trivial⟩
  exact hrun.2.2.1 100 _ (mem_singleton.2 rfl) (Nat.le_refl 100)

/-- **A crash between popping a message and appending it to the main store loses it**: its
record is marked as matured by then, so that no recovery finds it. -/
theorem DelayLine.run_lost :
    let s := run [.publish 5 100 ⟨1, [97], [1, 2], 0⟩, .mature 100, .crash .between 200]
    s.acked = [⟨100, 1, [97], [1, 2], 0, 0⟩] ∧ s.stored = [] ∧ s.hand = [] ∧ s.journal.pending = [] ∧
      unmatured s.journal.file = [] := by
  decide +kernel

end Arbitro
