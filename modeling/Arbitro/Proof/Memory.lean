import Arbitro.Proof.Ordered
import Arbitro.Store.Memory
import Mathlib.Order.Interval.Finset.Nat

/-!
# The memory store is an ordered log

* `MemoryStore.Holds`: the index is filed in the arena, and the counters agree with it.
* `Holds.step`: every operation does to the store what it does to the log.
* `is_ordered_log`: runs, as long as no length is cut, no batch is refused in the middle and
  `truncate_front` counts to the right position. `Gapped` is a run in which it does not.
-/

namespace Arbitro

open SeqIndex List Nat Journal Sparse

namespace MemoryStore

variable {m m' : MemoryStore} {l : OrderedLog} (hash : WireHash) {entries : List EntryRef} (timestamp : ℕ)

/-! ## Positions -/

/-- Without a gap below it, or with nothing at or above it, a seq is at the position that its
distance from the first says. -/
theorem min_eq_countP {seqs : List ℕ} {first target : ℕ} (hsorted : seqs.Pairwise (· < ·)) (hlow : ∀ s ∈ seqs, first ≤ s)
    (hgap : (∀ s < target, first ≤ s → s ∈ seqs) ∨ ∀ s ∈ seqs, s < target) :
    min (target - first) seqs.length = seqs.countP (· < target) := by
  have hcard : seqs.countP (· < target) = (seqs.filter (· < target)).toFinset.card := by
    rw [toFinset_card_of_nodup ((hsorted.imp ne_of_lt).filter _), countP_eq_length_filter]
  have hle : seqs.countP (· < target) ≤ target - first := by
    rw [hcard, ← card_Ico]
    refine Finset.card_le_card fun s hs => ?_
    obtain ⟨hs, hlt⟩ := mem_filter.1 (mem_toFinset.1 hs)
    exact Finset.mem_Ico.2 ⟨hlow s hs, of_decide_eq_true hlt⟩
  have hlen : seqs.countP (· < target) ≤ seqs.length := countP_le_length
  rcases hgap with hgap | hall
  · have hge : target - first ≤ seqs.countP (· < target) := by
      rw [hcard, ← card_Ico]
      refine Finset.card_le_card fun s hs => ?_
      obtain ⟨hge, hlt⟩ := Finset.mem_Ico.1 hs
      exact mem_toFinset.2 (mem_filter.2 ⟨hgap s hlt hge, decide_eq_true hlt⟩)
    omega
  · have heq : seqs.countP (· < target) = seqs.length := countP_eq_length.2 fun s hs => decide_eq_true (hall s hs)
    omega

/-- What `truncate_front` counts on: there is no gap from the first seq up to the new one, or no
entry at or above it. -/
def Dense (m : MemoryStore) (target : ℕ) : Prop :=
  (∀ s < target, m.firstSeq ≤ s → s ∈ m.index.map (·.seq)) ∨ ∀ s ∈ m.index.map (·.seq), s < target

/-! ## Segments -/

theorem segmentSlice_rotate (hlens : m.sealedLens.length = m.sealed.length) {i : ℕ} (hi : i ≤ m.sealed.length) :
    m.rotate.segmentSlice i = m.segmentSlice i := by
  have hlt : i < (m.sealed ++ [m.active]).length := by
    rw [length_append, length_singleton]
    omega
  unfold segmentSlice rotate
  simp only [if_pos hlt, getD_eq_getElem?_getD]
  rcases lt_or_ge i m.sealed.length with hlt | hge
  · rw [if_pos hlt, getElem?_append_left hlt, getElem?_append_left (by omega)]
  · obtain rfl : i = m.sealed.length := by omega
    rw [if_neg (by omega), getElem?_concat_length, ← hlens, getElem?_concat_length]
    rfl

/-- Segments in front of an entry's are dropped, and the others get smaller numbers. -/
theorem segmentSlice_drop {i dropped : ℕ} (hi : dropped ≤ i)
    (hsealed : m'.sealed = m.sealed.drop dropped) (hlens' : m'.sealedLens = m.sealedLens.drop dropped)
    (hactive : m'.active = m.active) (hlen : m'.activeLen = m.activeLen) :
    m.segmentSlice i <+: m'.segmentSlice (i - dropped) := by
  have hidx : dropped + (i - dropped) = i := by omega
  unfold segmentSlice
  have hlt : i - dropped < m.sealed.length - dropped ↔ i < m.sealed.length := by omega
  rw [hsealed, hlens', hactive, hlen, length_drop]
  simp only [getD_eq_getElem?_getD, getElem?_drop, hidx, hlt]
  exact prefix_rfl

/-- **The store holds the entries of a log.** -/
structure Holds (m : MemoryStore) (l : OrderedLog) : Prop where
  filed : Filed m.segmentSlice m.sealed.length m.firstSeq m.index l
  next : m.nextSeq = l.nextSeq
  lens : m.sealedLens.length = m.sealed.length
  room : m.activeLen ≤ m.segmentSize
  least : minSegmentSize ≤ m.segmentSize
  most : m.segmentSize ≤ 2 ^ 32
  sizes : ∀ d ∈ m.index, d.subjLen < 2 ^ 16 ∧ d.payloadLen < 2 ^ 32 ∧ d.subjLen + d.payloadLen ≤ m.segmentSize
  bytes : m.totalBytes = (m.index.map fun d => d.subjLen + d.payloadLen).sum

theorem holds_new {size : ℕ} (h : size ≤ 2 ^ 32) : Holds (withSegmentSize size) {} where
  filed := Filed.nil _ _ ⟨one_pos, le_rfl⟩
  next := rfl
  lens := rfl
  room := zero_le _
  least := le_max_right _ _
  most := Nat.max_le.2 ⟨h, by decide⟩
  sizes := nofun
  bytes := rfl

theorem Holds.advance (h : Holds m l) {next : ℕ} (hle : l.nextSeq ≤ next) :
    Holds { m with nextSeq := next } { l with nextSeq := next } :=
  { h with filed := h.filed.advance hle, next := rfl }

/-- **What an operation makes of a store follows the log**: it answers as the log does and holds its entries, in
segments of the size they had. -/
def Follows (m : MemoryStore) (r : MemoryStore × StoreReply) (x : OrderedLog × StoreReply) : Prop :=
  r.2 = x.2 ∧ Holds r.1 x.1 ∧ r.1.segmentSize = m.segmentSize

/-! ## Appends -/

/-- The lengths fit into the 16 and 32 bits that an index entry has for them. -/
def WellSized (entry : EntryRef) : Prop := entry.subject.length < 2 ^ 16 ∧ entry.payload.length < 2 ^ 32

instance (entry : EntryRef) : Decidable (WellSized entry) := inferInstanceAs (Decidable (_ ∧ _))

/-- What the memory store refuses an entry for. -/
def refuses (segmentSize : ℕ) (entry : EntryRef) : Option StoreError :=
  if segmentSize < entry.subject.length + entry.payload.length then some .entryTooLarge else none

/-- The store with room for an entry. -/
def makeRoom (m : MemoryStore) (entryBytes : ℕ) : MemoryStore :=
  if m.segmentSize < m.activeLen + entryBytes then m.rotate else m

/-- The index entry of an entry at the end of the active segment. -/
def filed (hash : WireHash) (m : MemoryStore) (entry : EntryRef) (timestamp : ℕ) : LogMetadata :=
  { seq := m.nextSeq
    ts := timestamp
    subjLen := entry.subject.length
    payloadLen := entry.payload.length
    offset := m.activeLen % 2 ^ 32
    segmentIdx := m.sealed.length
    subjectHash := hash entry.subject
    streamId := entry.streamId
    flags := entry.flags }

/-- The store with an entry at the end of the active segment. -/
def pushed (hash : WireHash) (m : MemoryStore) (entry : EntryRef) (timestamp : ℕ) : MemoryStore :=
  { m with
    active := Sparse.write (Sparse.write m.active m.activeLen entry.subject) (m.activeLen + entry.subject.length) entry.payload
    activeLen := m.activeLen + (entry.subject.length + entry.payload.length)
    index := m.index ++ [m.filed hash entry timestamp]
    nextSeq := m.nextSeq + 1
    totalBytes := m.totalBytes + (entry.subject.length + entry.payload.length) }

theorem segmentSize_makeRoom (m : MemoryStore) (n : ℕ) : (m.makeRoom n).segmentSize = m.segmentSize := by
  unfold makeRoom
  split <;> rfl

theorem pushEntry_eq {entry : EntryRef} (hw : WellSized entry)
    (hfit : entry.subject.length + entry.payload.length ≤ m.segmentSize) (timestamp : ℕ) :
    m.pushEntry hash entry timestamp =
      ((m.makeRoom (entry.subject.length + entry.payload.length)).pushed hash entry timestamp, .seq m.nextSeq) := by
  have hnext : (m.makeRoom (entry.subject.length + entry.payload.length)).nextSeq = m.nextSeq := by
    unfold makeRoom
    split <;> rfl
  unfold pushEntry
  simp only [mod_eq_of_lt hw.1, mod_eq_of_lt hw.2, if_neg (not_lt.2 hfit), ne_eq, not_true_eq_false, if_false]
  change (pushed hash (m.makeRoom (entry.subject.length + entry.payload.length)) entry timestamp,
    StoreReply.seq (m.makeRoom (entry.subject.length + entry.payload.length)).nextSeq) = _
  rw [hnext]

theorem pushEntry_refused {entry : EntryRef} (hw : WellSized entry)
    (hlarge : m.segmentSize < entry.subject.length + entry.payload.length) (timestamp : ℕ) :
    m.pushEntry hash entry timestamp = (m, .error .entryTooLarge) := by
  unfold pushEntry
  simp only [mod_eq_of_lt hw.1, mod_eq_of_lt hw.2, if_pos hlarge]

theorem Holds.makeRoom (h : Holds m l) (n : ℕ) : Holds (m.makeRoom n) l := by
  unfold MemoryStore.makeRoom
  split
  · have hlen : (m.sealed ++ [m.active]).length = m.sealed.length + 1 := length_append
    have hgrow : ∀ i ≤ m.sealed.length, m.segmentSlice i <+: m.rotate.segmentSlice i := by
      intro i hi
      exact segmentSlice_rotate h.lens hi ▸ prefix_rfl
    exact
      { h with
        filed := h.filed.grow (hlen ▸ le_succ _) hgrow
        lens := by
          show (m.sealedLens ++ [m.activeLen]).length = (m.sealed ++ [m.active]).length
          rw [length_append, hlen, h.lens]
          rfl
        room := zero_le _ }
  · exact h

theorem makeRoom_fits {n : ℕ} (hn : n ≤ m.segmentSize) : (m.makeRoom n).activeLen + n ≤ (m.makeRoom n).segmentSize := by
  unfold makeRoom
  split
  · show 0 + n ≤ m.segmentSize
    omega
  · omega

theorem segmentSlice_pushed {entry : EntryRef} (timestamp i : ℕ) :
    (m.pushed hash entry timestamp).segmentSlice i =
      m.segmentSlice i ++ (if i < m.sealed.length then [] else entry.subject ++ entry.payload) := by
  unfold segmentSlice pushed
  split
  · rw [append_nil]
  · rw [← add_assoc, slice_write, slice_write, append_assoc]

/-- **An entry that is appended is shown, and the others stay.** -/
theorem Holds.pushed (h : Holds m l) {entry : EntryRef} (hw : WellSized entry)
    (hfit : m.activeLen + (entry.subject.length + entry.payload.length) ≤ m.segmentSize) (timestamp : ℕ) :
    Holds (m.pushed hash entry timestamp) (l.appendAll [entry] timestamp) where
  filed := by
    apply h.filed.append (d := m.filed hash entry timestamp)
    · intro i _
      rw [segmentSlice_pushed]
      exact prefix_append _ _
    · rfl
    · exact h.next
    have hslice : (m.pushed hash entry timestamp).segmentSlice m.sealed.length =
        slice m.active 0 m.activeLen ++ (entry.subject ++ entry.payload) := by
      rw [segmentSlice_pushed, if_neg (lt_irrefl _)]
      unfold segmentSlice
      rw [if_neg (lt_irrefl _)]
    -- the offset is kept in 32 bits; at the very end of the largest segment only an empty entry fits
    rcases lt_or_ge m.activeLen (2 ^ 32) with hlt | hge
    · apply Filed.entryAt_written
      · rw [append_nil, ← hslice]
        exact prefix_rfl
      · rw [length_slice, ← h.next]
        unfold MemoryStore.filed
        rw [mod_eq_of_lt hlt]
    have hmost := h.most
    have hlen : entry.subject.length = 0 ∧ entry.payload.length = 0 := by omega
    have hoff : m.activeLen % 2 ^ 32 = 0 := by
      rw [show m.activeLen = 2 ^ 32 by omega, mod_self]
    rw [entryAt_eq_some]
    unfold MemoryStore.filed EntryRef.stored
    rw [eq_nil_of_length_eq_zero hlen.1, eq_nil_of_length_eq_zero hlen.2, hoff, h.next]
    exact ⟨zero_le _, rfl⟩
  next := congrArg (· + 1) h.next
  lens := h.lens
  room := hfit
  least := h.least
  most := h.most
  sizes := forall_mem_append.2 ⟨h.sizes, forall_mem_singleton.2
    ⟨hw.1, hw.2, by show entry.subject.length + entry.payload.length ≤ m.segmentSize; omega⟩⟩
  bytes := by
    show m.totalBytes + _ = ((m.index ++ [m.filed hash entry timestamp]).map _).sum
    rw [map_append, sum_append_nat, h.bytes]
    rfl

/-- **One `append`**, of an entry whose lengths can be told. -/
theorem Holds.append (h : Holds m l) {entry : EntryRef} (hw : WellSized entry) (timestamp : ℕ) :
    Follows m (m.pushEntry hash entry timestamp) (l.step .memory (refuses m.segmentSize) (.append entry timestamp)) := by
  rcases lt_or_ge m.segmentSize (entry.subject.length + entry.payload.length) with hlarge | hfit
  · have hno : refuses m.segmentSize entry = some .entryTooLarge := if_pos hlarge
    rw [pushEntry_refused hash hw hlarge]
    simp only [OrderedLog.step, hno]
    exact ⟨rfl, h, rfl⟩
  · have hyes : refuses m.segmentSize entry = none := if_neg (not_lt.2 hfit)
    rw [pushEntry_eq hash hw hfit]
    simp only [OrderedLog.step, hyes]
    exact ⟨congrArg _ h.next, (h.makeRoom _).pushed hash hw (makeRoom_fits hfit) timestamp, m.segmentSize_makeRoom _⟩

theorem Holds.pushAll {m : MemoryStore} {l : OrderedLog} (h : Holds m l)
    (hall : ∀ e ∈ entries, WellSized e ∧ e.subject.length + e.payload.length ≤ m.segmentSize) :
    ∃ m', pushAll hash timestamp m entries = (m', none) ∧ Holds m' (l.appendAll entries timestamp) ∧
      m'.segmentSize = m.segmentSize := by
  induction entries generalizing m l with
  | nil =>
    have hnone : l.appendAll [] timestamp = l := by
      unfold OrderedLog.appendAll storedFrom
      rw [append_nil]
      rfl
    exact ⟨m, rfl, hnone.symm ▸ h, rfl⟩
  | cons e es ih =>
    obtain ⟨hw, hfit⟩ := hall e mem_cons_self
    have hone := (h.makeRoom _).pushed hash hw (makeRoom_fits hfit) timestamp
    have hsize := m.segmentSize_makeRoom (e.subject.length + e.payload.length)
    obtain ⟨m', hrun, hholds, hsize'⟩ := ih hone fun x hx => ⟨(hall x (mem_cons_of_mem _ hx)).1,
      hsize.symm ▸ (hall x (mem_cons_of_mem _ hx)).2⟩
    have hlog : (l.appendAll [e] timestamp).appendAll es timestamp = l.appendAll (e :: es) timestamp := by
      unfold OrderedLog.appendAll
      simp only [storedFrom, append_assoc, singleton_append, length_cons, length_nil]
      rw [add_assoc, add_comm es.length]
    simp only [MemoryStore.pushAll, pushEntry_eq hash hw hfit]
    exact ⟨m', hrun, hlog ▸ hholds, hsize'.trans hsize⟩

section Holds

variable (h : Holds m l)

include h

/-- **`append_batch`**, when no entry is refused behind one that is not. -/
theorem Holds.appendBatch (hw : ∀ e ∈ entries, WellSized e)
    (hfit : (∀ e ∈ entries, refuses m.segmentSize e = none) ∨ ∃ e ∈ entries.head?, refuses m.segmentSize e ≠ none)
    (timestamp : ℕ) : Follows m (m.appendBatch hash entries timestamp)
      (l.step .memory (refuses m.segmentSize) (.appendBatch entries timestamp)) := by
  have hsmall (e : EntryRef) : refuses m.segmentSize e = none ↔ e.subject.length + e.payload.length ≤ m.segmentSize := by
    unfold refuses
    split
    · next hlt => simp [not_le.2 hlt]
    · next hle => simp [not_lt.1 hle]
  unfold MemoryStore.appendBatch
  rcases hfit with hfit | ⟨e, he, hlarge⟩
  · obtain ⟨m', hrun, hholds, hsize⟩ := h.pushAll hash timestamp fun e he => ⟨hw e he, (hsmall e).1 (hfit e he)⟩
    have hno : entries.findSome? (refuses m.segmentSize) = none := findSome?_eq_none_iff.2 hfit
    simp only [hrun, OrderedLog.step, hno]
    exact ⟨congrArg _ h.next, hholds, hsize⟩
  obtain ⟨es, rfl⟩ : ∃ es, entries = e :: es := head?_eq_some_iff.1 he
  have hlt : m.segmentSize < e.subject.length + e.payload.length := by
    rw [ne_eq, hsmall] at hlarge
    omega
  have hno : refuses m.segmentSize e = some .entryTooLarge := if_pos hlt
  simp only [MemoryStore.pushAll, pushEntry_refused hash (hw e mem_cons_self) hlt, OrderedLog.step, findSome?_cons, hno]
  exact ⟨rfl, h, rfl⟩

/-! ## Removals -/

/-- **`truncate_front`**, when the position that it counts to is the one of the seq. -/
theorem Holds.truncateFront {target : ℕ}
    (hcut : target ≤ m.firstSeq ∨ m.index = [] ∨ (target ≤ m.nextSeq ∧ m.Dense target)) :
    Follows m (m.truncateFront target) (l.remove (·.seq < target), .removed (l.entries.countP (·.seq < target))) := by
  have hkeep (hzero : target ≤ m.firstSeq ∨ m.index = [] ∨ l.entries.countP (·.seq < target) = 0) :
      Follows m (m, .removed 0) (l.remove (·.seq < target), .removed (l.entries.countP (·.seq < target))) := by
    obtain ⟨hnone, hsame⟩ := h.filed.remove_below hzero
    rw [hnone, hsame]
    exact ⟨rfl, h, rfl⟩
  unfold MemoryStore.truncateFront
  split
  · next hnone => exact hkeep (hnone.imp_right .inl)
  next hsome =>
  rw [not_or] at hsome
  obtain ⟨hnext, hdense⟩ := (hcut.resolve_left hsome.1).resolve_left hsome.2
  have heq : min (target - m.firstSeq) m.index.length = m.index.countP (·.seq < target) := by
    have hseqs := h.filed.shown.seqs
    have hpos := min_eq_countP (by rw [hseqs]; exact pairwise_map.2 h.filed.shown.ok.sorted)
      (by rw [hseqs]; exact forall_mem_map.2 fun e he => (h.filed.shown.ok.within e he).1) hdense
    rw [length_map, countP_map] at hpos
    exact hpos
  simp only [heq, h.filed.countP_below]
  split
  · next hzero => exact hkeep (.inr (.inr hzero))
  refine ⟨rfl, ?_, rfl⟩
  generalize hk : l.entries.countP (·.seq < target) = cut
  generalize hseg : min ((m.index[cut]?.map (·.segmentIdx)).getD (m.sealed.length + 1)) m.sealed.length = dropped
  -- the entries that stay are in the segments that stay
  have hplace : ∀ d ∈ m.index.drop cut, dropped ≤ d.segmentIdx := by
    intro d hd
    obtain ⟨x, xs, hxs⟩ := exists_cons_of_ne_nil (ne_nil_of_mem hd)
    have hhead : m.index[cut]? = some x := by
      rw [← head?_drop, hxs]
      rfl
    have hle : x.segmentIdx ≤ d.segmentIdx := by
      have hpair := h.filed.order.drop (i := cut)
      rw [hxs] at hpair hd
      rcases mem_cons.1 hd with rfl | hd
      · exact le_rfl
      · exact (pairwise_cons.1 hpair).1 d hd
    rw [hhead, Option.map_some, Option.getD_some] at hseg
    omega
  have hsum : (m.index.map fun d => d.subjLen + d.payloadLen).sum =
      ((m.index.take cut).map fun d => d.subjLen + d.payloadLen).sum +
        ((m.index.drop cut).map fun d => d.subjLen + d.payloadLen).sum := by
    rw [← sum_append_nat, ← map_append, take_append_drop]
  exact
    { filed := by
        rw [length_drop]
        exact h.filed.drop (Nat.lt_of_not_le hsome.1) (h.next ▸ hnext) hk hplace
          fun i hi => segmentSlice_drop (m := m) hi rfl rfl rfl rfl
      next := h.next
      lens := by
        rw [length_drop, length_drop, h.lens]
      room := h.room
      least := h.least
      most := h.most
      sizes := by
        intro x hx
        obtain ⟨d, hd, rfl⟩ := mem_map.1 hx
        exact h.sizes d (mem_of_mem_drop hd)
      bytes := by
        rw [h.bytes, hsum, Nat.add_sub_cancel_left, map_map]
        rfl }

theorem Holds.purge : Follows m m.purge (l.remove fun _ => true, .removed l.entries.length) := by
  have hempty : l.remove (fun _ => true) = { l with entries := [] } := by
    unfold OrderedLog.remove
    simp
  have hfront : 0 < m.nextSeq ∧ m.nextSeq ≤ l.nextSeq := by
    obtain ⟨hpos, hle⟩ := h.filed.shown.ok.front
    exact ⟨h.next ▸ hpos.trans_le hle, h.next.le⟩
  rw [hempty]
  exact ⟨congrArg _ h.filed.length_eq,
    { h with
      filed := Filed.nil _ _ hfront
      lens := rfl
      room := zero_le _
      sizes := nofun
      bytes := rfl }, rfl⟩

variable (stream : StreamId) (subject : Bytes)

/-- The loop of `drain`: the entries that stay are appended to the new store under their seqs. -/
theorem Holds.rebuild (next : ℕ) (ds : List LogMetadata) (es : List StoreEntry)
    (new : MemoryStore) (l' : OrderedLog) (hmem : ∀ d ∈ ds, d ∈ m.index) (hviews : ds.map m.entryView = es.map some)
    (hsorted : es.Pairwise (·.seq < ·.seq)) (hbound : ∀ e ∈ es, l'.nextSeq ≤ e.seq ∧ e.seq < next)
    (hle : l'.nextSeq ≤ next) (hnew : Holds new l') (hsize : new.segmentSize = m.segmentSize) :
    ∃ new' next', rebuild hash m stream subject ds new = some (new', es.countP (drained stream subject)) ∧
      Holds new' ⟨l'.entries ++ es.filter (fun e => !drained stream subject e), next'⟩ ∧
      next' ≤ next ∧ new'.segmentSize = m.segmentSize := by
  induction ds generalizing es new l' with
  | nil =>
    obtain rfl : es = [] := by simpa using hviews.symm
    refine ⟨new, l'.nextSeq, rfl, ?_, hle, hsize⟩
    rw [filter_nil, append_nil]
    exact hnew
  | cons d ds ih =>
    cases es with
    | nil => cases hviews
    | cons e es =>
      obtain ⟨hview, hrest⟩ := cons.inj hviews
      obtain ⟨hhead, htail⟩ := pairwise_cons.1 hsorted
      have hmem' : ∀ d ∈ ds, d ∈ m.index := fun x hx => hmem x (mem_cons_of_mem _ hx)
      have hbe := hbound e mem_cons_self
      simp only [MemoryStore.rebuild, hview]
      cases hp : drained stream subject e with
      | true =>
        obtain ⟨new', next', hrun, hholds, hnext⟩ := ih es new l' hmem' hrest htail
          (fun x hx => hbound x (mem_cons_of_mem _ hx)) hle hnew hsize
        refine ⟨new', next', ?_, ?_, hnext⟩
        · rw [if_pos rfl, hrun, countP_cons_of_pos hp]
          rfl
        · rw [filter_cons_of_neg (by rw [hp]; exact Bool.false_ne_true)]
          exact hholds
      | false =>
        have hseq : e.seq = d.seq := congrArg StoreEntry.seq (entryAt_eq_some.1 hview).2
        have hts : e.timestamp = d.ts := congrArg StoreEntry.timestamp (entryAt_eq_some.1 hview).2
        obtain ⟨hsubj, hpay⟩ := entryAt_lengths hview
        obtain ⟨hs16, hp32, hfit⟩ := h.sizes d (hmem d mem_cons_self)
        -- the copy has the seq and the timestamp of the entry
        have hcopy : (refOf e).stored d.seq d.ts = e := by
          rw [← hseq, ← hts]
          rfl
        have hat := hnew.advance (show l'.nextSeq ≤ d.seq from hseq ▸ hbe.1)
        have hw : WellSized (refOf e) := ⟨hsubj.symm ▸ hs16, hpay.symm ▸ hp32⟩
        have hfits : (refOf e).subject.length + (refOf e).payload.length ≤ { new with nextSeq := d.seq }.segmentSize := by
          show e.subject.length + e.payload.length ≤ new.segmentSize
          omega
        have hpush := (hat.makeRoom _).pushed hash hw (makeRoom_fits hfits) d.ts
        have hlog : OrderedLog.appendAll ⟨l'.entries, d.seq⟩ [refOf e] d.ts = ⟨l'.entries ++ [e], d.seq + 1⟩ := by
          unfold OrderedLog.appendAll
          simp only [storedFrom, hcopy]
          rfl
        rw [hlog] at hpush
        rw [if_neg Bool.false_ne_true, pushEntry_eq hash hw hfits]
        obtain ⟨new', next', hrun, hholds, hnext⟩ := ih es _ _ hmem' hrest htail
          (fun x hx => ⟨hseq ▸ hhead x hx, (hbound x (mem_cons_of_mem _ hx)).2⟩) (show d.seq + 1 ≤ next by omega)
          hpush ((segmentSize_makeRoom _ _).trans hsize)
        refine ⟨new', next', ?_, ?_, hnext⟩
        · rw [hrun, countP_cons_of_neg (by rw [hp]; exact Bool.false_ne_true)]
        · rw [filter_cons_of_pos (by rw [hp]; rfl), ← singleton_append, ← append_assoc]
          exact hholds

/-- **`drain`**: the entries asked for are gone, and the others keep their seqs. -/
theorem Holds.drain : Follows m (m.drain hash stream subject)
      (l.remove (drained stream subject), .removed (l.entries.countP (drained stream subject))) := by
  have hsize : max m.segmentSize minSegmentSize = m.segmentSize := max_eq_left h.least
  have hpos : 0 < l.nextSeq := h.filed.shown.ok.front.1.trans_le h.filed.shown.ok.front.2
  obtain ⟨new, next, hrun, hholds, hnext, hseg⟩ := h.rebuild hash stream subject l.nextSeq m.index l.entries
    (withSegmentSize m.segmentSize) {} (fun _ hd => hd) h.filed.shown.views h.filed.shown.ok.sorted
    (fun e he => ⟨h.filed.shown.ok.front.1.trans_le (h.filed.shown.ok.within e he).1, (h.filed.shown.ok.within e he).2⟩) hpos
    (holds_new h.most) hsize
  have hlog : (⟨[] ++ l.entries.filter (fun e => !drained stream subject e), l.nextSeq⟩ : OrderedLog) =
      l.remove (drained stream subject) := rfl
  have hmoved : Holds { new with nextSeq := m.nextSeq } (l.remove (drained stream subject)) := by
    rw [h.next, ← hlog]
    exact hholds.advance hnext
  unfold MemoryStore.drain
  simp only [hrun]
  refine ⟨rfl, ?_, hseg⟩
  have hhead : new.index.head?.map (·.seq) = (l.remove (drained stream subject)).entries.head?.map (·.seq) := by
    rw [← head?_map, ← head?_map, hmoved.filed.shown.seqs]
  rw [hhead, h.next]
  exact
    { hmoved with
      filed := ⟨⟨hmoved.filed.shown.views, hmoved.filed.shown.seqs, h.filed.shown.ok.drain .memory stream subject⟩,
        hmoved.filed.placed, hmoved.filed.order⟩
      next := rfl }

/-! ## Tombstones -/

theorem Holds.mark {q : LogMetadata → Bool} {p : StoreEntry → Bool} (hq : ∀ d e, m.entryView d = some e → q d = p e) :
    Holds { m with index := m.index.map fun d => if q d then d.bury else d } (l.mark p) := by
  have hsame (d : LogMetadata) : (if q d then d.bury else d).subjLen = d.subjLen ∧
      (if q d then d.bury else d).payloadLen = d.payloadLen := by
    split <;> exact ⟨rfl, rfl⟩
  exact
    { h with
      filed := h.filed.mark hq fun _ _ _ he => he
      sizes := by
        intro x hx
        obtain ⟨d, hd, rfl⟩ := mem_map.1 hx
        rw [(hsame d).1, (hsame d).2]
        exact h.sizes d hd
      bytes := by
        rw [map_map, h.bytes]
        simp only [Function.comp_def, hsame] }

theorem Holds.tombstoneAt (seq : ℕ) :
    Follows m (m.tombstoneAt seq) (l.mark (·.seq == seq), .found (0 < l.live (·.seq == seq))) := by
  unfold MemoryStore.tombstoneAt
  rw [h.filed.shown.tombstone_eq seq]
  refine ⟨congrArg _ (h.filed.any_live seq), h.mark fun d e hd => ?_, rfl⟩
  obtain ⟨-, rfl⟩ := entryAt_eq_some.1 hd
  rfl

theorem Holds.tombstoneStream :
    Follows m (m.tombstoneStream stream) (l.mark (·.streamId == stream), .removed (l.live (·.streamId == stream))) := by
  have hq : ∀ d e, m.entryView d = some e → (d.streamId == stream && !d.dead) = (e.streamId == stream && !e.tombstone) := by
    intro d e hd
    obtain ⟨-, rfl⟩ := entryAt_eq_some.1 hd
    rfl
  rw [← l.mark_live]
  exact ⟨congrArg _ (countP_eq h.filed.shown.views hq), h.mark hq, rfl⟩

end Holds

/-! ## Runs -/

/-- What an operation has to meet: the lengths of an entry fit into an index entry; a batch is not
refused in the middle; and `truncate_front` finds no gap. -/
def Safe (m : MemoryStore) : StoreOp → Prop
  | .append entry _ => WellSized entry
  | .appendBatch entries _ =>
    (∀ e ∈ entries, WellSized e) ∧
      ((∀ e ∈ entries, refuses m.segmentSize e = none) ∨ ∃ e ∈ entries.head?, refuses m.segmentSize e ≠ none)
  | .truncateFront target =>
    target ≤ m.firstSeq ∨ m.index = [] ∨ (target ≤ m.nextSeq ∧ m.Dense target)
  | _ => True

instance (m : MemoryStore) (op : StoreOp) : Decidable (m.Safe op) := by
  cases op <;> unfold Safe <;> try unfold Dense
  all_goals infer_instance

/-- **Every operation does to the store what it does to the log.** -/
theorem Holds.step (h : Holds m l) {op : StoreOp} (hop : m.Safe op) :
    Follows m (m.step hash op) (l.step .memory (refuses m.segmentSize) op) := by
  cases op with
  | append entry timestamp => exact h.append hash hop timestamp
  | appendBatch entries timestamp => exact h.appendBatch hash hop.1 hop.2 timestamp
  | truncateFront target => exact h.truncateFront hop
  | drain stream subject => exact h.drain hash stream subject
  | purge => exact h.purge
  | tombstoneAt seq => exact h.tombstoneAt seq
  | tombstoneStream stream => exact h.tombstoneStream stream

/-- The memory store with segments of a size, beside the log. -/
def besideStart (size : ℕ) : SideBySide MemoryStore := ⟨withSegmentSize size, {}, [], []⟩

def besideStep (size : ℕ) : SideBySide MemoryStore → StoreOp → SideBySide MemoryStore :=
  SideBySide.step (MemoryStore.step hash) .memory (refuses (max size minSegmentSize))

/-- **The memory store is an ordered log**, on every run of operations that are safe. It answers
as the log does; the seqs that it assigns go up; a lookup and a walk find the entries that the log
holds, with their bytes and in the order of their seqs; and `info` counts them. -/
theorem is_ordered_log (size : ℕ) (hsize : size ≤ 2 ^ 32) (ops : List StoreOp)
    (hops : Run.Guarded (besideStep hash size) (fun s op => s.store.Safe op) (besideStart size) ops) :
    let s := ops.foldl (besideStep hash size) (besideStart size)
    (∀ r ∈ s.replies, r.1 = r.2) ∧ s.assigned.Pairwise (· < ·) ∧
      (∀ seq, s.store.read seq = some (s.log.read seq)) ∧
      (∀ start stop, s.store.forEach start stop = some (s.log.range start stop)) ∧
      s.store.info = s.log.info := by
  intro s
  have hstep : ∀ (m : MemoryStore) (l : OrderedLog) (op : StoreOp),
      (Holds m l ∧ m.segmentSize = max size minSegmentSize) → m.Safe op →
      (m.step hash op).2 = (l.step .memory (refuses (max size minSegmentSize)) op).2 ∧
        (Holds (m.step hash op).1 (l.step .memory (refuses (max size minSegmentSize)) op).1 ∧
          (m.step hash op).1.segmentSize = max size minSegmentSize) := by
    rintro m l op ⟨h, hseg⟩ hop
    obtain ⟨hreply, hnext, hsame⟩ := h.step hash hop
    rw [hseg] at hreply hnext
    exact ⟨hreply, hnext, hsame.trans hseg⟩
  obtain ⟨⟨hholds, -⟩, hreplies, hup, -⟩ := SideBySide.agrees hstep ⟨holds_new hsize, rfl⟩ ops hops
  refine ⟨hreplies, hup, hholds.filed.shown.read, hholds.filed.shown.forEach, ?_⟩
  have hinfo : ∀ {m : MemoryStore} {l : OrderedLog}, Holds m l → m.info = l.info := by
    intro m l h
    unfold MemoryStore.info OrderedLog.info
    rw [h.filed.length_eq, h.bytes, h.filed.bytes, h.next]
  exact hinfo hholds

/-! ## A gap -/

namespace Gapped

def entry (stream : StreamId) : EntryRef := ⟨stream, [97], [98], 0⟩

/-- Three entries; that of the other stream is drained, which leaves a gap. -/
def drained : List StoreOp := [.append (entry 1) 0, .append (entry 2) 0, .append (entry 1) 0, .drain 2 []]

def run (ops : List StoreOp) : SideBySide MemoryStore := ops.foldl (besideStep (fun _ => 0) 4096) (besideStart 4096)

/-- Below the gap the positions are right. -/
theorem agrees_below :
    let s := run (drained ++ [.truncateFront 2, .tombstoneStream 1])
    s.store.info = s.log.info ∧ ∀ r ∈ s.replies, r.1 = r.2 := by
  obtain ⟨hreplies, -, -, -, hinfo⟩ := is_ordered_log (fun _ => 0) 4096 (by decide)
    (drained ++ [.truncateFront 2, .tombstoneStream 1]) (by decide +kernel)
  exact ⟨hinfo, hreplies⟩

/-- **`truncate_front(3)` removes the entry with seq 3**, which is at the second position. -/
theorem truncates_too_much :
    (run drained).store.read 3 = some (some ⟨3, 1, 0, [97], [98], 0⟩) ∧
      (run (drained ++ [.truncateFront 3])).replies.getLast? = some (.removed 2, .removed 1) ∧
      (run (drained ++ [.truncateFront 3])).store.read 3 = some none ∧
      (run (drained ++ [.truncateFront 3])).log.read 3 = some ⟨3, 1, 0, [97], [98], 0⟩ := by
  decide +kernel

end Gapped

end MemoryStore

end Arbitro
