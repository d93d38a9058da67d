import Arbitro.Lib.Run
import Arbitro.Proof.Journal
import Arbitro.Store.Ordered

/-!
# Ordered logs

* `OrderedLog.Sorted`: the entries are in the order of their seqs, below the next one. Every
  operation keeps it, and what it assigns lies above everything assigned before (`step_assigned`).
* `SideBySide.agrees`: a store that holds the entries of the log after every step answers as the
  log does.
* `SeqIndex.Filed`: an index points into segments that grow at the end and go at the front.
* `SeqIndex.Shows`: an index shows the entries of a log. Reading through it finds what the log
  holds (`Shows.read`, `Shows.forEach`), with gaps and without.
-/

namespace Arbitro

open Journal List StoreEntry Function

/-! ## Logs -/

namespace OrderedLog

variable {l : OrderedLog}

/-- The entries are in the order of their seqs. -/
structure Sorted (l : OrderedLog) : Prop where
  sorted : l.entries.Pairwise (·.seq < ·.seq)
  below : ∀ e ∈ l.entries, e.seq < l.nextSeq

/-- Entries that are tombstoned already may be left out. -/
theorem mark_live (l : OrderedLog) (p : StoreEntry → Bool) : (l.mark fun e => p e && !e.tombstone) = l.mark p := by
  have hkill := killing_live ⟨l.entries, l.nextSeq, 0⟩ p
  exact congrArg (fun j : Journal => (⟨j.index, j.nextSeq⟩ : OrderedLog)) hkill

variable {backend : Backend} {refuses : EntryRef → Option StoreError}

/-- **The seqs that an operation assigns** go up, and lie between the next seq before and after. -/
theorem step_assigned {op : StoreOp} :
    (op.assigned (l.step backend refuses op).2).Pairwise (· < ·) ∧
      (∀ s ∈ op.assigned (l.step backend refuses op).2, l.nextSeq ≤ s ∧ s < (l.step backend refuses op).1.nextSeq) ∧
      l.nextSeq ≤ (l.step backend refuses op).1.nextSeq := by
  have hnone {r : OrderedLog} (hr : r.nextSeq = l.nextSeq) : ([] : List ℕ).Pairwise (· < ·) ∧
      (∀ s ∈ ([] : List ℕ), l.nextSeq ≤ s ∧ s < r.nextSeq) ∧ l.nextSeq ≤ r.nextSeq :=
    ⟨Pairwise.nil, nofun, hr.ge⟩
  cases op with
  | append entry timestamp =>
    simp only [OrderedLog.step]
    split
    · exact hnone rfl
    · refine ⟨pairwise_singleton _ _, fun s hs => ?_, Nat.le_succ _⟩
      rw [mem_singleton.1 hs]
      exact ⟨le_rfl, Nat.lt_succ_self _⟩
  | appendBatch entries timestamp =>
    simp only [OrderedLog.step]
    split
    · exact hnone rfl
    · refine ⟨pairwise_lt_range', fun s hs => ?_, Nat.le_add_right _ _⟩
      exact mem_range'_1.1 hs
  | drain stream subject =>
    cases backend with
    | memory => exact hnone rfl
    | tolerant => exact hnone rfl
  | _ => exact hnone rfl

theorem Sorted.drop_below (h : l.Sorted) (target : ℕ) :
    l.entries.drop (l.entries.countP (·.seq < target)) = (l.remove (·.seq < target)).entries := by
  obtain ⟨htake, hdrop⟩ := takeWhile_of_pairwise (p := fun e => decide (e.seq < target)) (h.sorted.imp fun hlt => by
    simp only [decide_eq_true_eq]
    omega)
  unfold remove
  rw [← hdrop, countP_eq_length_filter, ← htake]
  exact (congrArg (drop _) takeWhile_append_dropWhile.symm).trans drop_left

end OrderedLog

/-! ## A store beside the log -/

/-- A store and the log it is compared with: what both have answered, and the seqs that the store
has assigned. -/
structure SideBySide (σ : Type) where
  store : σ
  log : OrderedLog := {}
  replies : List (StoreReply × StoreReply) := []
  assigned : List ℕ := []

namespace SideBySide

variable {σ : Type} (run : σ → StoreOp → σ × StoreReply) (backend : Backend) (refuses : EntryRef → Option StoreError)

def step (s : SideBySide σ) (op : StoreOp) : SideBySide σ :=
  { store := (run s.store op).1
    log := (s.log.step backend refuses op).1
    replies := s.replies ++ [((run s.store op).2, (s.log.step backend refuses op).2)]
    assigned := s.assigned ++ op.assigned (run s.store op).2 }

variable {run backend refuses} {Holds : σ → OrderedLog → Prop}

/-- The store holds the entries of the log, and both have answered alike. -/
structure Alike (Holds : σ → OrderedLog → Prop) (s : SideBySide σ) : Prop where
  holds : Holds s.store s.log
  replies : ∀ r ∈ s.replies, r.1 = r.2
  up : s.assigned.Pairwise (· < ·)
  below : ∀ n ∈ s.assigned, n < s.log.nextSeq

theorem Alike.step {s : SideBySide σ} (h : s.Alike Holds) {op : StoreOp}
    (hreply : (run s.store op).2 = (s.log.step backend refuses op).2)
    (hnext : Holds (run s.store op).1 (s.log.step backend refuses op).1) :
    (s.step run backend refuses op).Alike Holds := by
  obtain ⟨hnew, hrange, hmono⟩ := OrderedLog.step_assigned
  refine ⟨hnext, forall_mem_append.2 ⟨h.replies, forall_mem_singleton.2 hreply⟩, ?_, fun n hn => ?_⟩
  · show (s.assigned ++ op.assigned (run s.store op).2).Pairwise (· < ·)
    rw [hreply, pairwise_append]
    exact ⟨h.up, hnew, fun a ha b hb => (h.below a ha).trans_le (hrange b hb).1⟩
  · have hn' : n ∈ s.assigned ++ op.assigned (s.log.step backend refuses op).2 := hreply ▸ hn
    rcases mem_append.1 hn' with hn' | hn'
    · exact (h.below n hn').trans_le hmono
    · exact (hrange n hn').2

/-- **A store that holds the entries of the log after every step** answers as the log does, and
assigns seqs that go up. -/
theorem agrees {ok : σ → StoreOp → Prop} (hstep : ∀ m l op, Holds m l → ok m op →
      (run m op).2 = (l.step backend refuses op).2 ∧ Holds (run m op).1 (l.step backend refuses op).1)
    {m : σ} (hm : Holds m {}) (ops : List StoreOp)
    (hok : Run.Guarded (step run backend refuses) (fun s op => ok s.store op) ⟨m, {}, [], []⟩ ops) :
    (ops.foldl (step run backend refuses) ⟨m, {}, [], []⟩).Alike Holds := by
  have halike : ∀ (s : SideBySide σ) (op : StoreOp), s.Alike Holds → ok s.store op →
      (s.step run backend refuses op).Alike Holds := by
    intro s op h hop
    obtain ⟨hreply, hnext⟩ := hstep s.store s.log op h.holds hop
    exact h.step hreply hnext
  exact Run.invariant halike ops _ ⟨hm, nofun, Pairwise.nil, nofun⟩ hok

end SideBySide

/-! ## Positions -/

namespace Journal

variable (j : Journal) (seq : ℕ)

theorem lowerBound_seqs : SeqIndex.lowerBound (j.index.map (·.seq)) seq = j.lowerBound seq := by
  unfold SeqIndex.lowerBound lowerBound
  rw [findIdx_map]
  rfl

theorem isAt_seqs {i : ℕ} : SeqIndex.isAt (j.index.map (·.seq)) i seq = j.isAt i seq := by
  unfold SeqIndex.isAt isAt
  rw [getElem?_map, Option.map_map]
  rfl

theorem seqToIdx_seqs : SeqIndex.seqToIdx j.firstSeq (j.index.map (·.seq)) seq = j.seqToIdx seq := by
  unfold SeqIndex.seqToIdx seqToIdx
  rw [lowerBound_seqs, isAt_seqs, isAt_seqs]

theorem findLowerBound_seqs : SeqIndex.findLowerBound j.firstSeq (j.index.map (·.seq)) seq = j.findLowerBound seq := by
  unfold SeqIndex.findLowerBound findLowerBound
  rw [lowerBound_seqs, isAt_seqs]

end Journal

namespace SeqIndex

variable {xs : List LogMetadata} {es : List StoreEntry} {q : LogMetadata → Bool} {p : StoreEntry → Bool}
  {view' : LogMetadata → Option StoreEntry}

/-- **An index shows the entries of a log**: its entries point at them, in order. -/
structure Shows (firstSeq : ℕ) (index : List LogMetadata) (view : LogMetadata → Option StoreEntry) (l : OrderedLog) :
    Prop where
  views : index.map view = l.entries.map some
  seqs : index.map (·.seq) = l.entries.map (·.seq)
  ok : OK ⟨l.entries, l.nextSeq, firstSeq⟩

variable {firstSeq : ℕ} {index : List LogMetadata} {view : LogMetadata → Option StoreEntry} {l : OrderedLog}
  {d : LogMetadata}

theorem mapM_eq (h : xs.map view = es.map some) : xs.mapM view = some es := by
  have hid : (xs.map view).mapM id = xs.mapM view := mapM_map
  rw [← hid, h, mapM_map]
  exact (mapM_pure (f := id)).trans (congrArg some (map_id _))

theorem countP_eq (h : xs.map view = es.map some) (hq : ∀ d e, view d = some e → q d = p e) : xs.countP q = es.countP p := by
  have hleft : xs.countP q = (xs.map view).countP fun o => (o.map p).getD false := by
    rw [countP_map]
    apply countP_congr
    intro d hd
    have hmem : view d ∈ es.map some := h ▸ mem_map.2 ⟨d, hd, rfl⟩
    obtain ⟨e, -, he⟩ := mem_map.1 hmem
    rw [hq d e he.symm, comp_apply, ← he]
    rfl
  rw [hleft, h, countP_map]
  rfl

theorem bury_of_dead (h : d.dead = true) : d.bury = d := by
  have hflags := kill_of_tombstone (e := ⟨0, 0, 0, [], [], d.flags⟩) h
  have heq : d.flags ||| 1 = d.flags := congrArg flags hflags
  unfold LogMetadata.bury
  rw [heq]

section Shows

variable (h : Shows firstSeq index view l) (seq : ℕ)

include h

theorem Shows.getElem? (i : ℕ) : (index[i]?).map view = (l.entries[i]?).map some := by
  rw [← getElem?_map, h.views, getElem?_map]

/-- **A lookup finds the entry with the seq, if there is one.** -/
theorem Shows.read : read firstSeq index view seq = some (l.read seq) := by
  unfold SeqIndex.read
  rw [h.seqs]
  have hidx := seqToIdx_seqs ⟨l.entries, l.nextSeq, firstSeq⟩ seq
  simp only at hidx
  rw [hidx]
  have hread : l.read seq = Journal.read ⟨l.entries, l.nextSeq, firstSeq⟩ seq := by
    refine Option.ext fun e => ?_
    rw [h.ok.read_eq_some_iff]
    refine ⟨fun hl => ⟨mem_of_find?_eq_some hl, by simpa using find?_some hl⟩, fun ⟨he, hseq⟩ => ?_⟩
    cases hl : l.read seq with
    | none => exact absurd (find?_eq_none.1 hl e he) (by simp [hseq])
    | some x => rw [h.ok.inj (mem_of_find?_eq_some hl) he (by simpa [hseq] using find?_some hl)]
  rw [hread, Journal.read]
  cases Journal.seqToIdx ⟨l.entries, l.nextSeq, firstSeq⟩ seq with
  | none => rfl
  | some i =>
    have hview := h.getElem? i
    simp only [Option.bind_some]
    cases hd : index[i]? <;> cases he : l.entries[i]? <;> simp_all

/-- **A walk visits the entries of its range, in order.** -/
theorem Shows.forEach (start stop : ℕ) : forEach firstSeq index view start stop = some (l.range start stop) := by
  have hwalk := h.ok.forEach_eq start stop
  have hlow (seq : ℕ) := findLowerBound_seqs ⟨l.entries, l.nextSeq, firstSeq⟩ seq
  have hlen : index.length = l.entries.length := by simpa using congrArg length h.views
  unfold SeqIndex.forEach OrderedLog.range
  simp only at hlow
  rw [h.seqs, hlow, hlow, hlen, ← hwalk]
  apply mapM_eq
  rw [map_drop, map_take, h.views, ← map_take, ← map_drop]
  rfl

/-! ### Writing -/

theorem Shows.of_mem (hd : d ∈ index) : ∃ e ∈ l.entries, view d = some e ∧ e.seq = d.seq := by
  obtain ⟨i, hi⟩ := mem_iff_getElem?.1 hd
  have hview := h.getElem? i
  rw [hi] at hview
  obtain ⟨e, he, heq⟩ := Option.map_eq_some_iff.1 hview.symm
  have hseq : (index.map (·.seq))[i]? = (l.entries.map (·.seq))[i]? := by rw [h.seqs]
  rw [getElem?_map, getElem?_map, hi, he] at hseq
  exact ⟨e, mem_of_getElem? he, heq.symm, (Option.some.inj hseq).symm⟩

theorem Shows.append {entry : EntryRef} {timestamp : ℕ} (hold : ∀ x ∈ index, ∀ e, view x = some e → view' x = some e)
    (hseq : d.seq = l.nextSeq) (hnew : view' d = some (entry.stored l.nextSeq timestamp)) :
    Shows firstSeq (index ++ [d]) view' (l.appendAll [entry] timestamp) where
  views := by
    have hkept : index.map view' = index.map view := by
      apply map_congr_left
      intro x hx
      obtain ⟨e, -, he, -⟩ := h.of_mem hx
      rw [he]
      exact hold x hx e he
    show (index ++ [d]).map view' = (l.entries ++ [entry.stored l.nextSeq timestamp]).map some
    rw [map_append, hkept, h.views, map_append, map_singleton, hnew, map_singleton]
  seqs := by
    show (index ++ [d]).map _ = (l.entries ++ [entry.stored l.nextSeq timestamp]).map _
    rw [map_append, h.seqs, map_append, map_singleton, hseq, map_singleton]
    rfl
  ok := h.ok.append entry timestamp

theorem Shows.mark (hq : ∀ d ∈ index, ∀ e, view d = some e → q d = p e)
    (hview : ∀ d ∈ index, ∀ e, view d = some e → view' d = some e ∧ view' d.bury = some e.kill) :
    Shows firstSeq (index.map fun d => if q d then d.bury else d) view' (l.mark p) where
  views := by
    show _ = (l.entries.map fun e => if p e then e.kill else e).map some
    have hleft : (index.map fun d => if q d then d.bury else d).map view' =
        (index.map view).map (Option.map fun e => if p e then e.kill else e) := by
      rw [map_map, map_map]
      apply map_congr_left
      intro d hd
      obtain ⟨e, -, he, -⟩ := h.of_mem hd
      obtain ⟨hkeep, hbury⟩ := hview d hd e he
      show view' (if q d then d.bury else d) = (view d).map _
      rw [he, hq d hd e he, Option.map_some]
      split
      · exact hbury
      · exact hkeep
    rw [hleft, h.views, map_map, map_map]
    rfl
  seqs := by
    have hseq (d : LogMetadata) : (if q d then d.bury else d).seq = d.seq := by
      split <;> rfl
    have hkill (e : StoreEntry) : (if p e then e.kill else e).seq = e.seq := killIf_seq
    show (index.map fun d => if q d then d.bury else d).map _ = (l.entries.map fun e => if p e then e.kill else e).map _
    rw [map_map, map_map]
    simp only [comp_def, hseq, hkill]
    exact h.seqs
  ok := h.ok.killing p

/-- The front of an index is dropped; what stays may be filed elsewhere. -/
theorem Shows.drop {f : LogMetadata → LogMetadata}
    {cut firstSeq' : ℕ} (hf : ∀ d ∈ index.drop cut, (f d).seq = d.seq ∧ view' (f d) = view d)
    (hok : OK ⟨l.entries.drop cut, l.nextSeq, firstSeq'⟩) :
    Shows firstSeq' ((index.drop cut).map f) view' { l with entries := l.entries.drop cut } where
  views := by
    have hkept : ((index.drop cut).map f).map view' = (index.drop cut).map view := by
      rw [map_map]
      exact map_congr_left fun d hd => (hf d hd).2
    rw [hkept, map_drop, h.views, map_drop]
  seqs := by
    have hkept : ((index.drop cut).map f).map (·.seq) = (index.drop cut).map (·.seq) := by
      rw [map_map]
      exact map_congr_left fun d hd => (hf d hd).1
    rw [hkept, map_drop, h.seqs, map_drop]
  ok := hok

/-! ### Tombstones -/

/-- **`tombstone_at` marks the entry with the seq**, and tells whether it was there and live. -/
theorem Shows.tombstone_eq :
    tombstone firstSeq index seq =
      (index.map (fun d => if d.seq == seq then d.bury else d), index.any fun d => d.seq == seq && !d.dead) := by
  have hidx := seqToIdx_seqs ⟨l.entries, l.nextSeq, firstSeq⟩ seq
  -- an index entry is found where the log has its entry
  have hfind (i : ℕ) : Journal.seqToIdx ⟨l.entries, l.nextSeq, firstSeq⟩ seq = some i ↔
      ∃ d, index[i]? = some d ∧ d.seq = seq := by
    have hseqs : (index.map (·.seq))[i]? = (l.entries.map (·.seq))[i]? := by rw [h.seqs]
    rw [getElem?_map, getElem?_map] at hseqs
    rw [h.ok.seqToIdx_iff]
    constructor
    · rintro ⟨e, he, rfl⟩
      rw [show l.entries[i]? = some e from he, Option.map_some] at hseqs
      exact Option.map_eq_some_iff.1 hseqs
    · rintro ⟨d, hd, rfl⟩
      rw [hd, Option.map_some] at hseqs
      exact Option.map_eq_some_iff.1 hseqs.symm
  unfold tombstone
  rw [h.seqs]
  simp only at hidx
  rw [hidx]
  exact mark_key LogMetadata.seq (fun _ => bury_of_dead) hfind

end Shows

/-! ### Segments -/

variable {segment segment' : ℕ → Bytes} {e : StoreEntry}

theorem entryAt_eq_some : entryAt segment d = some e ↔
    d.offset + d.subjLen + d.payloadLen ≤ (segment d.segmentIdx).length ∧
      e = ⟨d.seq, d.streamId, d.ts, ((segment d.segmentIdx).drop d.offset).take d.subjLen,
        ((segment d.segmentIdx).drop (d.offset + d.subjLen)).take d.payloadLen, d.flags⟩ := by
  unfold entryAt
  simp only
  split
  · next hle => exact ⟨fun h => ⟨hle, (Option.some.inj h).symm⟩, fun h => congrArg some h.2.symm⟩
  · next hgt => exact ⟨nofun, fun h => absurd h.1 hgt⟩

section EntryAt

variable (h : entryAt segment d = some e)

include h

theorem entryAt_lengths : e.subject.length = d.subjLen ∧ e.payload.length = d.payloadLen := by
  obtain ⟨hle, rfl⟩ := entryAt_eq_some.1 h
  rw [length_take, length_take, length_drop, length_drop]
  omega

theorem entryAt_size : e.size = d.subjLen + d.payloadLen := by
  obtain ⟨hsubj, hpay⟩ := entryAt_lengths h
  exact congrArg₂ (· + ·) hsubj hpay

theorem entryAt_bury : entryAt segment d.bury = some e.kill := by
  obtain ⟨hle, rfl⟩ := entryAt_eq_some.1 h
  exact entryAt_eq_some.2 ⟨hle, rfl⟩

theorem entryAt_of_prefix {d' : LogMetadata} (hd : d' = { d with segmentIdx := d'.segmentIdx })
    (hp : segment d.segmentIdx <+: segment' d'.segmentIdx) : entryAt segment' d' = some e := by
  obtain ⟨rest, hrest⟩ := hp
  obtain ⟨hle, rfl⟩ := entryAt_eq_some.1 h
  have hpiece : ∀ off n, off + n ≤ (segment d.segmentIdx).length →
      ((segment d.segmentIdx ++ rest).drop off).take n = ((segment d.segmentIdx).drop off).take n := by
    intro off n hn
    rw [drop_append_of_le_length (by omega), take_append_of_le_length (by rw [length_drop]; omega)]
  rw [hd, entryAt_eq_some, ← hrest, length_append]
  refine ⟨hle.trans (Nat.le_add_right _ _), ?_⟩
  rw [hpiece d.offset d.subjLen (by omega), hpiece (d.offset + d.subjLen) d.payloadLen hle]

end EntryAt

/-- **Index entries are filed in segments** up to the one with number `last`, and show the entries
of a log. -/
structure Filed (segment : ℕ → Bytes) (last firstSeq : ℕ) (index : List LogMetadata) (l : OrderedLog) : Prop where
  shown : Shows firstSeq index (entryAt segment) l
  placed : ∀ d ∈ index, d.segmentIdx ≤ last
  order : index.Pairwise (·.segmentIdx ≤ ·.segmentIdx)

namespace Filed

variable {last : ℕ} {next : ℕ} {entry : EntryRef} {timestamp : ℕ}

theorem nil (segment : ℕ → Bytes) (last : ℕ) (hfirst : 0 < firstSeq ∧ firstSeq ≤ next) :
    Filed segment last firstSeq [] ⟨[], next⟩ :=
  ⟨⟨rfl, rfl, ⟨Pairwise.nil, nofun, hfirst⟩⟩, nofun, Pairwise.nil⟩

theorem entryAt_written {before after : Bytes}
    (hbytes : before ++ (entry.subject ++ entry.payload) ++ after <+: segment d.segmentIdx)
    (hd : d = { d with seq := next, ts := timestamp, subjLen := entry.subject.length, payloadLen := entry.payload.length,
                       offset := before.length, streamId := entry.streamId, flags := entry.flags }) :
    entryAt segment d = some (entry.stored next timestamp) := by
  have hfront : entryAt (fun _ => before ++ (entry.subject ++ entry.payload) ++ after) d = some (entry.stored next timestamp) := by
    rw [hd, entryAt_eq_some]
    simp only [append_assoc, ← drop_drop, drop_left, take_left, length_append]
    exact ⟨by omega, rfl⟩
  exact entryAt_of_prefix hfront rfl hbytes

variable (h : Filed segment last firstSeq index l)

include h

theorem length_eq : index.length = l.entries.length := by
  simpa using congrArg length h.shown.views

theorem advance (hle : l.nextSeq ≤ next) :
    Filed segment last firstSeq index { l with nextSeq := next } where
  shown :=
    { views := h.shown.views
      seqs := h.shown.seqs
      ok :=
        { sorted := h.shown.ok.sorted
          within := fun e he => ⟨(h.shown.ok.within e he).1, ((h.shown.ok.within e he).2).trans_le hle⟩
          front := ⟨h.shown.ok.front.1, h.shown.ok.front.2.trans hle⟩ } }
  placed := h.placed
  order := h.order

theorem grow {last' : ℕ} (hlast : last ≤ last')
    (hs : ∀ i ≤ last, segment i <+: segment' i) : Filed segment' last' firstSeq index l where
  shown :=
    { views := by
        have hkept : index.map (entryAt segment') = index.map (entryAt segment) := by
          apply map_congr_left
          intro d hd
          obtain ⟨e, -, he, -⟩ := h.shown.of_mem hd
          rw [he]
          exact entryAt_of_prefix he rfl (hs _ (h.placed d hd))
        exact hkept.trans h.shown.views
      seqs := h.shown.seqs
      ok := h.shown.ok }
  placed := fun d hd => (h.placed d hd).trans hlast
  order := h.order

/-- **An entry that is written into the last segment is shown, and the others stay.** -/
theorem append (hs : ∀ i ≤ last, segment i <+: segment' i) (hseg : d.segmentIdx = last) (hseq : d.seq = l.nextSeq)
    (hnew : entryAt segment' d = some (entry.stored l.nextSeq timestamp)) :
    Filed segment' last firstSeq (index ++ [d]) (l.appendAll [entry] timestamp) where
  shown := h.shown.append (fun x hx e he => entryAt_of_prefix he rfl (hs _ (h.placed x hx))) hseq hnew
  placed := forall_mem_append.2 ⟨h.placed, forall_mem_singleton.2 hseg.le⟩
  order := by
    refine pairwise_append.2 ⟨h.order, pairwise_singleton _ _, fun a ha b hb => ?_⟩
    rw [mem_singleton.1 hb, hseg]
    exact h.placed a ha

/-- The entries below a seq are dropped, and segments in front of those that stay. -/
theorem drop {target cut dropped : ℕ} (hfirst : firstSeq < target)
    (hnext : target ≤ l.nextSeq) (hcut : l.entries.countP (·.seq < target) = cut)
    (hplace : ∀ d ∈ index.drop cut, dropped ≤ d.segmentIdx)
    (hs : ∀ i, dropped ≤ i → segment i <+: segment' (i - dropped)) :
    Filed segment' (last - dropped) target ((index.drop cut).map fun d => { d with segmentIdx := d.segmentIdx - dropped })
      (l.remove (·.seq < target)) := by
  have hsorted : l.Sorted := ⟨h.shown.ok.sorted, fun e he => (h.shown.ok.within e he).2⟩
  have hlog : l.remove (·.seq < target) = { l with entries := l.entries.drop cut } := by
    rw [← hcut, hsorted.drop_below target]
    rfl
  have hrest : ∀ e ∈ l.entries.drop cut, target ≤ e.seq := by
    intro e he
    have hmem : e ∈ (l.remove (·.seq < target)).entries := by
      rw [hlog]
      exact he
    simpa using (mem_filter.1 hmem).2
  have hmem : ∀ d ∈ index.drop cut, d ∈ index := fun d hd => mem_of_mem_drop hd
  rw [hlog]
  refine ⟨h.shown.drop (fun d hd => ⟨rfl, ?_⟩) ?_, fun x hx => ?_, ?_⟩
  · obtain ⟨e, -, he, -⟩ := h.shown.of_mem (hmem d hd)
    rw [he]
    exact entryAt_of_prefix he rfl (hs _ (hplace d hd))
  · exact
      { sorted := h.shown.ok.sorted.drop
        within := fun e he => ⟨hrest e he, (h.shown.ok.within e (mem_of_mem_drop he)).2⟩
        front := ⟨(Nat.zero_le _).trans_lt hfirst, hnext⟩ }
  · obtain ⟨d, hd, rfl⟩ := mem_map.1 hx
    exact Nat.sub_le_sub_right (h.placed d (hmem d hd)) _
  · exact pairwise_map.2 (h.order.drop.imp fun hab => Nat.sub_le_sub_right hab _)

theorem remove_below {target : ℕ} (hzero : target ≤ firstSeq ∨ index = [] ∨ l.entries.countP (·.seq < target) = 0) :
    l.entries.countP (·.seq < target) = 0 ∧ l.remove (·.seq < target) = l := by
  have hcount : l.entries.countP (·.seq < target) = 0 := by
    rcases hzero with hlow | hempty | hzero
    · refine countP_eq_zero.2 fun e he => ?_
      have hge := (h.shown.ok.within e he).1
      simpa using hlow.trans hge
    · have hnone : l.entries = [] := by
        rw [← length_eq_zero_iff, ← h.length_eq, hempty]
        rfl
      rw [hnone]
      rfl
    · exact hzero
  refine ⟨hcount, ?_⟩
  unfold OrderedLog.remove
  rw [filter_eq_self.2 fun e he => ?_]
  simpa using countP_eq_zero.1 hcount e he

theorem countP_below (target : ℕ) : index.countP (·.seq < target) = l.entries.countP (·.seq < target) := by
  refine countP_eq h.shown.views fun d e hd => ?_
  obtain ⟨-, rfl⟩ := entryAt_eq_some.1 hd
  rfl

theorem mark {q : LogMetadata → Bool} {p : StoreEntry → Bool} (hq : ∀ d e, entryAt segment d = some e → q d = p e)
    (hs : ∀ d ∈ index, ∀ e, entryAt segment d = some e → entryAt segment' d = some e) :
    Filed segment' last firstSeq (index.map fun d => if q d then d.bury else d) (l.mark p) := by
  have hseg (d : LogMetadata) : (if q d then d.bury else d).segmentIdx = d.segmentIdx := by
    split <;> rfl
  refine ⟨h.shown.mark (fun d _ e he => hq d e he) fun d hd e he => ⟨hs d hd e he, entryAt_bury (hs d hd e he)⟩, fun x hx => ?_,
    pairwise_map.2 (h.order.imp fun hab => ?_)⟩
  · obtain ⟨d, hd, rfl⟩ := mem_map.1 hx
    rw [hseg]
    exact h.placed d hd
  · rw [hseg, hseg]
    exact hab

theorem any_live (seq : ℕ) : (index.any fun d => d.seq == seq && !d.dead) = decide (0 < l.live (·.seq == seq)) := by
  have hcount : index.countP (fun d => d.seq == seq && !d.dead) = l.live (·.seq == seq) := by
    refine countP_eq h.shown.views fun d e hd => ?_
    obtain ⟨-, rfl⟩ := entryAt_eq_some.1 hd
    rfl
  rw [← hcount, Bool.eq_iff_iff, decide_eq_true_iff, countP_pos_iff, any_eq_true]

theorem bytes : (index.map fun d => d.subjLen + d.payloadLen).sum = (l.entries.map size).sum := by
  have hsize : index.map (fun d => some (d.subjLen + d.payloadLen)) = (l.entries.map size).map some := by
    have hleft : index.map (fun d => some (d.subjLen + d.payloadLen)) =
        (index.map (entryAt segment)).map (Option.map size) := by
      rw [map_map]
      apply map_congr_left
      intro d hd
      obtain ⟨e, -, he, -⟩ := h.shown.of_mem hd
      rw [comp_apply, he, Option.map_some, entryAt_size he]
    rw [hleft, h.shown.views, map_map, map_map]
    rfl
  have hinj : index.map (fun d => d.subjLen + d.payloadLen) = l.entries.map size := by
    apply (map_injective_iff.2 (Option.some_injective ℕ))
    rw [← hsize, map_map]
    rfl
  rw [hinj]

end Filed

end SeqIndex

end Arbitro
