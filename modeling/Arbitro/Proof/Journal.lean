import Arbitro.Lib.Numbered
import Arbitro.Shard.Store

/-!
# What the journal operations do

The operations of both back ends as operations on the list of entries.

* `Journal.OK`: the index is sorted and lies within the bounds; every operation keeps it.
* `read_eq_some_iff`, `forEach_eq`: reading finds exactly the entries there are.
* `tombstoneAt_eq`, `tombstoneStream_eq`, `drain_tolerant`: deleting marks
  exactly the entries asked for.
-/

namespace Arbitro

open StoreEntry List Nat

namespace Journal

variable {j : Journal} {seq : ℕ} {e : StoreEntry} {i : ℕ}

/-- What both back ends rely on. -/
structure OK (j : Journal) : Prop where
  sorted : j.index.Pairwise (·.seq < ·.seq)
  within : ∀ e ∈ j.index, j.firstSeq ≤ e.seq ∧ e.seq < j.nextSeq
  front : 0 < j.firstSeq ∧ j.firstSeq ≤ j.nextSeq

theorem ok_new : ({} : Journal).OK := ⟨Pairwise.nil, nofun, by decide⟩

/-! ## Reading -/

theorem isAt_iff : j.isAt i seq = true ↔ ∃ e, j.index[i]? = some e ∧ e.seq = seq := by
  unfold isAt
  cases j.index[i]? with
  | none => simp
  | some e => simp

theorem OK.pos_inj (h : j.OK) {i k : ℕ} {a b : StoreEntry} (ha : j.index[i]? = some a) (hb : j.index[k]? = some b)
    (hab : a.seq = b.seq) : i = k := by
  obtain ⟨hi, rfl⟩ := List.getElem?_eq_some_iff.1 ha
  obtain ⟨hk, rfl⟩ := List.getElem?_eq_some_iff.1 hb
  rcases lt_trichotomy i k with hlt | heq | hgt
  · have hseq := pairwise_iff_getElem.1 h.sorted i k hi hk hlt
    omega
  · exact heq
  · have hseq := pairwise_iff_getElem.1 h.sorted k i hk hi hgt
    omega

theorem OK.lowerBound_iff (h : j.OK) (he : j.index[i]? = some e) : i < j.lowerBound seq ↔ e.seq < seq := by
  obtain ⟨hi, rfl⟩ := List.getElem?_eq_some_iff.1 he
  unfold lowerBound
  rw [lt_findIdx_iff]
  constructor
  · rintro ⟨_, hall⟩
    simpa using hall i le_rfl
  · refine fun hlt => ⟨hi, fun k hk => ?_⟩
    rcases lt_or_eq_of_le hk with hk | rfl
    · have hseq := pairwise_iff_getElem.1 h.sorted k i (by omega) hi hk
      exact decide_eq_false (by omega)
    · simpa using hlt

theorem OK.lowerBound_eq (h : j.OK) (he : j.index[i]? = some e) : j.lowerBound e.seq = i := by
  have hnot : ¬ i < j.lowerBound e.seq := by
    rw [h.lowerBound_iff he]
    exact Nat.lt_irrefl _
  rcases Nat.lt_or_eq_of_le (Nat.le_of_not_lt hnot) with hlt | heq
  · obtain ⟨hi, hget⟩ := List.getElem?_eq_some_iff.1 he
    have hlen : j.lowerBound e.seq < j.index.length := by omega
    have hseq := pairwise_iff_getElem.1 h.sorted _ i hlen hi hlt
    rw [hget] at hseq
    have hless := (h.lowerBound_iff (getElem?_eq_getElem hlen)).2 hseq
    omega
  · exact heq

theorem OK.seqToIdx_iff (h : j.OK) : j.seqToIdx seq = some i ↔ ∃ e, j.index[i]? = some e ∧ e.seq = seq := by
  unfold seqToIdx
  constructor
  · intro hi
    split at hi
    · cases hi
    split at hi
    · next hat => cases hi; exact isAt_iff.1 hat
    · split at hi
      · next hat => cases hi; exact isAt_iff.1 hat
      · cases hi
  rintro ⟨e, he, rfl⟩
  have hbound := (h.within e (mem_of_getElem? he)).1
  rw [if_neg (by omega)]
  split
  · next hat =>
    obtain ⟨e', he', hseq⟩ := isAt_iff.1 hat
    rw [h.pos_inj he' he hseq]
  · rw [h.lowerBound_eq he, if_pos (isAt_iff.2 ⟨e, he, rfl⟩)]

theorem OK.inj (h : j.OK) {x : StoreEntry} (hx : x ∈ j.index) (he : e ∈ j.index) (hseq : x.seq = e.seq) : x = e :=
  inj_on_of_nodup_map (pairwise_map.2 (h.sorted.imp ne_of_lt)) hx he hseq

/-- **Reading finds exactly the entries there are.** -/
theorem OK.read_eq_some_iff (h : j.OK) : j.read seq = some e ↔ e ∈ j.index ∧ e.seq = seq := by
  unfold read
  rw [Option.bind_eq_some_iff]
  constructor
  · rintro ⟨i, hi, he⟩
    obtain ⟨e', he', hseq⟩ := h.seqToIdx_iff.1 hi
    rw [he] at he'
    cases he'
    exact ⟨mem_of_getElem? he, hseq⟩
  · rintro ⟨he, rfl⟩
    obtain ⟨i, hi⟩ := mem_iff_getElem?.1 he
    exact ⟨i, h.seqToIdx_iff.2 ⟨e, hi, rfl⟩, hi⟩

theorem OK.findLowerBound_eq (h : j.OK) (hne : j.index ≠ []) : j.findLowerBound seq = j.lowerBound seq := by
  unfold findLowerBound
  split
  · next hle =>
    have hhead : j.index[0]? = some (j.index.head hne) := by
      rw [head_eq_getElem, getElem?_eq_getElem]
    have hbound := (h.within _ (mem_of_getElem? hhead)).1
    by_contra hzero
    have hlt := (h.lowerBound_iff hhead).1 (Nat.pos_of_ne_zero (Ne.symm hzero))
    omega
  · split
    · next hat =>
      obtain ⟨e, he, rfl⟩ := isAt_iff.1 hat
      exact (h.lowerBound_eq he).symm
    · rfl

theorem takeWhile_sorted {l : List StoreEntry} (hl : l.Pairwise (·.seq < ·.seq)) :
    l.takeWhile (fun e => e.seq < seq) = l.filter (fun e => e.seq < seq) ∧
      l.dropWhile (fun e => e.seq < seq) = l.filter (fun e => seq ≤ e.seq) := by
  obtain ⟨htake, hdrop⟩ := takeWhile_of_pairwise (p := fun e => decide (e.seq < seq)) (hl.imp fun hlt => by
    simp only [decide_eq_true_eq]
    omega)
  exact ⟨htake, hdrop.trans (filter_congr fun e _ => by rw [← decide_not, decide_eq_decide, not_lt])⟩

theorem lowerBound_eq_findIdx : j.lowerBound seq = j.index.findIdx fun e => !decide (e.seq < seq) := by
  unfold lowerBound
  congr 1
  funext e
  rw [← decide_not]
  exact decide_eq_decide.2 not_lt.symm

theorem OK.take_lowerBound (h : j.OK) : j.index.take (j.lowerBound seq) = j.index.filter (fun e => e.seq < seq) := by
  rw [← (takeWhile_sorted h.sorted).1, takeWhile_eq_take_findIdx_not, lowerBound_eq_findIdx]

theorem OK.drop_lowerBound (h : j.OK) : j.index.drop (j.lowerBound seq) = j.index.filter (fun e => seq ≤ e.seq) := by
  rw [← (takeWhile_sorted h.sorted).2, dropWhile_eq_drop_findIdx_not, lowerBound_eq_findIdx]

/-- **A walk visits the entries of its range.** -/
theorem OK.forEach_eq (h : j.OK) (start stop : ℕ) :
    j.forEach start stop = j.index.filter fun e => start ≤ e.seq && e.seq < stop := by
  unfold forEach
  by_cases hne : j.index = []
  · simp [hne]
  rw [h.findLowerBound_eq hne, h.findLowerBound_eq hne]
  have hstop : j.lowerBound stop ≤ j.index.length := findIdx_le_length
  -- the entries below `stop` are an index of their own
  have hcut : OK { j with index := j.index.take (j.lowerBound stop) } :=
    ⟨h.sorted.take, fun e he => h.within e (mem_of_mem_take he), h.front⟩
  have hlow : lowerBound { j with index := j.index.take (j.lowerBound stop) } start =
      min (j.lowerBound stop) (j.lowerBound start) := findIdx_take
  simp only [min_eq_left hstop]
  rw [min_comm, ← hlow, hcut.drop_lowerBound, h.take_lowerBound, filter_filter]

/-! ## Tombstones -/

end Journal

theorem StoreEntry.kill_of_tombstone {e : StoreEntry} (h : e.tombstone = true) : e.kill = e := by
  have hflags : e.flags ||| 1 = e.flags := by
    apply eq_of_testBit_eq
    intro i
    rw [testBit_or]
    cases i with
    | zero =>
      have hbit : e.flags.testBit 0 = true := h
      rw [hbit]
      rfl
    | succ i => simp [testBit_succ]
  unfold kill
  rw [hflags]

theorem StoreEntry.tombstone_kill {e : StoreEntry} : e.kill.tombstone = true := by
  unfold kill tombstone
  simp

namespace Journal

variable {j : Journal} {seq : ℕ} {e : StoreEntry} {p : StoreEntry → Bool}

/-- Tombstone the entries that meet a condition. -/
def killIf (p : StoreEntry → Bool) (e : StoreEntry) : StoreEntry := if p e then e.kill else e

theorem killIf_seq : (killIf p e).seq = e.seq := by
  unfold killIf
  split <;> rfl

/-- The journal with the entries that meet a condition tombstoned. -/
def killing (j : Journal) (p : StoreEntry → Bool) : Journal := { j with index := j.index.map (killIf p) }

theorem OK.killing (h : j.OK) (p : StoreEntry → Bool) : (j.killing p).OK where
  sorted := by
    show (j.index.map (killIf p)).Pairwise _
    rw [pairwise_map]
    exact h.sorted.imp fun hab => by rw [killIf_seq, killIf_seq]; exact hab
  within := by
    intro x hx
    obtain ⟨e, he, rfl⟩ := mem_map.1 hx
    rw [killIf_seq]
    exact h.within e he
  front := h.front

/-- **`tombstone_at` tombstones the entry with the seq, if there is one.** -/
theorem OK.tombstoneAt_eq (h : j.OK) : (j.tombstoneAt seq).1 = j.killing (fun e => e.seq == seq) := by
  have hidx (i : ℕ) : j.seqToIdx seq = some i ↔ _ := h.seqToIdx_iff
  have hmark := mark_key StoreEntry.seq (fun _ => kill_of_tombstone) hidx
  refine Eq.trans ?_ (congrArg (fun r => ({ j with index := r.1 } : Journal)) hmark)
  unfold tombstoneAt
  cases j.seqToIdx seq with
  | none => rfl
  | some i => dsimp only; split <;> rfl

theorem killing_killing {p q : StoreEntry → Bool} (hq : ∀ e, q (killIf p e) = q e) :
    (j.killing p).killing q = j.killing fun e => p e || q e := by
  unfold killing
  simp only [map_map]
  congr 1
  apply map_congr_left
  intro e _
  show killIf q (killIf p e) = killIf (fun e => p e || q e) e
  rw [killIf, hq]
  unfold killIf
  cases hp : p e with
  | false => simp [hp]
  | true =>
    cases q e with
    | false => simp [hp]
    | true => simp [hp, kill_of_tombstone tombstone_kill]

theorem OK.tombstoneAll_eq {seqs : List ℕ} {j : Journal} (h : j.OK) :
    j.tombstoneAll seqs = j.killing (fun e => seqs.contains e.seq) := by
  induction seqs generalizing j with
  | nil =>
    unfold tombstoneAll Journal.killing
    have hid : j.index.map (killIf fun e => ([] : List ℕ).contains e.seq) = j.index := by
      conv_rhs => rw [← map_id j.index]
      exact map_congr_left fun e _ => by simp [killIf]
    simp only [foldl_nil, hid]
  | cons seq seqs ih =>
    have hrest := ih (h.killing fun e => e.seq == seq)
    have hone : j.tombstoneAll (seq :: seqs) = (j.killing fun e => e.seq == seq).tombstoneAll seqs := by
      rw [← h.tombstoneAt_eq]
      rfl
    rw [hone, hrest, killing_killing fun e => by rw [killIf_seq]]
    simp only [contains_cons]

theorem OK.tombstone_filter (h : j.OK) :
    j.tombstoneAll ((j.index.filter p).map (·.seq)) = j.killing p := by
  rw [h.tombstoneAll_eq]
  unfold Journal.killing
  congr 1
  apply map_congr_left
  intro e he
  unfold killIf
  have hmem : ((j.index.filter p).map (·.seq)).contains e.seq = p e := by
    rw [Bool.eq_iff_iff, contains_iff_mem, mem_map]
    constructor
    · rintro ⟨x, hx, hseq⟩
      obtain ⟨hx, hp⟩ := mem_filter.1 hx
      rwa [← h.inj hx he hseq]
    · intro hp
      exact ⟨e, mem_filter.2 ⟨he, hp⟩, rfl⟩
  simp only [hmem]

/-- Entries that are tombstoned already may be left out. -/
theorem killing_live (j : Journal) (p : StoreEntry → Bool) :
    (j.killing fun e => p e && !e.tombstone) = j.killing p := by
  unfold killing
  congr 1
  apply map_congr_left
  intro e _
  unfold killIf
  cases hp : p e with
  | false => simp [hp]
  | true =>
    cases hdead : e.tombstone with
    | false => simp [hp, hdead]
    | true => simp [hp, hdead, kill_of_tombstone hdead]

/-- **`tombstone_stream` tombstones the entries of the stream**, on both back ends. -/
theorem OK.tombstoneStream_eq (h : j.OK) {backend : Backend} {stream : StreamId} :
    j.tombstoneStream backend stream = j.killing (fun e => e.streamId == stream) := by
  unfold tombstoneStream
  cases backend with
  | memory => exact killing_live j _
  | tolerant =>
    simp only [h.tombstone_filter]
    exact killing_live j _

theorem OK.drain_tolerant (h : j.OK) {stream : StreamId} {subject : Bytes} :
    j.drain .tolerant stream subject = j.killing (drained stream subject) := by
  unfold drain
  simp only [h.tombstone_filter]
  have hcomm : (fun e : StoreEntry => !e.tombstone && drained stream subject e) =
      fun e => drained stream subject e && !e.tombstone := by
    funext e
    exact Bool.and_comm _ _
  rw [hcomm, killing_live]

/-! ## Operations keep the index in order -/

theorem OK.append (h : j.OK) (entry : EntryRef) (timestamp : ℕ) : (j.append entry timestamp).OK where
  sorted := by
    show (j.index ++ [_]).Pairwise _
    rw [pairwise_append]
    refine ⟨h.sorted, pairwise_singleton _ _, ?_⟩
    intro a ha b hb
    rw [mem_singleton.1 hb]
    exact (h.within a ha).2
  within := by
    have hfront := h.front
    refine forall_mem_append.2 ⟨fun e he => ⟨(h.within e he).1, lt_succ_of_lt (h.within e he).2⟩, forall_mem_singleton.2 ?_⟩
    show j.firstSeq ≤ j.nextSeq ∧ j.nextSeq < j.nextSeq + 1
    omega
  front := by
    have hfront := h.front
    show 0 < j.firstSeq ∧ j.firstSeq ≤ j.nextSeq + 1
    omega

theorem OK.drain (h : j.OK) (backend : Backend) (stream : StreamId) (subject : Bytes) :
    (j.drain backend stream subject).OK := by
  cases backend with
  | tolerant =>
    rw [h.drain_tolerant]
    exact h.killing _
  | memory =>
    unfold Journal.drain
    have hfront := h.front
    have hsorted : (j.index.filter fun e => !drained stream subject e).Pairwise (·.seq < ·.seq) := h.sorted.filter _
    have hin : ∀ e ∈ j.index.filter (fun e => !drained stream subject e), j.firstSeq ≤ e.seq ∧ e.seq < j.nextSeq :=
      fun e he => h.within e (mem_filter.1 he).1
    cases hkept : j.index.filter (fun e => !drained stream subject e) with
    | nil =>
      refine ⟨Pairwise.nil, nofun, ?_⟩
      show 0 < j.nextSeq ∧ j.nextSeq ≤ j.nextSeq
      omega
    | cons x l =>
      rw [hkept] at hsorted hin
      refine ⟨hsorted, ?_, ?_⟩
      · intro e he
        show x.seq ≤ e.seq ∧ e.seq < j.nextSeq
        have hbound := hin e he
        rcases mem_cons.1 he with rfl | he
        · omega
        · have hless := (pairwise_cons.1 hsorted).1 e he
          omega
      · have hx := hin x mem_cons_self
        show 0 < x.seq ∧ x.seq ≤ j.nextSeq
        omega

end Journal

end Arbitro
