import Arbitro.Proof.Turn

/-!
# What a flush books

After the flush three books are brought up to date: the shared counters, the
drain's own book with its suppression set, and the command task's pendings, by a
report. Each delivery should be booked exactly when its frame was accepted.
The test the source uses asks for the connection's first frame instead of the
delivery's own, and a report that finds the ring full is dropped.

* `notifyGroups_spec`: the reports tell of the recorded deliveries, each once.
* `recordDeliveries_eq` and what follows it: what a recorded delivery does to the books.
* `booked_iff`: when exactly the books and the reports agree with what went out.
* `notified_iff`: the reports partition what was recorded, and nothing recorded has to
  be taken back exactly when every report finds room.
-/

namespace Arbitro

open List

/-! ## The test, and what passes it -/

section Books

variable {bindings : List ActiveBinding} {flushed : Flushed} {ds : List PendingNotify} {d : PendingNotify}
  {room : ℕ → Bool} {groups : List (ℕ × List PendingNotify)} {g : ℕ × List PendingNotify}

theorem mem_recorded : d ∈ recorded flushed ds ↔ d ∈ ds ∧ frameOkFor flushed d.conn = true := mem_filter

theorem frameOkFor_iff {conn : ConnectionId} : frameOkFor flushed conn = true ↔
    ∃ f, flushed.find? (·.1.connectionId == conn) = some f ∧ f.2 = .ok := by
  unfold frameOkFor
  cases flushed.find? (·.1.connectionId == conn) with
  | none => simp
  | some f => simp

/-! ## The reports -/

/-- Groups that tell of the recorded deliveries, each under the index of its binding. -/
structure GroupsOK (recorded : List PendingNotify) (groups : List (ℕ × List PendingNotify)) : Prop where
  members : ∀ g ∈ groups, g.2 ≠ [] ∧ ∀ d ∈ g.2, d.bindingIdx = g.1 ∧ d ∈ recorded
  complete : ∀ d ∈ recorded, ∃ g ∈ groups, g.1 = d.bindingIdx ∧ d ∈ g.2
  once : groups.Pairwise (·.1 ≠ ·.1)

variable {accepted : List PendingNotify}

theorem sortedGroups_own (hg : g ∈ sortedGroups bindings accepted) :
    g.1 < bindings.length ∧ g.2 ≠ [] ∧ g.2 = accepted.filter (·.bindingIdx == g.1) := by
  obtain ⟨idx, hidx, hpick⟩ := mem_filterMap.1 hg
  simp only [CountingSort.bucket_eq] at hpick
  split at hpick
  · cases hpick
  · next hne =>
    cases hpick
    exact ⟨mem_range.1 hidx, fun h => hne (isEmpty_iff.2 h), rfl⟩

theorem sortedGroups_spec (hidx : ∀ d ∈ accepted, d.bindingIdx < bindings.length) :
    GroupsOK accepted (sortedGroups bindings accepted) where
  members g hg := by
    obtain ⟨-, hne, heq⟩ := sortedGroups_own hg
    refine ⟨hne, fun d hd => ?_⟩
    rw [heq] at hd
    obtain ⟨hdl, hdi⟩ := mem_filter.1 hd
    exact ⟨by simpa using hdi, hdl⟩
  complete d hd := by
    have hmem : d ∈ accepted.filter (·.bindingIdx == d.bindingIdx) := mem_filter.2 ⟨hd, by simp⟩
    refine ⟨(d.bindingIdx, accepted.filter (·.bindingIdx == d.bindingIdx)), mem_filterMap.2 ?_, rfl, hmem⟩
    refine ⟨d.bindingIdx, mem_range.2 (hidx d hd), ?_⟩
    rw [CountingSort.bucket_eq, if_neg fun hnil => by rw [isEmpty_iff.1 hnil] at hmem; cases hmem]
  once := by
    refine Pairwise.filterMap _ ?_ (nodup_range (n := bindings.length))
    intro i j hij g hg g' hg'
    dsimp only at hg hg'
    split at hg <;> cases hg
    split at hg' <;> cases hg'
    exact hij

theorem filterMap_range_single {α : Type} {x : α} {i : ℕ} : ∀ n,
    (range n).filterMap (fun j => if j = i then some x else none) = if i < n then [x] else [] := by
  intro n
  induction n with
  | zero => rfl
  | succ n ih =>
    rw [range_succ, filterMap_append, ih]
    rcases Nat.lt_trichotomy i n with h | h | h
    · simp [h, show i < n + 1 by omega, show ¬ n = i by omega]
    · simp [h]
    · simp [show ¬ i < n by omega, show ¬ i < n + 1 by omega, show ¬ n = i by omega]

/-- **Both paths make the groups of the counting sort.** -/
theorem notifyGroups_sorted (hidx : ∀ d ∈ ds, d.bindingIdx < bindings.length) :
    notifyGroups bindings flushed ds = sortedGroups bindings (recorded flushed ds) := by
  unfold notifyGroups sortedGroups
  simp only [CountingSort.bucket_eq]
  cases ds with
  | nil => rfl
  | cons first rest =>
    simp only
    split
    case isFalse => rfl
    case isTrue hfast =>
    simp only [Bool.and_eq_true, all_eq_true, beq_iff_eq] at hfast
    obtain ⟨hone, hok⟩ := hfast
    have hrec : recorded flushed (first :: rest) = first :: rest := filter_eq_self.2 hok
    have hpick : ∀ j, (if ((first :: rest).filter (·.bindingIdx == j)).isEmpty then none
        else some (j, (first :: rest).filter (·.bindingIdx == j))) =
        if j = first.bindingIdx then some (first.bindingIdx, first :: rest) else none := by
      intro j
      by_cases hj : j = first.bindingIdx
      · have hall : (first :: rest).filter (·.bindingIdx == j) = first :: rest :=
          filter_eq_self.2 fun d hd => by rw [hj, hone d hd]; exact beq_self_eq_true _
        rw [hall, if_neg (by simp), if_pos hj, hj]
      · have hnone : (first :: rest).filter (·.bindingIdx == j) = [] :=
          filter_eq_nil_iff.2 fun d hd => by rw [hone d hd]; simpa using Ne.symm hj
        rw [hnone, if_neg hj]
        rfl
    simp only [hrec, hpick]
    rw [filterMap_range_single, if_pos (hidx first mem_cons_self)]

/-- **The reports tell of the recorded deliveries, each once**, on either path. -/
theorem notifyGroups_spec (hidx : ∀ d ∈ ds, d.bindingIdx < bindings.length) :
    GroupsOK (recorded flushed ds) (notifyGroups bindings flushed ds) := by
  rw [notifyGroups_sorted hidx]
  exact sortedGroups_spec fun d hd => hidx d (mem_recorded.1 hd).1

theorem mem_pushed : g ∈ pushed room groups ↔ ∃ i, groups[i]? = some g ∧ room i = true := by
  constructor
  · intro h
    obtain ⟨⟨g', i⟩, hgi, rfl⟩ := mem_map.1 h
    obtain ⟨hmem, hroom⟩ := mem_filter.1 hgi
    exact ⟨i, mem_zipIdx_iff_getElem?.1 hmem, hroom⟩
  · rintro ⟨i, hi, hroom⟩
    exact mem_map.2 ⟨(g, i), mem_filter.2 ⟨mem_zipIdx_iff_getElem?.2 hi, hroom⟩, rfl⟩

/-- A group is reported exactly when its own report finds room: no other group has its index. -/
theorem GroupsOK.reported_iff (h : GroupsOK accepted groups) {i : ℕ} (hi : groups[i]? = some g)
    (hd : d ∈ g.2) : (∃ g' ∈ pushed room groups, g'.1 = d.bindingIdx) ↔ room i = true := by
  have hidx := ((h.members g (mem_of_getElem? hi)).2 d hd).1
  constructor
  · rintro ⟨g', hg', hidx'⟩
    obtain ⟨j, hj, hroom⟩ := mem_pushed.1 hg'
    obtain ⟨hilt, rfl⟩ := List.getElem?_eq_some_iff.1 hi
    obtain ⟨hjlt, rfl⟩ := List.getElem?_eq_some_iff.1 hj
    have hsame : groups[i].1 = groups[j].1 := by rw [hidx', hidx]
    have hij : i = j := by
      rcases Nat.lt_trichotomy i j with hlt | heq | hlt
      · exact absurd hsame (pairwise_iff_getElem.1 h.once i j hilt hjlt hlt)
      · exact heq
      · exact absurd hsame.symm (pairwise_iff_getElem.1 h.once j i hjlt hilt hlt)
    rw [hij]
    exact hroom
  · exact fun hroom => ⟨g, mem_pushed.2 ⟨i, hi, hroom⟩, hidx.symm⟩

/-- The notification tells a group's binding, and its deliveries in their order. -/
def Tells (bindings : List ActiveBinding) (g : ℕ × List PendingNotify) (n : DrainNotification) : Prop :=
  ∃ b, bindings[g.1]? = some b ∧
    n = .delivered b.bindingId b.consumerId b.queueId (g.2.map fun d => ⟨d.seq, d.subjectHash⟩)

theorem notified_told (hidx : ∀ g ∈ groups, g.1 < bindings.length) :
    Forall₂ (Tells bindings) (pushed room groups) ((pushed room groups).filterMap (deliveredTo bindings)) := by
  have hall : ∀ g ∈ pushed room groups, g.1 < bindings.length := by
    intro g hg
    obtain ⟨i, hi, -⟩ := mem_pushed.1 hg
    exact hidx g (mem_of_getElem? hi)
  generalize pushed room groups = l at hall
  induction l with
  | nil => exact .nil
  | cons g l ih =>
    obtain ⟨b, hb⟩ : ∃ b, bindings[g.1]? = some b := ⟨_, getElem?_eq_getElem (hall g mem_cons_self)⟩
    have hg : deliveredTo bindings g =
        some (.delivered b.bindingId b.consumerId b.queueId (g.2.map fun d => ⟨d.seq, d.subjectHash⟩)) := by
      rw [deliveredTo, hb]
      rfl
    rw [filterMap_cons_some hg]
    exact .cons ⟨_, hb, rfl⟩ (ih fun g hg => hall g (mem_cons_of_mem _ hg))

end Books

/-! ## What is recorded -/

section Recorded

variable {flushed : Flushed} {ds : List PendingNotify} {book : SharedCounters × Slots} {l : List PendingNotify}
  {cs : ConsumerSubjects}

theorem mem_of_countP_eq {α : Type} {l l' : List α} {p : α → Bool} {a : α} (hl : l <+ l') (hcount : l.countP p = l'.countP p)
    (ha : a ∈ l') (hp : p a = true) : a ∈ l := by
  have heq := (hl.filter p).eq_of_length (by rwa [← countP_eq_length_filter, ← countP_eq_length_filter])
  have hmem := mem_filter.2 ⟨ha, hp⟩
  rw [← heq] at hmem
  exact (mem_filter.1 hmem).1

theorem recordDeliveries_eq :
    recordDeliveries flushed ds book = (recorded flushed ds).foldl recordOne book := by
  unfold recordDeliveries recorded
  rw [foldl_filter]

theorem count_foldl_recordOne {p : PendingNotify → Bool} (count : SharedCounters × Slots → ℕ)
    (h : ∀ book d, count (recordOne book d) = count book + if p d then 1 else 0) :
    count (l.foldl recordOne book) = count book + l.countP p := by
  induction l generalizing book with
  | nil => rfl
  | cons d l ih => rw [foldl_cons, ih, h, countP_cons, add_assoc, add_comm (l.countP p)]

theorem consumer_foldl_recordOne {c : ConsumerId} :
    (l.foldl recordOne book).1.consumer c = book.1.consumer c + l.countP (·.consumerId == c) := by
  refine count_foldl_recordOne (·.1.consumer c) fun book d => ?_
  by_cases h : d.consumerId = c
  · subst h; simp [recordOne, SharedCounters.incInflight]
  · simp [recordOne, SharedCounters.incInflight, h, Ne.symm h]

theorem queue_foldl_recordOne {q : QueueId} :
    (l.foldl recordOne book).1.queue q = book.1.queue q + l.countP (·.queueId == q) := by
  refine count_foldl_recordOne (·.1.queue q) fun book d => ?_
  by_cases h : d.queueId = q
  · subst h; simp [recordOne, SharedCounters.incInflight]
  · simp [recordOne, SharedCounters.incInflight, h, Ne.symm h]

theorem ConsumerSubjects.get_recorded {seq : ℕ} (h h' : SubjectHash) :
    ((cs.inc h).suppress seq).get h' = cs.get h' + if h = h' then 1 else 0 := by
  have hinc : (cs.inc h).get h' = cs.get h' + if h = h' then 1 else 0 := by
    unfold get inc
    by_cases heq : h' = h
    · subst heq; simp; rfl
    · simp [heq, Ne.symm heq]
  unfold suppress
  split
  · exact hinc
  · exact hinc

theorem Slots.get_foldl_recordOne {k : ConsumerId} (h : SubjectHash)
    : (l.foldl recordOne book).2.get k h = book.2.get k h + l.countP fun n =>
    n.consumerId == k && n.subjectHash == h := by
  refine count_foldl_recordOne (·.2.get k h) fun book d => ?_
  unfold recordOne Slots.modify Slots.get
  simp only [Function.update_apply]
  by_cases hk : k = d.consumerId
  · subst hk
    rw [if_pos rfl, Option.map_some, Option.getD_some, ConsumerSubjects.get_recorded]
    cases book.2 d.consumerId with
    | none => simp; rfl
    | some cs => simp
  · simp [hk, Ne.symm hk]

theorem ConsumerSubjects.suppress_below (hroom : cs.suppressed.card < suppressCap) (seq : ℕ) :
    (cs.suppress seq).suppressed.card ≤ cs.suppressed.card + 1 ∧
      ∀ s, (cs.suppress seq).isSuppressed s = true ↔ cs.isSuppressed s = true ∨ s = seq := by
  unfold suppress
  split
  case isTrue hle =>
    refine ⟨Nat.le_succ _, fun s => ⟨.inl, ?_⟩⟩
    rintro (h | rfl)
    · exact h
    · simp [isSuppressed, hle]
  case isFalse =>
    simp only [Nat.not_le.2 hroom, if_false, isSuppressed]
    refine ⟨Finset.card_insert_le _ _, fun s => ?_⟩
    simp only [decide_eq_true_eq, Finset.mem_insert]
    tauto

/-- How many seqs are in the suppression set of a consumer. -/
def Slots.width (slots : Slots) (k : ConsumerId) : ℕ := ((slots k).map (·.suppressed.card)).getD 0

/-- Below its cap the suppression set gets the seqs of the booked deliveries and no others. -/
theorem Slots.isSuppressed_foldl_recordOne (k : ConsumerId) {seq : ℕ} (hseq : 0 < seq) (l : List PendingNotify)
    (book : SharedCounters × Slots) (hroom : book.2.width k + l.countP (·.consumerId == k) ≤ suppressCap) :
    (l.foldl recordOne book).2.isSuppressed k seq = true ↔
      book.2.isSuppressed k seq = true ∨ ∃ d ∈ l, d.consumerId = k ∧ d.seq = seq := by
  induction l generalizing book with
  | nil => simp
  | cons d l ih =>
    rw [countP_cons] at hroom
    have hone : (recordOne book d).2.width k + l.countP (·.consumerId == k) ≤ suppressCap ∧
        ((recordOne book d).2.isSuppressed k seq = true ↔
          book.2.isSuppressed k seq = true ∨ d.consumerId = k ∧ d.seq = seq) := by
      by_cases hk : k = d.consumerId
      · subst hk
        obtain ⟨cs, hcs⟩ : ∃ cs, (book.2 d.consumerId).getD .empty = cs := ⟨_, rfl⟩
        have hslot : (recordOne book d).2 d.consumerId = some ((cs.inc d.subjectHash).suppress d.seq) := by
          rw [← hcs]
          exact Function.update_self ..
        -- a slot that is made now suppresses nothing that is a seq
        have hold : book.2.width d.consumerId = cs.suppressed.card ∧
            (book.2.isSuppressed d.consumerId seq = true ↔ cs.isSuppressed seq = true) := by
          unfold width isSuppressed
          rw [← hcs]
          cases book.2 d.consumerId with
          | none => simp [ConsumerSubjects.empty, ConsumerSubjects.isSuppressed, hseq.ne']
          | some cs => simp
        simp only [hold.1, beq_self_eq_true, if_true] at hroom
        obtain ⟨hle, hiff⟩ := ConsumerSubjects.suppress_below
          (show (cs.inc d.subjectHash).suppressed.card < suppressCap by
            exact Nat.lt_of_lt_of_le (Nat.lt_succ_self cs.suppressed.card) (by omega)) d.seq
        have hwidth : (cs.inc d.subjectHash).suppressed.card = cs.suppressed.card := rfl
        rw [hold.2, width, isSuppressed, hslot]
        refine ⟨?_, (hiff seq).trans (or_congr Iff.rfl (by simp [eq_comm]))⟩
        simp only [Option.map_some, Option.getD_some]
        omega
      · have hslot : (recordOne book d).2 k = book.2 k := Function.update_of_ne hk _ _
        rw [width, isSuppressed, hslot]
        simp only [Ne.symm hk, beq_iff_eq, if_false, false_and, or_false] at hroom ⊢
        exact ⟨hroom, Iff.rfl⟩
    rw [foldl_cons, ih _ hone.1, hone.2]
    simp only [mem_cons, exists_eq_or_imp]
    tauto

end Recorded

/-! ## The books and what went out -/

namespace CycleResult

/-- The frame of its own connection and stream that carries the delivery was
accepted. -/
def Accepted (r : CycleResult) (d : PendingNotify) : Prop := Sent r.flushed d.conn d.stream d.consumerId d.seq

instance (r : CycleResult) (d : PendingNotify) : Decidable (r.Accepted d) := by
  unfold Accepted Sent
  infer_instance

/-- The deliveries whose own frame was accepted. -/
def accepted (r : CycleResult) : List PendingNotify := r.read.walk.deliveries.filter fun d => r.Accepted d

/-- What the cycle makes of the books, and the reports it sends. -/
def booked (bindings : List ActiveBinding) (room : ℕ → Bool) (book : SharedCounters × Slots) (r : CycleResult) :
    (SharedCounters × Slots) × List DrainNotification :=
  recordAndNotify bindings room r.flushed r.read.walk.deliveries book

/-- A report that was sent tells of the delivery, among the others of its binding. -/
def Reported (bindings : List ActiveBinding) (room : ℕ → Bool) (book : SharedCounters × Slots) (r : CycleResult)
    (d : PendingNotify) : Prop :=
  ∃ group, d ∈ group ∧ (d.bindingIdx, group) ∈ pushed room (notifyGroups bindings r.flushed r.read.walk.deliveries) ∧
    ∃ n ∈ (r.booked bindings room book).2, Tells bindings (d.bindingIdx, group) n

/-- **The books agree with what went out**: every delivery whose own frame was accepted takes one
credit of its consumer, queue and subject, and no other takes any; its seq is suppressed, up to
the cap of the set; and it is reported. -/
structure Booked (bindings : List ActiveBinding) (room : ℕ → Bool) (book : SharedCounters × Slots) (r : CycleResult) :
    Prop where
  consumer : ∀ k, (r.booked bindings room book).1.1.consumer k =
    book.1.consumer k + r.accepted.countP (·.consumerId == k)
  queue : ∀ q, (r.booked bindings room book).1.1.queue q = book.1.queue q + r.accepted.countP (·.queueId == q)
  subject : ∀ k h, (r.booked bindings room book).1.2.get k h =
    book.2.get k h + r.accepted.countP fun d => d.consumerId == k && d.subjectHash == h
  suppressed : ∀ k, book.2.width k + r.accepted.countP (·.consumerId == k) ≤ suppressCap → ∀ seq > 0,
    ((r.booked bindings room book).1.2.isSuppressed k seq = true ↔
      book.2.isSuppressed k seq = true ∨ ∃ d ∈ r.accepted, d.consumerId = k ∧ d.seq = seq)
  reported : ∀ d ∈ r.read.walk.deliveries, r.Reported bindings room book d ↔ r.Accepted d

/-- The first frame of its connection fared like the frame that carries the delivery. -/
def FirstFrameAgrees (r : CycleResult) (d : PendingNotify) : Prop :=
  ∀ f, r.flushed.find? (·.1.connectionId == d.conn) = some f → (f.2 = .ok ↔ r.Accepted d)

variable {r : CycleResult} {d : PendingNotify}

theorem Accepted.exists_first (h : r.Accepted d) : ∃ f, r.flushed.find? (·.1.connectionId == d.conn) = some f := by
  obtain ⟨f, hf, -, hconn, -⟩ := h
  cases hfind : r.flushed.find? (·.1.connectionId == d.conn) with
  | none =>
    have := find?_eq_none.1 hfind f hf
    simp [hconn] at this
  | some f' => exact ⟨f', rfl⟩

/-- The test answers for the delivery exactly when the two frames fared alike. -/
theorem frameOkFor_iff_accepted : (frameOkFor r.flushed d.conn = true ↔ r.Accepted d) ↔ r.FirstFrameAgrees d := by
  rw [frameOkFor_iff]
  constructor
  · intro h f hf
    rw [← h]
    constructor
    · intro hok; exact ⟨f, hf, hok⟩
    · rintro ⟨f', hf', hok⟩
      rw [hf] at hf'
      cases hf'
      exact hok
  · intro h
    constructor
    · rintro ⟨f, hf, hok⟩; exact (h f hf).1 hok
    · intro hacc
      obtain ⟨f, hf⟩ := hacc.exists_first
      exact ⟨f, hf, (h f hf).2 hacc⟩

end CycleResult

section Turn

variable {wh : WireHash} {cfg : DrainConfig} {snaps : ℕ → DrainSnapshot} {m : Memory} {c : Cycle} {r : CycleResult}

theorem delivery_binding (hr : m.cycle wh cfg snaps c = some r) {d : PendingNotify} (hd : d ∈ r.read.walk.deliveries) :
    ∃ b, (snaps c.snapId).bindings[d.bindingIdx]? = some b ∧ b.fireAndForget = false := by
  rw [(cycle_log hr).1] at hd
  obtain ⟨x, hx, hxd⟩ := mem_filterMap.1 hd
  obtain ⟨-, hp⟩ := m.copies_passed c hx
  unfold Copy.delivery at hxd
  split at hxd
  · cases hxd
  · next hack =>
    cases hxd
    exact ⟨x.binding, hp.binding, by simpa using hack⟩

theorem notifyGroups_of_cycle (hr : m.cycle wh cfg snaps c = some r) :
    GroupsOK (recorded r.flushed r.read.walk.deliveries)
        (notifyGroups (snaps c.snapId).bindings r.flushed r.read.walk.deliveries) ∧
      notifyGroups (snaps c.snapId).bindings r.flushed r.read.walk.deliveries =
        sortedGroups (snaps c.snapId).bindings (recorded r.flushed r.read.walk.deliveries) := by
  have hidx : ∀ d ∈ r.read.walk.deliveries, d.bindingIdx < (snaps c.snapId).bindings.length := by
    intro d hd
    obtain ⟨b, hb, -⟩ := delivery_binding hr hd
    exact (List.getElem?_eq_some_iff.1 hb).1
  exact ⟨notifyGroups_spec hidx, notifyGroups_sorted hidx⟩

/-- Every group that finds room is told under its binding. -/
theorem told_of_cycle (hr : m.cycle wh cfg snaps c = some r) (room : ℕ → Bool) (book : SharedCounters × Slots) :
    Forall₂ (Tells (snaps c.snapId).bindings)
      (pushed room (notifyGroups (snaps c.snapId).bindings r.flushed r.read.walk.deliveries))
      (r.booked (snaps c.snapId).bindings room book).2 :=
  notified_told fun _ hg => (sortedGroups_own ((notifyGroups_of_cycle hr).2 ▸ hg)).1

end Turn

/-! ## Reports that are dropped -/

section Reports

/-- Was the report that tells of the delivery put into the ring? -/
def queued (room : ℕ → Bool) (groups : List (ℕ × List PendingNotify)) (d : PendingNotify) : Bool :=
  (pushed room groups).any (·.1 == d.bindingIdx)

/-- **The reports partition the accepted deliveries**: one report for each binding that has
any, with all of its own and in their order, and what is sent says so for each that finds room;
one that finds none leaves no trace in the books. -/
structure Notified (bindings : List ActiveBinding) (room : ℕ → Bool) (flushed : Flushed) (ds : List PendingNotify)
    (book : SharedCounters × Slots) : Prop where
  own : ∀ g ∈ notifyGroups bindings flushed ds, g.2 ≠ [] ∧ g.2 = (recorded flushed ds).filter (·.bindingIdx == g.1)
  complete : ∀ d ∈ recorded flushed ds, ∃ g ∈ notifyGroups bindings flushed ds, d ∈ g.2
  once : (notifyGroups bindings flushed ds).Pairwise (·.1 ≠ ·.1)
  paths : notifyGroups bindings flushed ds = sortedGroups bindings (recorded flushed ds)
  told : Forall₂ (Tells bindings) (pushed room (notifyGroups bindings flushed ds))
    (recordAndNotify bindings room flushed ds book).2
  undone : (recordAndNotify bindings room flushed ds book).1 =
    ((recorded flushed ds).filter (queued room (notifyGroups bindings flushed ds))).foldl recordOne book

/-- **When nothing has to be taken back**: exactly when every report finds room. -/
theorem notified_iff {wh : WireHash} {cfg : DrainConfig} {snaps : ℕ → DrainSnapshot} {m : Memory} {c : Cycle}
    {r : CycleResult} (hr : m.cycle wh cfg snaps c = some r) (room : ℕ → Bool) (book : SharedCounters × Slots) :
    Notified (snaps c.snapId).bindings room r.flushed r.read.walk.deliveries book ↔
      ∀ i < (notifyGroups (snaps c.snapId).bindings r.flushed r.read.walk.deliveries).length, room i = true := by
  obtain ⟨hok, hsorted⟩ := notifyGroups_of_cycle hr
  set ds := r.read.walk.deliveries
  set groups := notifyGroups (snaps c.snapId).bindings r.flushed ds with hgroups
  have hqueued : ∀ d, queued room groups d = true ↔ ∃ g ∈ pushed room groups, g.1 = d.bindingIdx := by
    intro d
    unfold queued
    rw [any_eq_true]
    simp only [beq_iff_eq]
  constructor
  · intro h i hi
    by_contra hroom
    obtain ⟨hne, hmem⟩ := hok.members groups[i] (getElem_mem hi)
    obtain ⟨d, hd⟩ := exists_mem_of_ne_nil _ hne
    -- a member of the dropped group keeps its credit, which it should not
    have hcount := congrArg (fun b => b.1.consumer d.consumerId) h.undone
    simp only [recordAndNotify, recordDeliveries_eq, consumer_foldl_recordOne] at hcount
    have hdrop : queued room groups d = false := by
      rw [Bool.eq_false_iff, ne_eq, hqueued, hok.reported_iff (getElem?_eq_getElem hi) hd]
      exact hroom
    have hkept := mem_of_countP_eq filter_sublist (Nat.add_left_cancel hcount).symm (hmem d hd).2 (beq_self_eq_true _)
    rw [mem_filter, hdrop] at hkept
    exact Bool.false_ne_true hkept.2
  · intro hroom
    have hall : ∀ d ∈ recorded r.flushed ds, queued room groups d = true := by
      intro d hd
      obtain ⟨g, hg, hidx, -⟩ := hok.complete d hd
      obtain ⟨i, hi, rfl⟩ := getElem_of_mem hg
      exact (hqueued d).2 ⟨_, mem_pushed.2 ⟨i, getElem?_eq_getElem hi, hroom i hi⟩, hidx⟩
    have hown : ∀ g ∈ groups, _ := fun g hg => sortedGroups_own (hsorted ▸ hg)
    refine ⟨fun g hg => (hown g hg).2, fun d hd => ?_, hok.once, hsorted, told_of_cycle hr room book, ?_⟩
    · obtain ⟨g, hg, -, hdg⟩ := hok.complete d hd
      exact ⟨g, hg, hdg⟩
    · rw [filter_eq_self.2 hall]
      exact recordDeliveries_eq

end Reports

/-! ## Two streams on one connection -/

namespace TwoStreams

/-- On connection 7, consumer 1 listens to `a.*` on stream 1, and consumer 2 on stream 2. -/
def binding (k : ℕ) : ActiveBinding := ⟨k, 7, k, k, 0, k, k, 0, 10, false, 0, 0⟩

def table (k : ℕ) : MatchTable := MatchTable.new.addPattern [97, 46, 42] ⟨k, 0, k, 7, none⟩

def snaps : ℕ → DrainSnapshot :=
  fun _ => .rebuild [binding 1, binding 2] [none, some (table 1), some (table 2)] ∅

/-- One entry with subject `a.x` in each stream. -/
def entry (seq : ℕ) : StoreEntry := ⟨seq, seq, 0, [97, 46, 120], [], 0⟩

def store : StoreView := ⟨[entry 1, entry 2], 2, by simp [entry], by simp [entry]⟩

def cfg : DrainConfig := .default

def wh : WireHash := fun _ => 0

/-- Every counter is free; the writer takes the first `n` frames. -/
def cycle (n : ℕ) : Cycle :=
  ⟨0, fun _ => none, 0, true, store, 0, fun _ => ⟨true, fun _ => ⟨fun _ => false, fun _ => 0, fun _ => false⟩⟩,
    fun i => ⟨false, decide (i < n)⟩⟩

/-- Nothing was delivered before. -/
def book : SharedCounters × Slots := ({}, fun _ => none)

/-- The delivery of the entry of stream 2. -/
def second : PendingNotify := ⟨7, 2, 1, 2, 0, 2, 0⟩

/-- **A report that finds the ring full.** Both frames are accepted, the report on the second
binding finds no room: its delivery keeps its credit and stays suppressed. -/
theorem dropped_report_kept : ∃ r, ({} : Memory).cycle wh cfg snaps (cycle 2) = some r ∧
    (recordAndNotify (snaps 0).bindings (· == 0) r.flushed r.read.walk.deliveries book).1.1.consumer 2 = 1 ∧
    (recordAndNotify (snaps 0).bindings (· == 0) r.flushed r.read.walk.deliveries book).1.2.isSuppressed 2 2 = true ∧
    (recordAndNotify (snaps 0).bindings (· == 0) r.flushed r.read.walk.deliveries book).2 =
      [.delivered 1 1 0 [⟨1, 0⟩]] ∧
    ¬ Notified (snaps 0).bindings (· == 0) r.flushed r.read.walk.deliveries book := by
  refine ⟨_, rfl, by decide, by decide, by decide, fun h => ?_⟩
  have hcount := congrArg (fun b => b.1.consumer 2) h.undone
  revert hcount
  decide

/-- With room for both reports nothing has to be taken back. -/
theorem queued_reports_partition : ∃ r, ({} : Memory).cycle wh cfg snaps (cycle 2) = some r ∧
    second ∈ r.read.walk.deliveries ∧ Notified (snaps 0).bindings (fun _ => true) r.flushed r.read.walk.deliveries book := by
  obtain ⟨r, hr, hmem⟩ : ∃ r, ({} : Memory).cycle wh cfg snaps (cycle 2) = some r ∧
      second ∈ r.read.walk.deliveries := ⟨_, rfl, by decide⟩
  exact ⟨r, hr, hmem, (notified_iff hr (fun _ => true) _).2 fun _ _ => rfl⟩

end TwoStreams

end Arbitro
