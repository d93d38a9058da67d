import Arbitro.Lib.Numbered
import Arbitro.Lib.Run
import Arbitro.Proof.RaftStorage

/-!
# The Raft log over failed file operations

A call that fails may have changed the file, or have replaced it, without memory knowing.

* `Kept`: an entry is owed from the acknowledgement of its append until a cut of the log has
  reached the file; a restart has to find what is owed, and nothing that was never submitted.
* `Safe`: a call that cuts or writes does so in the file that is at the log's path, at a place
  inside it, and covers what a failed write has left.
* `Holds.call`: a safe call keeps what is owed, whether it succeeds or fails.
* `reopened_keeps_owed`: in every run whose calls are safe, a restart finds what is owed.
-/

namespace Arbitro.RaftLog

open Storage List Option

variable {crc : Crc32} {s : Storage} {log owed submitted : List LogEntry} {owed' submitted' : List LogEntry}

/-! ## What is owed -/

/-- The cut of the log that a call makes has reached the file. -/
def cutReached : Call → Bool
  | .append _ (some (.truncate (.setLen _))) => false
  | .truncateSuffix _ (some (.setLen _)) => false
  | .truncateBefore _ (some (.create _)) | .truncateBefore _ (some (.write _)) | .truncateBefore _ (some (.sync _))
  | .truncateBefore _ (some (.rename _)) => false
  | _ => true

/-- The entries that a call asks to drop. -/
def dropped : Call → LogEntry → Bool
  | .append [] _, _ => false
  | .append (first :: batch) _, e => increasing (first :: batch) && first.index ≤ e.index
  | .truncateSuffix i _, e => i ≤ e.index
  | .truncateBefore i _, e => e.index < i
  | .saveSnapshot _ _ _, _ => false

/-- The entries that a call submits. -/
def submits : Call → List LogEntry
  | .append batch _ => batch
  | _ => []

/-- What is owed after a call, given whether it was acknowledged. -/
def owedAfter (owed : List LogEntry) (c : Call) (ok : Bool) : List LogEntry :=
  (if cutReached c then owed.filter (!dropped c ·) else owed) ++ if ok then submits c else []

/-- A restart finds what is owed, and only what was submitted. -/
def Kept (crc : Crc32) (dir : Dir) (owed submitted : List LogEntry) : Prop :=
  ∃ log, Survives crc dir log ∧ owed.Sublist log ∧ ∀ e ∈ log, e ∈ submitted

/-! ## Nodes -/

/-- A running storage, or the files of one that does not run. -/
inductive Node where
  | up (s : Storage)
  | down (dir : Dir)
  deriving DecidableEq, Repr

inductive NodeAction where
  | call (c : Call)
  | crash
  | start (fault : Option OpenFault)
  deriving DecidableEq, Repr

/-- A node, with what it owes and what has been submitted to it. -/
structure Account where
  node : Node := .down {}
  owed : List LogEntry := []
  submitted : List LogEntry := []
  deriving DecidableEq, Repr

variable {a : Account} {i : UInt64}

def Node.dir : Node → Dir
  | .up s => s.dir
  | .down dir => dir

def Account.step (crc : Crc32) (a : Account) : NodeAction → Account
  | .call c =>
    match a.node with
    | .down _ => a
    | .up s =>
      let r := s.call crc c
      { node := .up r.2, owed := owedAfter a.owed c r.1.isNone, submitted := a.submitted ++ submits c }
  | .crash => { a with node := .down a.node.dir }
  | .start fault =>
    match a.node with
    | .up _ => a
    | .down dir =>
      match new crc dir fault with
      | (_, some s) => { a with node := .up s }
      | (dir, none) => { a with node := .down dir }

/-! ## Safe calls -/

/-- The bytes of a batch that are written. -/
def written (crc : Crc32) (batch : List LogEntry) : Option AppendFault → ℕ
  | some (.seek _) => 0
  | some (.write n _) => min n (records crc batch).length
  | _ => (records crc batch).length

/-- Where the file would be cut for an index. -/
def Storage.cutAt (s : Storage) (i : UInt64) : Option ℕ := s.entries[s.partitionPoint i]?.map (·.offset)

/-- A cut falls inside the log's file. Without one, so many bytes are written inside it and up to its end or beyond. -/
def Roomy (s : Storage) (bytes : ℕ) : Option ℕ → Prop
  | some cut => cut ≤ s.dir.wal.length
  | none => bytes = 0 ∨ (s.tail ≤ s.dir.wal.length ∧ s.dir.wal.length ≤ s.tail + bytes)

instance (s : Storage) (bytes : ℕ) : ∀ cut, Decidable (Roomy s bytes cut)
  | some cut => inferInstanceAs (Decidable (cut ≤ s.dir.wal.length))
  | none => inferInstanceAs (Decidable (bytes = 0 ∨ (_ ∧ _)))

/-- The call cuts and writes in the log's own file, inside it, and covers what a failed write has left there. -/
def Safe (crc : Crc32) (s : Storage) : Call → Prop
  | .append [] _ => True
  | .append (first :: batch) fault => (∀ e ∈ first :: batch, e.Fits) ∧ s.detached = none ∧
    Roomy s (written crc (first :: batch) fault) (s.cutAt first.index)
  | .truncateSuffix i _ => s.detached = none → ∀ cut ∈ s.cutAt i, cut ≤ s.dir.wal.length
  | .truncateBefore _ _ => True
  | .saveSnapshot _ snapshot _ => snapshot.length < 2 ^ 64

instance (crc : Crc32) (s : Storage) : ∀ c, Decidable (Safe crc s c)
  | .append [] _ => isTrue trivial
  | .append (_ :: _) _ => inferInstanceAs (Decidable (_ ∧ _ ∧ _))
  | .truncateSuffix _ _ => inferInstanceAs (Decidable (_ → _))
  | .truncateBefore _ _ => isTrue trivial
  | .saveSnapshot _ snapshot _ => inferInstanceAs (Decidable (snapshot.length < _))

/-- What is known of a running storage. -/
structure Holds (crc : Crc32) (s : Storage) (owed submitted : List LogEntry) : Prop where
  indexed : Indexed crc s s.log
  owedIn : owed.Sublist s.log
  known : ∀ e ∈ s.log, e ∈ submitted
  path : Kept crc s.dir owed submitted
  /-- The log's file and the records of the index agree as far as both go. -/
  agrees : s.detached = none → ∀ n, n ≤ s.dir.wal.length → n ≤ s.tail → s.dir.wal.take n = (records crc s.log).take n

theorem cut_of_ordered (h : Ordered log) :
    below log i = log.filter (fun e => decide (e.index < i)) ∧ fromIndex log i = log.filter (fun e => !decide (e.index < i)) :=
  takeWhile_of_pairwise (h.imp fun hlt => by simpa using UInt64.lt_trans hlt)

theorem filter_eq_below (h : Ordered log) : log.filter (fun e => !decide (i ≤ e.index)) = below log i := by
  rw [(cut_of_ordered h).1]
  exact filter_congr fun e _ => by rw [← decide_not, decide_eq_decide, UInt64.not_le]

theorem Kept.mono {dir : Dir} (h : Kept crc dir owed submitted)
    (howed : owed'.Sublist owed) (hsub : ∀ e ∈ submitted, e ∈ submitted') : Kept crc dir owed' submitted' := by
  obtain ⟨log, hlog, hsl, hknown⟩ := h
  exact ⟨log, hlog, howed.trans hsl, fun e he => hsub e (hknown e he)⟩

theorem Holds.mono (h : Holds crc s owed submitted)
    (howed : owed'.Sublist owed) (hsub : ∀ e ∈ submitted, e ∈ submitted') : Holds crc s owed' submitted' :=
  ⟨h.indexed, howed.trans h.owedIn, fun e he => hsub e (h.known e he), h.path.mono howed hsub, h.agrees⟩

theorem Clean.holds (h : Clean crc s log) (howed : owed.Sublist log) (hsub : ∀ e ∈ log, e ∈ submitted) :
    Holds crc s owed submitted := by
  have hlog := h.indexed.log_eq
  refine ⟨hlog.symm ▸ h.indexed, hlog.symm ▸ howed, hlog.symm ▸ hsub, ⟨log, h.survives, howed, hsub⟩, fun _ n _ _ => ?_⟩
  rw [hlog, h.wal]

theorem Indexed.cutAt_eq (h : Indexed crc s log) :
    s.cutAt i = if below log i = log then none else some (records crc (below log i)).length := by
  unfold cutAt
  rcases h.cutPoint i with ⟨hall, hnone⟩ | ⟨hne, e, hsome, hoff⟩
  · rw [hnone, if_pos hall]
    rfl
  · rw [hsome, if_neg hne, ← hoff]
    rfl

namespace Holds

variable {batch : List LogEntry}

/-- A cut that fails before it has changed the file changes nothing. -/
def untouched : Option TruncateFault → Bool
  | some (.setLen _) => true
  | _ => false

theorem owedAfter_append {first : LogEntry} (hb : Ordered (first :: batch)) {fault : Option AppendFault} {ok : Bool} :
    owedAfter owed (.append (first :: batch) fault) ok =
      (if untouched (truncation fault) then owed else owed.filter (fun e => !decide (first.index ≤ e.index))) ++
        if ok then first :: batch else [] := by
  have hinc := increasing_iff.2 hb
  have hreach : cutReached (.append (first :: batch) fault) = !untouched (truncation fault) := by
    cases fault with
    | none => rfl
    | some f =>
      cases f with
      | truncate f => cases f <;> rfl
      | seek | write | sync => rfl
  simp only [owedAfter, submits, dropped, hinc, Bool.true_and, hreach]
  cases untouched (truncation fault) <;> simp

variable (h : Holds crc s owed submitted)

include h

theorem fewer (howed : owed'.Sublist owed) : Holds crc s owed' submitted := h.mono howed fun _ he => he

theorem more (batch : List LogEntry) : Holds crc s owed (submitted ++ batch) :=
  h.mono (Sublist.refl _) fun _ he => mem_append_left _ he

/-- A cut inside the log's file leaves the records below its index. -/
theorem setLen_eq (hd : s.detached = none) (i : UInt64)
    (hle : (records crc (below s.log i)).length ≤ s.dir.wal.length) :
    setLen s.file (records crc (below s.log i)).length = records crc (below s.log i) := by
  have hsplit : records crc s.log = records crc (below s.log i) ++ records crc (fromIndex s.log i) := by
    rw [← records_append, below_append_fromIndex]
  have htail : (records crc (below s.log i)).length ≤ s.tail := by
    rw [h.indexed.tail, hsplit, length_append]
    omega
  rw [file, hd, getD_none, setLen, h.agrees hd _ hle htail, hsplit, take_left, Nat.sub_eq_zero_of_le hle]
  simp

variable (i)

theorem owed_below : (owed.filter (fun e => !decide (i ≤ e.index))).Sublist (below s.log i) := by
  rw [← filter_eq_below h.indexed.ordered]
  exact h.owedIn.filter _

theorem readable : Readable crc s.dir := by
  obtain ⟨_, hs, _⟩ := h.path
  exact hs.readable

/-- Memory once it has followed a cut. -/
theorem of_below {t : Storage}
    (hentries : t.entries = stage 0 (below s.log i)) (htail : t.tail = (records crc (below s.log i)).length)
    (hpath : Kept crc t.dir (owed.filter (fun e => !decide (i ≤ e.index))) submitted)
    (hagrees : t.detached = none → t.dir.wal = records crc (below s.log i)) :
    Holds crc t (owed.filter (fun e => !decide (i ≤ e.index))) submitted := by
  have hpre := below_isPrefix s.log i
  have hlog : t.log = below s.log i := by rw [log, hentries, map_stage]
  refine ⟨?_, hlog ▸ h.owed_below i, fun e he => h.known e (hpre.subset (hlog ▸ he)), hpath, fun hd n _ _ => ?_⟩
  · rw [hlog]
    exact h.indexed.sublist hpre.sublist hentries htail
  · rw [hagrees hd, hlog]

theorem truncate (fault : Option TruncateFault)
    (hsafe : s.detached = none → ∀ cut ∈ s.cutAt i, cut ≤ s.dir.wal.length) :
    Holds crc (s.truncateSuffix i fault).2
      (if untouched fault then owed else owed.filter (fun e => !decide (i ≤ e.index))) submitted := by
  have hfewer : ∀ b : Bool, (if b then owed else owed.filter (fun e => !decide (i ≤ e.index))).Sublist owed := by
    intro b
    split
    · exact Sublist.refl _
    · exact filter_sublist
  rw [h.indexed.truncateSuffix_eq]
  split
  · exact h.fewer (hfewer _)
  next hne =>
  rw [h.indexed.cutAt_eq, if_neg hne] at hsafe
  have hsplit : records crc s.log = records crc (below s.log i) ++ records crc (fromIndex s.log i) := by
    rw [← records_append, below_append_fromIndex]
  -- the file is cut, in the log's place or behind its back
  obtain ⟨t, hset, hentries, htail, hpath, hwal⟩ :
      ∃ t, s.setFile (setLen s.file (records crc (below s.log i)).length) = t ∧ t.entries = s.entries ∧ t.tail = s.tail ∧
        Kept crc t.dir (owed.filter (fun e => !decide (i ≤ e.index))) submitted ∧
        (t.detached = none → t.dir.wal = records crc (below s.log i)) := by
    have hpre := below_isPrefix s.log i
    refine ⟨_, rfl, ?_⟩
    cases hd : s.detached with
    | none =>
      rw [h.setLen_eq hd i (hsafe hd _ rfl), setFile_attached hd]
      exact ⟨rfl, rfl, ⟨_, h.indexed.survives hpre.sublist rfl h.readable, h.owed_below i,
        fun e he => h.known e (hpre.subset he)⟩, fun _ => rfl⟩
    | some old =>
      simp only [setFile, hd]
      exact ⟨trivial, trivial, h.path.mono filter_sublist fun _ he => he, nofun⟩
  -- memory follows if the sync succeeds
  cases fault with
  | none =>
    simp only [Indexed.cutTo, hset]
    exact h.of_below i rfl rfl hpath hwal
  | some f =>
    cases f with
    | setLen kind => exact h
    | sync kind =>
      have hlog : t.log = s.log := by rw [log, hentries, log]
      simp only [hset]
      refine ⟨hlog ▸ h.indexed.congr hentries htail, hlog ▸ filter_sublist.trans h.owedIn, hlog ▸ h.known, hpath,
        fun hd n hn _ => ?_⟩
      rw [hwal hd] at hn ⊢
      rw [hlog, hsplit, take_append_of_le_length hn]

/-- Bytes written where the records of the index end, over all that the file has left there. -/
theorem writeAt_eq (hd : s.detached = none) {bytes : Bytes}
    (hin : s.tail ≤ s.dir.wal.length) (hover : s.dir.wal.length ≤ s.tail + bytes.length) (hne : bytes ≠ []) :
    s.writeAt bytes = { s with dir := { s.dir with wal := records crc s.log ++ bytes } } := by
  have htake : s.dir.wal.take s.tail = records crc s.log := by
    rw [h.agrees hd _ hin le_rfl, h.indexed.tail, take_length]
  unfold writeAt Sparse.write
  rw [if_neg hne, setFile_attached hd, file, hd, getD_none, Nat.sub_eq_zero_of_le hin, drop_of_length_le hover]
  simp [htake]

/-- The directory once a first part of a batch has been written behind the log. -/
theorem kept_write (hord : Ordered (s.log ++ batch)) (hfits : ∀ e ∈ batch, e.Fits) (n : ℕ) :
    Kept crc { s.dir with wal := records crc s.log ++ (records crc batch).take n } owed (submitted ++ batch) := by
  obtain ⟨m, hpart⟩ := h.indexed.survives_part hord hfits h.readable
  refine ⟨s.log ++ batch.take m, hpart, h.owedIn.trans (sublist_append_left _ _), fun e he => ?_⟩
  exact mem_append.2 ((mem_append.1 he).imp (h.known e) mem_of_mem_take)

theorem write_part (hd : s.detached = none) (hord : Ordered (s.log ++ batch)) (hfits : ∀ e ∈ batch, e.Fits) (n : ℕ)
    (hroom : ((records crc batch).take n).length = 0 ∨ (s.tail ≤ s.dir.wal.length ∧
      s.dir.wal.length ≤ s.tail + ((records crc batch).take n).length)) :
    Holds crc (s.writeAt ((records crc batch).take n)) owed (submitted ++ batch) := by
  by_cases hnil : (records crc batch).take n = []
  · rw [hnil, writeAt, if_pos rfl]
    exact h.more _
  obtain ⟨hin, hover⟩ := hroom.resolve_left (by simpa using hnil)
  rw [h.writeAt_eq hd hin hover hnil]
  refine ⟨h.indexed.congr rfl rfl, h.owedIn, fun e he => mem_append_left _ (h.known e he), h.kept_write hord hfits n,
    fun _ k _ hk => ?_⟩
  show (records crc s.log ++ (records crc batch).take n).take k = (records crc s.log).take k
  rw [take_append_of_le_length (by rw [← h.indexed.tail]; exact hk)]

theorem write (hd : s.detached = none) (hne : batch ≠ [])
    (hord : Ordered (s.log ++ batch)) (hfits : ∀ e ∈ batch, e.Fits) (fault : Option AppendFault)
    (hroom : written crc batch fault = 0 ∨ (s.tail ≤ s.dir.wal.length ∧
      s.dir.wal.length ≤ s.tail + written crc batch fault)) :
    Holds crc (s.writeBatch crc batch fault).2 (owed ++ if (s.writeBatch crc batch fault).1.isNone then batch else [])
      (submitted ++ batch) := by
  have hlong : records crc batch ≠ [] := by
    intro hnil
    have hle := length_le_records crc batch
    rw [hnil] at hle
    exact hne (length_eq_zero_iff.1 (by simpa using hle))
  have hwhole : (records crc batch).take (records crc batch).length = records crc batch := take_length
  -- a batch that is written as a whole and acknowledged
  have hok : written crc batch fault = (records crc batch).length →
      Holds crc ({ s.writeAt (records crc batch) with
        tail := s.tail + (records crc batch).length, entries := s.entries ++ stage s.tail batch } : Storage)
        (owed ++ batch) (submitted ++ batch) := by
    intro hall
    rw [hall] at hroom
    obtain ⟨hin, hover⟩ := hroom.resolve_left (by simpa using hlong)
    have hclean : Clean crc ({ s.writeAt (records crc batch) with
        tail := s.tail + (records crc batch).length, entries := s.entries ++ stage s.tail batch } : Storage)
        (s.log ++ batch) := by
      rw [h.writeAt_eq hd hin hover hlong]
      exact ⟨h.indexed.append rfl rfl hord hfits, hd, (records_append s.log batch).symm, h.readable⟩
    refine hclean.holds (h.owedIn.append (Sublist.refl _)) fun e he => ?_
    exact mem_append.2 ((mem_append.1 he).imp_left (h.known e))
  unfold writeBatch
  cases fault with
  | none => exact hok rfl
  | some f =>
    cases f with
    | truncate f => exact hok rfl
    | seek kind => simpa using h.more _
    | write n kind =>
      have hlen : written crc batch (some (.write n kind)) = ((records crc batch).take n).length :=
        (length_take ..).symm
      rw [hlen] at hroom
      simpa using h.write_part hd hord hfits n hroom
    | sync kind =>
      have hpart := h.write_part hd hord hfits (records crc batch).length (by rw [hwhole]; exact hroom)
      simpa using hpart

/-- A cut that succeeds did nothing, or leaves memory and the log's file with the entries below its index. -/
theorem truncate_ok (hd : s.detached = none) (i : UInt64)
    (fault : Option TruncateFault) (hsafe : ∀ cut ∈ s.cutAt i, cut ≤ s.dir.wal.length)
    (hok : (s.truncateSuffix i fault).1.isSome = false) :
    (s.cutAt i = none ∧ below s.log i = s.log ∧ (s.truncateSuffix i fault).2 = s) ∨
      Clean crc (s.truncateSuffix i fault).2 (below s.log i) := by
  rw [h.indexed.cutAt_eq] at hsafe ⊢
  rw [h.indexed.truncateSuffix_eq] at hok ⊢
  by_cases hall : below s.log i = s.log
  · simp only [if_pos hall]
    exact .inl ⟨trivial, hall, trivial⟩
  rw [if_neg hall] at hsafe hok ⊢
  cases fault with
  | some f => cases f <;> cases hok
  | none =>
    simp only [if_neg hall, Indexed.cutTo, h.setLen_eq hd i (hsafe _ rfl), setFile_attached hd]
    exact .inr ⟨h.indexed.sublist (below_isPrefix s.log i).sublist rfl rfl, hd, rfl, h.readable⟩

theorem append (batch : List LogEntry) (fault : Option AppendFault) (hsafe : Safe crc s (.append batch fault)) :
    Holds crc (s.appendEntries crc batch fault).2
      (owedAfter owed (.append batch fault) (s.appendEntries crc batch fault).1.isNone) (submitted ++ batch) := by
  have hsame : Holds crc s owed (submitted ++ batch) := h.more _
  have hkeep : ∀ ok, batch = [] ∨ (ok = false ∧ increasing batch = false) →
      owedAfter owed (.append batch fault) ok = owed := by
    intro ok hcase
    rcases hcase with rfl | ⟨rfl, hinc⟩
    · simp [owedAfter, dropped, submits]
    · cases batch with
      | nil => simp [owedAfter, dropped]
      | cons first batch => simp [owedAfter, dropped, hinc]
  cases batch with
  | nil =>
    rw [hkeep _ (.inl rfl)]
    exact hsame
  | cons first batch =>
    obtain ⟨hfits, hd, hroom⟩ := hsafe
    by_cases hb : Ordered (first :: batch)
    · have hcutsafe : ∀ cut ∈ s.cutAt first.index, cut ≤ s.dir.wal.length := by
        intro cut hcut
        rw [hcut] at hroom
        exact hroom
      have htrunc := h.truncate first.index (truncation fault) fun _ => hcutsafe
      rw [h.indexed.appendEntries_eq hb, owedAfter_append hb]
      simp only
      split
      · next hfail =>
        have hnot : (s.truncateSuffix first.index (truncation fault)).1.isNone = false := by
          cases hr : (s.truncateSuffix first.index (truncation fault)).1 with
          | none => rw [hr] at hfail; cases hfail
          | some err => rfl
        rw [hnot, if_neg Bool.false_ne_true, append_nil]
        exact htrunc.more _
      next hok =>
      have hok : (s.truncateSuffix first.index (truncation fault)).1.isSome = false := by simpa using hok
      have hord : Ordered (below s.log first.index ++ first :: batch) := h.indexed.ordered.splice hb
      rcases h.truncate_ok hd first.index _ hcutsafe hok with ⟨hnone, hall, heq⟩ | hclean
      · rw [heq] at htrunc ⊢
        rw [hall] at hord
        rw [hnone] at hroom
        exact htrunc.write hd (by simp) hord hfits fault hroom
      · have hlog := hclean.indexed.log_eq
        refine htrunc.write hclean.attached (by simp) (hlog.symm ▸ hord) hfits fault (.inr ?_)
        rw [hclean.wal, hclean.indexed.tail]
        exact ⟨le_rfl, Nat.le_add_right _ _⟩
    · have hinc : increasing (first :: batch) = false := by
        rw [← Bool.not_eq_true, increasing_iff]
        exact hb
      rw [Indexed.appendEntries_refused hinc]
      simp only [isNone_some, hkeep _ (.inr ⟨rfl, hinc⟩)]
      exact hsame

theorem compact (fault : Option CompactFault) (ok : Bool) :
    Holds crc (s.truncateBefore crc i fault).2 (owedAfter owed (.truncateBefore i fault) ok) submitted := by
  have hfewer : (owedAfter owed (.truncateBefore i fault) ok).Sublist owed := by
    simp only [owedAfter, submits, ite_self, append_nil]
    split
    · exact filter_sublist
    · exact Sublist.refl _
  have hmem : (owed.filter (fun e => !decide (e.index < i))).Sublist (fromIndex s.log i) := by
    rw [(cut_of_ordered h.indexed.ordered).2]
    exact h.owedIn.filter _
  have hsub : (fromIndex s.log i).Sublist s.log := dropWhile_sublist _
  -- the file has been replaced, and memory does not know
  have hrenamed : Holds crc { s with dir := { s.dir with wal := records crc (fromIndex s.log i) }, detached := some s.file }
      (owed.filter (fun e => !decide (e.index < i))) submitted :=
    ⟨h.indexed.congr rfl rfl, filter_sublist.trans h.owedIn, h.known,
      ⟨_, h.indexed.survives hsub rfl h.readable, hmem, fun e he => h.known e (hsub.subset he)⟩, nofun⟩
  unfold truncateBefore
  simp only [h.indexed.drop_partitionPoint]
  split
  · exact h.fewer hfewer
  cases fault with
  | none =>
    have hclean : Clean crc ⟨{ s.dir with wal := records crc (fromIndex s.log i) }, none,
        (records crc (fromIndex s.log i)).length, stage 0 (fromIndex s.log i), s.snapshot⟩ (fromIndex s.log i) :=
      ⟨h.indexed.sublist hsub rfl rfl, rfl, rfl, h.readable⟩
    have hholds := hclean.holds hmem fun e he => h.known e (hsub.subset he)
    simpa [owedAfter, cutReached, dropped, submits] using hholds
  | some f =>
    cases f with
    | create | write | sync | rename => exact h.fewer hfewer
    | syncDir | reopen => simpa [owedAfter, cutReached, dropped, submits] using hrenamed

theorem snapshot (m : SnapshotMeta) {snapshot : Bytes} (fault : Option SnapshotFault)
    (hlen : snapshot.length < 2 ^ 64) : Holds crc (s.saveSnapshot crc m snapshot fault).2 owed submitted := by
  obtain ⟨log, hs, hsl, hknown⟩ := h.path
  have hsaved : Kept crc { s.dir with snapshot := some (encodeSnapshot crc m snapshot) } owed submitted :=
    ⟨log, ⟨hs.ordered, hs.fits, hs.wal, _, readSnapshotFile_encode crc m hlen⟩, hsl, hknown⟩
  cases fault with
  | none => exact ⟨h.indexed.congr rfl rfl, h.owedIn, h.known, hsaved, h.agrees⟩
  | some f =>
    cases f with
    | create | write | sync | rename => exact h
    | syncDir => exact ⟨h.indexed.congr rfl rfl, h.owedIn, h.known, hsaved, h.agrees⟩

/-- **A safe call keeps what is owed**, whether it succeeds or fails. -/
theorem call (c : Call) (hsafe : Safe crc s c) :
    Holds crc (s.call crc c).2 (owedAfter owed c (s.call crc c).1.isNone) (submitted ++ submits c) := by
  cases c with
  | append batch fault => exact h.append batch fault hsafe
  | truncateSuffix i fault =>
    have htrunc := h.truncate i fault hsafe
    have hreach : cutReached (.truncateSuffix i fault) = !untouched fault := by
      cases fault with
      | none => rfl
      | some f => cases f <;> rfl
    simp only [owedAfter, submits, hreach, dropped, ite_self, append_nil]
    cases hu : untouched fault <;> simpa [hu, Storage.call] using htrunc
  | truncateBefore i fault => simpa [submits, Storage.call] using h.compact i fault _
  | saveSnapshot m snapshot fault =>
    have hsnap := h.snapshot m fault hsafe
    simpa [owedAfter, submits, cutReached, dropped, Storage.call] using hsnap

end Holds

/-! ## Runs -/

namespace Account

/-- The condition on an action: a call is safe for the storage that it is made on. -/
def SafeAction (crc : Crc32) (a : Account) : NodeAction → Prop
  | .call c =>
    match a.node with
    | .up s => Safe crc s c
    | .down _ => True
  | _ => True

instance (crc : Crc32) : ∀ (a : Account) (act : NodeAction), Decidable (SafeAction crc a act)
  | ⟨.up s, _, _⟩, .call c => inferInstanceAs (Decidable (Safe crc s c))
  | ⟨.down _, _, _⟩, .call _ => isTrue trivial
  | _, .crash => isTrue trivial
  | _, .start _ => isTrue trivial

def Good (crc : Crc32) (a : Account) : Prop :=
  match a.node with
  | .up s => Holds crc s a.owed a.submitted
  | .down dir => Kept crc dir a.owed a.submitted

theorem Good.kept (h : a.Good crc) : Kept crc a.node.dir a.owed a.submitted := by
  unfold Good at h
  cases hn : a.node with
  | up s => rw [hn] at h; exact h.path
  | down dir => rw [hn] at h; exact h

theorem Good.step (h : a.Good crc) (act : NodeAction) (hsafe : SafeAction crc a act) : (a.step crc act).Good crc := by
  obtain ⟨node, owed, submitted⟩ := a
  cases act with
  | call c =>
    cases node with
    | down dir => exact h
    | up s => exact h.call c hsafe
  | crash => exact h.kept
  | start fault =>
    cases node with
    | up s => exact h
    | down dir =>
      obtain ⟨log, hsurvives, howed, hknown⟩ := h
      have hstart := hsurvives.start fault
      rcases hnew : new crc dir fault with ⟨dir', opened⟩
      rw [hnew] at hstart
      simp only [Account.step, hnew]
      rcases hstart with ⟨s, rfl, hclean⟩ | ⟨-, rfl, hsurvives'⟩
      · exact hclean.holds howed hknown
      · exact ⟨log, hsurvives', howed, hknown⟩

def run (crc : Crc32) (acts : List NodeAction) : Account := acts.foldl (step crc) {}

theorem run_good {acts : List NodeAction} (hsafe : Run.Guarded (step crc) (SafeAction crc) {} acts) :
    (run crc acts).Good crc := by
  have hstep : ∀ (a : Account) act, a.Good crc → SafeAction crc a act → (a.step crc act).Good crc :=
    fun a act h hs => h.step act hs
  refine Run.invariant hstep acts {} ?_ hsafe
  exact ⟨[], ⟨Pairwise.nil, by simp, ⟨[], torn_nil crc, rfl⟩, none, rfl⟩, Sublist.refl _, by simp⟩

end Account

/-- **A failed call never costs an acknowledged entry, if all calls are safe.** In every run of calls, crashes and
restarts, any of whose file operations may fail: reopening the storage in the state that is reached finds every entry
that was acknowledged and not cut away since, in order, and only entries that were submitted. -/
theorem reopened_keeps_owed (crc : Crc32) (acts : List NodeAction)
    (hsafe : Run.Guarded (Account.step crc) (Account.SafeAction crc) {} acts) :
    ∃ s, (new crc (Account.run crc acts).node.dir none).2 = some s ∧
      (Account.run crc acts).owed.Sublist s.log ∧ ∀ e ∈ s.log, e ∈ (Account.run crc acts).submitted := by
  obtain ⟨log, hsurvives, howed, hknown⟩ := (Account.run_good hsafe).kept
  obtain ⟨s, hs, hclean⟩ := hsurvives.new
  rw [← hclean.indexed.log_eq] at howed hknown
  exact ⟨s, hs, howed, hknown⟩

namespace Failing

def entry (i : UInt64) (payload : Bytes) : LogEntry := ⟨i, 1, payload⟩

/-- An append whose write fails after some bytes, a restart, and the append again. -/
def retried : List NodeAction :=
  [.start none, .call (.append [entry 1 [10]] none), .call (.append [entry 2 [20]] (some (.write 5 .storageFull))),
    .crash, .start none, .call (.append [entry 2 [20]] none)]

theorem retried_kept :
    ∃ s, (new sampleCrc (Account.run sampleCrc retried).node.dir none).2 = some s ∧
      (Account.run sampleCrc retried).owed.Sublist s.log ∧ ∀ e ∈ s.log, e ∈ (Account.run sampleCrc retried).submitted :=
  reopened_keeps_owed sampleCrc retried (by decide +kernel)

/-- A compaction fails behind its rename; the entry appended next goes to the file that was replaced. -/
def compacted : List NodeAction :=
  [.start none, .call (.append [entry 1 [10], entry 2 [20]] none), .call (.truncateBefore 2 (some (.syncDir .other))),
    .call (.append [entry 3 [30]] none)]

/-- An append fails at its fsync; a shorter one is acknowledged over the bytes it has left. -/
def overlaid : List NodeAction :=
  [.start none, .call (.append [entry 1 [10]] none),
    .call (.append [entry 2 (replicate 60 0)] (some (.sync .other))), .call (.append [entry 2 [20]] none)]

/-- After the failed compaction an acknowledged entry is gone; after the failed append the storage does not open. -/
theorem acknowledged_gone :
    ((Account.run sampleCrc compacted).owed = [entry 2 [20], entry 3 [30]] ∧
      (Storage.new sampleCrc (Account.run sampleCrc compacted).node.dir none).2.map Storage.log = some [entry 2 [20]]) ∧
    ((Account.run sampleCrc overlaid).owed = [entry 1 [10], entry 2 [20]] ∧
      (new sampleCrc (Account.run sampleCrc overlaid).node.dir none).2 = none) := by
  decide +kernel

end Failing

end Arbitro.RaftLog
