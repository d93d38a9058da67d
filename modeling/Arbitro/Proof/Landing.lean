import Arbitro.Proof.Delayed
import Arbitro.Proof.Lifecycle

/-!
# Where messages land

From its lookup to its append a message carries the numeric id of its stream, a delayed one for
as long as it waits, restarts included.

* `Homed`: every message under way is for the stream that has its id, if any has.
* `lands_at_home`: a message is only appended to the stream it was published to, as long as no id
  is given out while a message for its last holder is under way.
* `lands_abroad`: else a message is appended to a stream that has recycled the id.
-/

namespace Arbitro.Broker

open Delayed StreamRegistry List Function

variable {wh : WireHash} {b b' : Broker} {entry : EntryRef} {e : DelayedEntry} {nowMs epoch k : ℕ}

/-- The delayed messages that are not yet in the main store. -/
def waiting (b : Broker) : List DelayedEntry := b.line.hand ++ b.line.journal.pending

/-- The messages under way: the stream id of each, and the holder of the id that it is for. -/
def underWay (b : Broker) : List (StreamId × ℕ) :=
  b.lookups.map (fun l => (l.entry.streamId, l.epoch)) ++ b.waiting.map fun e => (e.streamId, b.origins e.fileOffset)

/-- Values have the widths of the source's types. -/
def Typed : Action → Prop
  | .lookup _ subject payload flags => subject.length < 2 ^ 16 ∧ payload.length < 2 ^ 32 ∧ flags < 2 ^ 8
  | _ => True

/-- No stream is created under an id that a message under way carries. -/
def Clear (wh : WireHash) (b : Broker) : Action → Prop
  | .createStream name _ admitted => admitted = true → b.names.streamSeq (wh name) = none →
    ∀ x ∈ b.underWay, x.1 ≠ b.names.streamPool.next
  | _ => True

/-- **Every message under way is for the stream that has its id**, if there is one. -/
structure Homed (b : Broker) : Prop where
  journal : ∃ disk, b.line.journal.OK disk [] ∧ ∀ e ∈ b.line.hand, e ∈ disk.map Prod.fst
  fits : ∀ l ∈ b.lookups, Fits ⟨0, l.entry.streamId, l.entry.subject, l.entry.payload, l.entry.flags, 0⟩
  home : ∀ x ∈ b.underWay, b.names.Live x.1 → x.2 = b.epochs x.1
  landed : ∀ p ∈ b.published, ∀ n ∈ p.holder, n = p.epoch

theorem mem_holder {id : StreamId} {n : ℕ} (h : n ∈ b.holder id) : b.names.Live id ∧ n = b.epochs id := by
  unfold holder at h
  split at h
  case isTrue hany =>
    obtain ⟨x, hx, hid⟩ := any_eq_true.1 hany
    obtain rfl : x.2 = id := by simpa using hid
    exact ⟨⟨x.1, AList.mem_lookup_iff.2 hx⟩, (Option.some.inj h).symm⟩
  case isFalse => cases h

theorem underWay_subset (hlookups : b'.lookups ⊆ b.lookups) (hwaiting : b'.waiting ⊆ b.waiting)
    (horigins : b'.origins = b.origins) : b'.underWay ⊆ b.underWay := by
  unfold underWay
  rw [horigins]
  exact append_subset.2 ⟨subset_append_of_subset_left _ (map_subset _ hlookups),
    subset_append_of_subset_right _ (map_subset _ hwaiting)⟩

section Homed

variable (h : b.Homed)

include h

/-- Fewer messages under way, and the same holders of their ids. -/
theorem Homed.shrinks (hjournal : ∃ disk, b'.line.journal.OK disk [] ∧ ∀ e ∈ b'.line.hand, e ∈ disk.map Prod.fst)
    (hlookups : b'.lookups ⊆ b.lookups) (hunder : b'.underWay ⊆ b.underWay) (hpub : b'.published = b.published)
    (hlive : ∀ x ∈ b.underWay, b'.names.Live x.1 → b.names.Live x.1 ∧ b'.epochs x.1 = b.epochs x.1) : b'.Homed := by
  refine ⟨hjournal, fun l hl => h.fits l (hlookups hl), fun x hx hx' => ?_, by rw [hpub]; exact h.landed⟩
  obtain ⟨hold, hep⟩ := hlive x (hunder hx) hx'
  rw [hep]
  exact h.home x (hunder hx) hold

theorem Homed.home_lookup {l : Lookup} (hl : l ∈ b.lookups) (hlive : b.names.Live l.entry.streamId) :
    l.epoch = b.epochs l.entry.streamId :=
  h.home (l.entry.streamId, l.epoch) (mem_append_left _ (mem_map_of_mem hl)) hlive

theorem Homed.home_waiting (he : e ∈ b.waiting) (hlive : b.names.Live e.streamId) :
    b.origins e.fileOffset = b.epochs e.streamId :=
  h.home (e.streamId, b.origins e.fileOffset) (mem_append_right _ (mem_map_of_mem he)) hlive

theorem Homed.append (hepoch : b.names.Live entry.streamId → epoch = b.epochs entry.streamId) (timestamp : ℕ) :
    (b.append entry epoch timestamp).Homed := by
  refine ⟨h.journal, h.fits, h.home, forall_mem_append.2 ⟨h.landed, forall_mem_singleton.2 fun n hn => ?_⟩⟩
  obtain ⟨hlive, rfl⟩ := mem_holder hn
  exact (hepoch hlive).symm

theorem Homed.createStream {name : Bytes} {maxAgeMs : ℕ} {admitted : Bool} (hs : b.Synced wh)
    (hclear : b.Clear wh (.createStream name maxAgeMs admitted)) : (b.createStream wh name maxAgeMs admitted).Homed := by
  unfold Broker.createStream
  cases hc : b.names.getOrCreateStreamChecked (wh name) name admitted with
  | none => exact h
  | some x =>
    obtain ⟨id, created, names⟩ := x
    refine h.shrinks h.journal (Subset.refl _) (Subset.refl _) rfl fun x hx hlive => ?_
    rcases checked_cases hs.names hc with ⟨rfl, rfl, -⟩ | ⟨rfl, hadds⟩
    · exact ⟨hlive, rfl⟩
    -- the new stream has another id, and the books of the others are as before
    obtain ⟨hadm, hnone, hid⟩ := checked_created hc
    have hne : x.1 ≠ id := hid ▸ hclear hadm hnone x hx
    exact ⟨((live_insert hadds.absent hadds.streams).1 hlive).resolve_right hne, update_of_ne hne _ _⟩

theorem Homed.deleteStream (hs : b.Synced wh) (name : Bytes) : (b.deleteStream wh name).Homed := by
  unfold Broker.deleteStream
  cases hid : b.names.streamSeq (wh name) with
  | none => exact h
  | some id =>
    exact h.shrinks h.journal (Subset.refl _) (Subset.refl _) rfl
      fun x _ hlive => ⟨((live_removeStream hs.names hid).1 hlive).1, rfl⟩

theorem Homed.lookup (hs : b.Synced wh) {wire : SubjectHash} {subject payload : Bytes} {flags : ℕ}
    (htyped : Typed (.lookup wire subject payload flags)) : (b.lookup wire subject payload flags).Homed := by
  obtain ⟨hsubject, hpayload, hflags⟩ := htyped
  unfold Broker.lookup
  cases hid : b.names.streamSeq wire with
  | none => exact h
  | some id =>
    refine ⟨h.journal, forall_mem_append.2 ⟨h.fits, forall_mem_singleton.2
      ⟨Nat.two_pow_pos 64, (hs.names.lt ⟨wire, hid⟩).trans (by decide), hsubject, hpayload, hflags⟩⟩, fun x hx hlive => ?_, h.landed⟩
    simp only [underWay, map_append, map_cons, map_nil, append_assoc, mem_append, mem_singleton] at hx
    rcases hx with hx | rfl | hx
    · exact h.home x (mem_append_left _ hx) hlive
    · rfl
    · exact h.home x (mem_append_right _ hx) hlive

theorem Homed.publish (timestamp : ℕ) (accepted : Bool) : (b.publish k timestamp accepted).Homed := by
  unfold Broker.publish
  split
  · exact h
  case h_2 l hl =>
  have herase : { b with lookups := b.lookups.eraseIdx k }.Homed :=
    h.shrinks h.journal eraseIdx_subset (underWay_subset eraseIdx_subset (Subset.refl _) rfl) rfl
      fun _ _ hlive => ⟨hlive, rfl⟩
  simp only
  split
  · exact herase.append (h.home_lookup (mem_of_getElem? hl)) _
  · exact herase

theorem Homed.offset_lt (he : e ∈ b.waiting) : e.fileOffset < b.line.journal.writeOffset := by
  obtain ⟨disk, hok, hhand⟩ := h.journal
  have hmem : e ∈ disk.map Prod.fst := by
    rcases mem_append.1 he with he | he
    · exact hhand e he
    · exact mem_of_waiting (hok.pending.mem_iff.1 he)
  obtain ⟨p, hp, rfl⟩ := mem_map.1 hmem
  have hlt := (placed_offsets hok.log.placed p hp).2
  rw [hok.offset]
  omega

theorem Homed.publishDelayed (nowMs delayMs : ℕ) : (b.publishDelayed k nowMs delayMs).Homed := by
  unfold Broker.publishDelayed
  split
  · exact h.publish _ _
  split
  · exact h
  case h_2 l hl =>
  have hmem := mem_of_getElem? hl
  let x : DelayedEntry := ⟨(nowMs + delayMs) % 2 ^ 64, l.entry.streamId, l.entry.subject, l.entry.payload, l.entry.flags,
    b.line.journal.writeOffset⟩
  simp only
  generalize hpublish : b.line.step _ = line
  obtain ⟨disk, hok, hhand⟩ := h.journal
  have hfits : Fits x := { h.fits l hmem with deliverAtMs := Nat.mod_lt _ (Nat.two_pow_pos 64) }
  -- the journal refuses the message, or files it behind all the others
  have hline : (∃ disk, line.journal.OK disk [] ∧ ∀ e ∈ line.hand, e ∈ disk.map Prod.fst) ∧
      ∀ e ∈ line.hand ++ line.journal.pending, e ∈ b.waiting ∨ e = x := by
    rw [← hpublish, DelayLine.step]
    cases happ : b.line.journal.append nowMs ((nowMs + delayMs) % 2 ^ 64) l.entry with
    | error err => exact ⟨⟨disk, hok, hhand⟩, fun e he => .inl he⟩
    | ok j =>
      obtain ⟨-, rfl⟩ := DelayedJournal.append_eq_ok happ
      refine ⟨⟨disk ++ [(x, false)], hok.append hfits rfl, fun e he => ?_⟩, fun e he => ?_⟩
      · rw [map_append]
        exact mem_append_left _ (hhand e he)
      · simp only [mem_append, mem_orderedInsert] at he
        rw [waiting, mem_append]
        tauto
  refine h.shrinks hline.1 eraseIdx_subset (append_subset.2 ⟨?_, fun y hy => ?_⟩) rfl fun _ _ hlive => ⟨hlive, rfl⟩
  · exact subset_append_of_subset_left _ (map_subset _ eraseIdx_subset)
  obtain ⟨e, he, rfl⟩ := mem_map.1 hy
  rcases hline.2 e he with he | rfl
  · -- every entry that waits lies before the offset that was written to
    have horigin : update b.origins b.line.journal.writeOffset l.epoch e.fileOffset = b.origins e.fileOffset :=
      update_of_ne (h.offset_lt he).ne _ _
    simp only [horigin]
    exact mem_append_right _ (mem_map_of_mem he)
  · simp only [x, update_self]
    exact mem_append_left _ (mem_map_of_mem hmem)

theorem Homed.mature (nowMs : ℕ) : { b with line := b.line.step (.mature nowMs) }.Homed := by
  simp only [DelayLine.step]
  split
  case isFalse => exact h
  obtain ⟨disk, hok, -⟩ := h.journal
  obtain ⟨disk', hok', hfst, hpop, hpend⟩ := hok.popMatured nowMs
  refine h.shrinks ⟨disk', hok', fun e he => ?_⟩ (Subset.refl _) (underWay_subset (Subset.refl _) (fun e he => ?_) rfl) rfl
    fun _ _ hlive => ⟨hlive, rfl⟩
  · rw [hpop] at he
    rw [hfst]
    exact mem_of_waiting (hok.pending.mem_iff.1 (mem_filter.1 he).1)
  · simp only [waiting, hpop, hpend, mem_append, mem_filter] at he ⊢
    tauto

theorem Homed.store (accepted : Bool) : (b.store accepted).Homed := by
  unfold Broker.store
  cases hhand : b.line.hand with
  | nil => exact h
  | cons e hand =>
    obtain ⟨disk, hok, hin⟩ := h.journal
    have hwait : e ∈ b.waiting := by
      rw [waiting, hhand]
      exact mem_append_left _ mem_cons_self
    have hrest : { b with line := b.line.step (.store accepted) }.Homed := by
      simp only [DelayLine.step, hhand]
      refine h.shrinks ⟨disk, hok, fun d hd => hin d ?_⟩ (Subset.refl _)
        (underWay_subset (Subset.refl _) (fun d hd => ?_) rfl) rfl fun _ _ hlive => ⟨hlive, rfl⟩
      · rw [hhand]
        exact mem_cons_of_mem _ hd
      · rw [waiting, hhand]
        exact mem_cons_of_mem _ hd
    simp only
    split
    · exact hrest.append (h.home_waiting hwait) _
    · exact hrest

theorem Homed.restart (hs : b.Synced wh) (shards : ℕ → LifeShard) : ({ b with shards := shards }.restart wh nowMs).Homed := by
  obtain ⟨disk, hok, -⟩ := h.journal
  obtain ⟨disk', hok', hfst, hcatch, hpend⟩ := recover_ok hok.log
  have hwait : ∀ e ∈ ({ b with shards := shards }.restart wh nowMs).waiting, e ∈ Delayed.waiting disk := by
    intro e he
    have he' : e ∈ (DelayedJournal.recover b.line.journal.file nowMs).2
        ++ (DelayedJournal.recover b.line.journal.file nowMs).1.pending := he
    rw [hcatch, mem_append, hpend.mem_iff, mem_filter, mem_filter] at he'
    tauto
  refine h.shrinks ⟨disk', hok', fun e he => ?_⟩ (nil_subset _) (underWay_subset (nil_subset _) (fun e he => ?_) rfl) rfl
    fun x _ hlive => ⟨hs.registry.live.1 hlive, rfl⟩
  · rw [hfst]
    exact mem_of_waiting (hwait e (mem_append_left _ he))
  · exact mem_append_right _ (hok.pending.mem_iff.2 (hwait e he))

theorem Homed.step {a : Action} (hs : b.Synced wh) (htyped : Typed a) (hclear : b.Clear wh a) : (b.step wh a).Homed := by
  cases a with
  | createStream name maxAgeMs admitted => exact h.createStream hs hclear
  | deleteStream name => exact h.deleteStream hs name
  | lookup wire subject payload flags => exact h.lookup hs htyped
  | publish k timestamp accepted => exact h.publish timestamp accepted
  | publishDelayed k nowMs delayMs => exact h.publishDelayed nowMs delayMs
  | mature nowMs => exact h.mature nowMs
  | store accepted => exact h.store accepted
  | serve i j =>
    simp only [Broker.step]
    split
    · exact h.shrinks h.journal (Subset.refl _) (Subset.refl _) rfl fun _ _ hlive => ⟨hlive, rfl⟩
    · exact h
  | restart nowMs => exact h.restart hs b.shards
  | crashCreate name maxAgeMs admitted k nowMs =>
    simp only [Broker.step, Broker.crashCreate]
    split <;> exact h.restart hs _
  | crashDelete name k nowMs =>
    simp only [Broker.step, Broker.crashDelete]
    split <;> exact h.restart hs _

end Homed

theorem fresh_homed {n : ℕ} : (fresh n).Homed :=
  ⟨⟨[], ⟨⟨rfl, trivial, by simp, rfl⟩, rfl, .nil, .nil⟩, by simp [fresh]⟩, nofun, nofun, nofun⟩

/-- **A message is only appended to the stream it was published to**, in every run in which no
stream is created under an id that a message under way carries. -/
theorem lands_at_home (wh : WireHash) (n : ℕ) (as : List Action)
    (hrun : Run.Guarded (step wh) (fun b a => Typed a ∧ b.Clear wh a) (fresh n) as) :
    ∀ p ∈ (as.foldl (step wh) (fresh n)).published, ∀ m ∈ p.holder, m = p.epoch := by
  have hstep : ∀ (b : Broker) (a : Action), b.Synced wh ∧ b.Homed → Typed a ∧ b.Clear wh a →
      (b.step wh a).Synced wh ∧ (b.step wh a).Homed :=
    fun b a h ha => ⟨h.1.step a, h.2.step h.1 ha.1 ha.2⟩
  exact (Run.invariant hstep as (fresh n) ⟨fresh_synced n, fresh_homed⟩ hrun).2.landed

namespace Abroad

/-- A message for the stream `a`, to be delivered at 100. -/
def delayed : List Action := [.createStream [97] 0 true, .lookup 97 [115] [120] 0, .publishDelayed 0 5 95]

/-- The stream `a` is deleted after the message has been handed over. -/
def patient : List Action := delayed ++ [.mature 100, .store true, .deleteStream [97], .createStream [98] 0 true]

/-- The stream `a` is deleted and `b` is created before its time. -/
def hasty : List Action := delayed ++ [.deleteStream [97], .createStream [98] 0 true, .mature 100, .store true]

end Abroad

theorem lands_at_home_patient :
    (Abroad.patient.foldl (step sampleHash) (fresh 1)).published = [⟨0, 1, 1, some 1⟩] ∧
      ∀ p ∈ (Abroad.patient.foldl (step sampleHash) (fresh 1)).published, ∀ m ∈ p.holder, m = p.epoch := by
  refine ⟨by decide +kernel, lands_at_home sampleHash 1 Abroad.patient ?_⟩
  refine ⟨⟨trivial, fun _ _ x hx => absurd hx not_mem_nil⟩, ⟨⟨by decide, by decide, by decide⟩, trivial⟩,
    ⟨trivial, trivial⟩, ⟨trivial, trivial⟩, ⟨trivial, trivial⟩, ⟨trivial, trivial⟩, ⟨trivial, fun _ _ x hx => ?_⟩, trivial⟩
  have hx' : x ∈ ((Abroad.patient.take 6).foldl (step sampleHash) (fresh 1)).underWay := hx
  exact absurd hx' not_mem_nil

/-- **A delayed message reaches a stream it was not published to**: it is for the first holder of
id 0, and `b` is the second. -/
theorem lands_abroad :
    (Abroad.hasty.foldl (step sampleHash) (fresh 1)).published = [⟨0, 1, 1, some 2⟩] := by
  decide +kernel

end Arbitro.Broker
