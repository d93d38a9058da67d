import Arbitro.Server.Content
import Arbitro.Proof.Journal

/-!
# Requests on the content stay within their stream

* `read_handleContent`: which entries a command removes or changes, on both back ends.
* `request_scoped_iff`: a request for a stream leaves what belongs to other streams alone
  exactly when what it hits is filed under its name, or under none, and a `DeleteMessage` does
  not have the seq of another stream's entry.
-/

namespace Arbitro

open List

/-- The entries that a command removes or changes. -/
def ContentCmd.hits (backend : Backend) (e : StoreEntry) : ContentCmd → Bool
  | .deleteMessage seq => e.seq == seq && !e.tombstone
  | .purgeStream id => e.streamId == id && !e.tombstone
  | .drainSubject id subject => Journal.drained id subject e && (backend == .memory || !e.tombstone)
  | .deleteStream _ => false

namespace Journal

variable {j : Journal} {e : StoreEntry}

theorem OK.read_killing (h : j.OK) {p : StoreEntry → Bool} (he : j.read e.seq = some e) :
    (j.killing p).read e.seq = some e ↔ (p e = true → e.tombstone = true) := by
  rw [(h.killing p).read_eq_some_iff]
  constructor
  · rintro ⟨hmem, -⟩ hp
    -- what is read afterwards carries the tombstone
    obtain ⟨x, hx, hxe⟩ := mem_map.1 hmem
    have hxread : j.read e.seq = some x := h.read_eq_some_iff.2 ⟨hx, by rw [← hxe, killIf_seq]⟩
    obtain rfl : x = e := Option.some.inj (hxread.symm.trans he)
    rw [killIf, if_pos hp] at hxe
    rw [← hxe]
    exact StoreEntry.tombstone_kill
  · intro hp
    refine ⟨mem_map.2 ⟨e, (h.read_eq_some_iff.1 he).1, ?_⟩, rfl⟩
    unfold killIf
    split
    case isTrue hkill => exact StoreEntry.kill_of_tombstone (hp hkill)
    case isFalse => rfl

/-- **A command leaves an entry as it is exactly when it does not hit it.** -/
theorem OK.read_handleContent (h : j.OK) (backend : Backend) (cmd : ContentCmd) (he : j.read e.seq = some e) :
    (j.handleContent backend cmd).read e.seq = some e ↔ cmd.hits backend e = false := by
  cases cmd with
  | deleteMessage seq =>
    rw [handleContent, h.tombstoneAt_eq, h.read_killing he]
    simp [ContentCmd.hits]
  | purgeStream id =>
    rw [handleContent, h.tombstoneStream_eq, h.read_killing he]
    simp [ContentCmd.hits]
  | drainSubject id subject =>
    cases backend with
    | tolerant =>
      rw [handleContent, h.drain_tolerant, h.read_killing he]
      simp [ContentCmd.hits]
    | memory =>
      rw [handleContent, (h.drain .memory id subject).read_eq_some_iff]
      simp [ContentCmd.hits, Journal.drain, (h.read_eq_some_iff.1 he).1]
  | deleteStream id => exact iff_of_true he rfl

end Journal

/-- Only a `DeleteMessage` can hit an entry of another stream. -/
theorem ContentRequest.stream_of_hits {req : ContentRequest} {backend : Backend} {id : StreamId} {e : StoreEntry}
    (hhits : (req.command id).hits backend e = true) (hother : e.streamId ≠ id) :
    ∃ name, req = .deleteMessage name e.seq := by
  cases req with
  | deleteMessage name seq =>
    simp only [command, ContentCmd.hits, Bool.and_eq_true, beq_iff_eq] at hhits
    exact ⟨name, by rw [hhits.1]⟩
  | purgeStream => simp [command, ContentCmd.hits, hother] at hhits
  | drainSubject => simp [command, ContentCmd.hits, Journal.drained, hother] at hhits
  | deleteStream => cases hhits

namespace StreamBroker

variable {wireHash32 : WireHash} {b : StreamBroker} {req : ContentRequest} {id : StreamId}

/-- Does an entry belong to the stream of this name? A stream that was filed without a name, by
the replay of the command log, answers to every name of its hash. -/
def Belongs (wireHash32 : WireHash) (b : StreamBroker) (name : Bytes) (e : StoreEntry) : Prop :=
  b.names.streamSeq (wireHash32 name) = some e.streamId ∧
    ∀ filed, b.names.streamsNameByWire.lookup (wireHash32 name) = some filed → filed = name

/-- Every entry that belongs to another stream can still be read, as it was. -/
def Scoped (wireHash32 : WireHash) (b : StreamBroker) (req : ContentRequest) : Prop :=
  ∀ i e, (b.stores i).read e.seq = some e → ¬ b.Belongs wireHash32 req.name e →
    ((b.request wireHash32 req).stores i).read e.seq = some e

/-- Whatever is hit, the name filed under the hash, if there is one, is that of the request, and
a `DeleteMessage` hits an entry of the stream. -/
def Own (wireHash32 : WireHash) (b : StreamBroker) (req : ContentRequest) : Prop :=
  ∀ id e, b.names.streamSeq (wireHash32 req.name) = some id → (b.stores (b.shardFor id)).read e.seq = some e →
    (req.command id).hits b.backend e = true →
    (∀ filed, b.names.streamsNameByWire.lookup (wireHash32 req.name) = some filed → filed = req.name) ∧
      ∀ name seq, req = .deleteMessage name seq → e.streamId = id

theorem stores_request (hid : b.names.streamSeq (wireHash32 req.name) = some id) (i : ℕ) :
    (b.request wireHash32 req).stores i =
      if i = b.shardFor id then (b.stores i).handleContent b.backend (req.command id) else b.stores i := by
  unfold request
  rw [hid]
  by_cases hi : i = b.shardFor id
  · subst hi
    simp
  · simp [hi]

/-- **A request stays within its stream** exactly when what it hits is filed under its name or
under none, and it is not a `DeleteMessage` for the seq of another stream's entry. -/
theorem request_scoped_iff (wireHash32 : WireHash) (b : StreamBroker) (hstores : ∀ i, (b.stores i).OK)
    (req : ContentRequest) : b.Scoped wireHash32 req ↔ b.Own wireHash32 req := by
  unfold Scoped Own
  cases hid : b.names.streamSeq (wireHash32 req.name) with
  | none =>
    have hsame : b.request wireHash32 req = b := by
      unfold request
      rw [hid]
    rw [hsame]
    exact iff_of_true (fun i e he _ => he) nofun
  | some id =>
  have hbelongs : ∀ e, b.Belongs wireHash32 req.name e ↔ e.streamId = id ∧
      ∀ filed, b.names.streamsNameByWire.lookup (wireHash32 req.name) = some filed → filed = req.name := by
    intro e
    unfold Belongs
    rw [hid, Option.some_inj, eq_comm]
  constructor
  · rintro hscoped _ e ⟨⟩ he hhits
    have hin : b.Belongs wireHash32 req.name e := by
      by_contra hother
      have hafter := hscoped _ e he hother
      rw [stores_request hid, if_pos rfl, (hstores _).read_handleContent _ _ he, hhits] at hafter
      cases hafter
    obtain ⟨hstream, hfiled⟩ := (hbelongs e).1 hin
    exact ⟨hfiled, fun _ _ _ => hstream⟩
  · intro hown i e he hother
    rw [stores_request hid]
    split
    case isFalse => exact he
    case isTrue hi =>
    subst hi
    rw [(hstores _).read_handleContent _ _ he, Bool.eq_false_iff]
    intro hhits
    obtain ⟨hfiled, hdelete⟩ := hown id e rfl he hhits
    refine hother ((hbelongs e).2 ⟨?_, hfiled⟩)
    by_contra hne
    obtain ⟨name, hreq⟩ := ContentRequest.stream_of_hits hhits hne
    exact hne (hdelete name e.seq hreq)

/-! ## Two streams on one shard -/

namespace TwoStreams

/-- Streams `a` (id 0) and `b` (id 1) of a broker with one shard; one message in each. -/
def broker (backend : Backend) : StreamBroker where
  names :=
    { streamsByWire := ((∅ : Map SubjectHash StreamId).insert 97 0).insert 98 1
      streamsNameByWire := ((∅ : Map SubjectHash Bytes).insert 97 ([97] : Bytes)).insert 98 ([98] : Bytes)
      streamPool := { nextSlot := 2, generations := [0, 0], maxSlots := maxSlotCount } }
  shardCount := 1
  backend := backend
  stores := fun _ => (({} : Journal).append ⟨0, [120], [1], 0⟩ 5).append ⟨1, [120], [2], 0⟩ 5

theorem broker_stores_ok (backend : Backend) (i : ℕ) : ((broker backend).stores i).OK :=
  (Journal.ok_new.append _ _).append _ _

/-- Deleting the first message of `a` leaves `b` alone. -/
theorem delete_own_scoped : (broker .memory).Scoped sampleHash (.deleteMessage [97] 1) := by
  refine (request_scoped_iff sampleHash _ (broker_stores_ok .memory) _).2 ?_
  rintro _ e ⟨⟩ he hhits
  have hseq : e.seq = 1 := by simpa [ContentRequest.command, ContentCmd.hits] using (Bool.and_eq_true_iff.1 hhits).1
  rw [hseq] at he
  cases he
  exact ⟨fun _ hfiled => (Option.some.inj hfiled).symm, fun _ _ _ => rfl⟩

/-- **A `DeleteMessage` for `a` deletes the message of `b`**, on both back ends. -/
theorem delete_other_not_scoped :
    ¬ (broker .memory).Scoped sampleHash (.deleteMessage [97] 2) ∧
      ¬ (broker .tolerant).Scoped sampleHash (.deleteMessage [97] 2) := by
  refine ⟨fun hscoped => ?_, fun hscoped => ?_⟩
  · cases hscoped 0 ⟨2, 1, 5, [120], [2], 0⟩ rfl (by rintro ⟨hid, -⟩; cases hid)
  · cases hscoped 0 ⟨2, 1, 5, [120], [2], 0⟩ rfl (by rintro ⟨hid, -⟩; cases hid)

end TwoStreams

end StreamBroker

end Arbitro
