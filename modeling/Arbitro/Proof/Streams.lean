import Arbitro.Proof.Content
import Arbitro.Proof.Lifecycle
import Arbitro.Server.Streams

/-!
# Requests act on the stream they name

* `StreamBroker.Kept`: a stream is filed under the hash of its name.
* `StreamBroker.removed_for_good`: what is removed stays removed.
* `StreamBroker.handle_faithful_iff`: a request acts on the stream registered under its name
  alone, and on nothing if there is none, exactly when no other name is registered under the
  hash, and a `DeleteMessage` does not have the seq of another stream's entry.
* `StreamBroker.Collision.deletes_other`: with two names of one hash, the stream of the one is
  deleted by a request for the other.
-/

namespace Arbitro

open List

variable {j : Journal}

theorem Journal.OK.handleContent (h : j.OK) (backend : Backend) (cmd : ContentCmd) :
    (j.handleContent backend cmd).OK := by
  cases cmd with
  | deleteMessage seq =>
    show (j.tombstoneAt seq).1.OK
    rw [h.tombstoneAt_eq]
    exact h.killing _
  | purgeStream id =>
    show (j.tombstoneStream backend id).OK
    rw [h.tombstoneStream_eq]
    exact h.killing _
  | drainSubject id subject => exact h.drain backend id subject
  | deleteStream id => exact h

namespace StreamBroker

variable {wh : WireHash} {b : StreamBroker} {id : StreamId} {req : StreamRequest} (reqSeq : ℕ)

/-- The stream is registered under exactly this name. -/
def Registered (b : StreamBroker) (name : Bytes) (id : StreamId) : Prop :=
  ∃ wire, b.names.streamsByWire.lookup wire = some id ∧ b.names.streamsNameByWire.lookup wire = some name

/-- A stream has lost its registration, or an entry of it is gone or changed. -/
def ActedOn (b b' : StreamBroker) (id : StreamId) : Prop :=
  (∃ wire, b.names.streamsByWire.lookup wire = some id ∧ b'.names.streamsByWire.lookup wire ≠ some id) ∨
    ∃ i e, (b.stores i).read e.seq = some e ∧ e.streamId = id ∧ (b'.stores i).read e.seq ≠ some e

/-- A request acts on streams of its name only; if there is none, it is answered with an error
and changes nothing. -/
def Faithful (wh : WireHash) (b : StreamBroker) (reqSeq : ℕ) (req : StreamRequest) : Prop :=
  (∀ id, ActedOn b (b.handle wh reqSeq req).1 id → b.Registered req.name id) ∧
    ((∀ id, ¬ b.Registered req.name id) → b.handle wh reqSeq req = (b, .streamNotFound))

/-- A `DeleteMessage` finds an entry of its stream, or one that is tombstoned, or none. -/
def Owns (wh : WireHash) (b : StreamBroker) : StreamRequest → Prop
  | .content (.deleteMessage name seq) => ∀ id e, b.names.streamSeq (wh name) = some id →
      (b.stores (b.shardFor id)).read seq = some e → e.streamId = id ∨ e.tombstone = true
  | _ => True

/-! ## The registry -/

/-- Streams have ids of their own and are filed under the hash of their name. -/
structure Kept (wh : WireHash) (b : StreamBroker) : Prop where
  names : b.names.OK
  filed : ∀ wire name, b.names.streamsNameByWire.lookup wire = some name → wh name = wire
  stores : ∀ i, (b.stores i).OK

theorem Kept.registered_iff (h : b.Kept wh) {name : Bytes} :
    b.Registered name id ↔ b.names.streamSeq (wh name) = some id ∧
      b.names.streamsNameByWire.lookup (wh name) = some name := by
  constructor
  · rintro ⟨wire, hid, hname⟩
    obtain rfl := h.filed wire name hname
    exact ⟨hid, hname⟩
  · rintro ⟨hid, hname⟩
    exact ⟨wh name, hid, hname⟩

theorem handle_none (hid : b.names.streamSeq (wh req.name) = none) : b.handle wh reqSeq req = (b, .streamNotFound) := by
  unfold handle
  rw [hid]

/-- **What a request changes**: a `DeleteStream` the registry, any other a journal. -/
theorem handle_some (hid : b.names.streamSeq (wh req.name) = some id) :
    (∃ name, req = .content (.deleteStream name) ∧
        (b.handle wh reqSeq req).1 = { b with names := b.names.removeStream (wh name) }) ∨
      (∃ creq, req = .content creq ∧ (b.handle wh reqSeq req).1.names = b.names ∧
        ∀ i, (b.handle wh reqSeq req).1.stores i = if i = b.shardFor id then
          (b.stores i).handleContent b.backend (creq.command id) else b.stores i) ∨
      ((∃ name, req = .getStream name) ∧ (b.handle wh reqSeq req).1 = b) := by
  unfold handle
  rw [hid]
  cases req with
  | getStream name => exact .inr (.inr ⟨⟨name, rfl⟩, rfl⟩)
  | content creq =>
    have hid' : b.names.streamSeq (wh creq.name) = some id := hid
    have hwhere := stores_request hid'
    cases creq with
    | deleteStream name =>
      refine .inl ⟨name, rfl, ?_⟩
      simp only [request, hid', ContentRequest.command, Journal.handleContent, Function.update_eq_self]
    | deleteMessage | purgeStream | drainSubject =>
      refine .inr (.inl ⟨_, rfl, ?_, hwhere⟩)
      simp only [request, hid']

theorem Kept.handle (h : b.Kept wh) (reqSeq : ℕ) (req : StreamRequest) : (b.handle wh reqSeq req).1.Kept wh := by
  cases hid : b.names.streamSeq (wh req.name) with
  | none =>
    rw [handle_none reqSeq hid]
    exact h
  | some id =>
    rcases handle_some reqSeq hid with ⟨name, rfl, heq⟩ | ⟨creq, rfl, hnames, hstores⟩ | ⟨-, heq⟩
    · have hid' : b.names.streamsByWire.lookup (wh name) = some id := hid
      rw [heq]
      refine ⟨h.names.removeStream hid', fun wire n hn => ?_, h.stores⟩
      have hn' : (b.names.removeStream (wh name)).streamsNameByWire.lookup wire = some n := hn
      unfold StreamRegistry.removeStream at hn'
      rw [hid'] at hn'
      exact h.filed wire n (Map.of_lookup_erase hn').2
    · refine ⟨by rw [hnames]; exact h.names, by rw [hnames]; exact h.filed, fun i => ?_⟩
      rw [hstores]
      split
      · exact (h.stores i).handleContent _ _
      · exact h.stores i
    · rw [heq]
      exact h

theorem Kept.step (h : b.Kept wh) (a : Action) : (b.step wh a).Kept wh := by
  cases a with
  | createStream name admitted =>
    cases hc : b.names.getOrCreateStreamChecked (wh name) name admitted with
    | none =>
      simp only [StreamBroker.step, hc]
      exact h
    | some x =>
      obtain ⟨id, created, names⟩ := x
      simp only [StreamBroker.step, hc]
      refine ⟨?_, fun wire n hn => ?_, h.stores⟩
      · rcases StreamRegistry.checked_cases h.names hc with ⟨-, rfl, -⟩ | ⟨-, hadds⟩
        · exact h.names
        · exact hadds.ok
      have hn' : names.streamsNameByWire.lookup wire = some n := hn
      rcases StreamRegistry.checked_eq_some hc with ⟨-, rfl, -⟩ | ⟨-, -, -, g, pool, -, rfl⟩
      · exact h.filed wire n hn'
      rcases Map.of_lookup_insert hn' with ⟨rfl, rfl⟩ | ⟨-, hn'⟩
      · rfl
      · exact h.filed wire n hn'
  | publish wire subject payload flags timestamp =>
    cases hid : b.names.streamSeq wire with
    | none =>
      simp only [StreamBroker.step, hid]
      exact h
    | some id =>
      simp only [StreamBroker.step, hid]
      refine ⟨h.names, h.filed, (Function.forall_update_iff _ fun _ => Journal.OK).2 ⟨?_, fun i _ => h.stores i⟩⟩
      exact (h.stores _).append _ _
  | request reqSeq req => exact h.handle reqSeq req

theorem kept_run (wh : WireHash) (shardCount : ℕ) (backend : Backend) (actions : List Action) :
    (run wh shardCount backend actions).Kept wh := by
  unfold run
  induction actions using reverseRecOn with
  | nil =>
    refine ⟨⟨by rintro w w' id ⟨⟩, ⟨by rintro s ⟨w, ⟨⟩⟩, by simp, nodup_nil, rfl, Nat.zero_le _⟩, rfl⟩, ?_,
      fun _ => Journal.ok_new⟩
    rintro wire name ⟨⟩
  | append_singleton actions a ih =>
    rw [foldl_append]
    exact ih.step a

/-! ## Removed entries -/

/-- Every live entry of the first journal is one of the second, or has come since. -/
structure Succeeds (j' j : Journal) : Prop where
  next : j.nextSeq ≤ j'.nextSeq
  live : ∀ e ∈ j'.index, e.tombstone = false → e ∈ j.index ∨ j.nextSeq ≤ e.seq

theorem Succeeds.refl : Succeeds j j := ⟨le_rfl, fun _ he _ => .inl he⟩

theorem succeeds_killing (p : StoreEntry → Bool) : Succeeds (j.killing p) j := by
  refine ⟨le_rfl, fun e he hlive => .inl ?_⟩
  obtain ⟨x, hx, rfl⟩ := mem_map.1 he
  unfold Journal.killIf at hlive ⊢
  by_cases hp : p x
  · rw [if_pos hp, StoreEntry.tombstone_kill] at hlive
    cases hlive
  · rwa [if_neg hp]

theorem succeeds_handleContent (h : j.OK) (backend : Backend) (cmd : ContentCmd) :
    Succeeds (j.handleContent backend cmd) j := by
  cases cmd with
  | deleteMessage => simpa only [Journal.handleContent, h.tombstoneAt_eq] using succeeds_killing _
  | purgeStream => simpa only [Journal.handleContent, h.tombstoneStream_eq] using succeeds_killing _
  | drainSubject =>
    cases backend with
    | tolerant => simpa only [Journal.handleContent, h.drain_tolerant] using succeeds_killing _
    | memory => exact ⟨le_rfl, fun e he _ => .inl (mem_filter.1 he).1⟩
  | deleteStream => exact .refl

/-- **What is removed stays removed**: after any further actions, a live entry was there before,
unchanged, or was published since. -/
theorem removed_for_good (wh : WireHash) (shardCount : ℕ) (backend : Backend) (actions more : List Action) (i : ℕ) :
    Succeeds ((run wh shardCount backend (actions ++ more)).stores i) ((run wh shardCount backend actions).stores i) := by
  rw [run, foldl_append]
  refine (foldlRecOn more _ (motive := fun b : StreamBroker => b.Kept wh ∧ Succeeds (b.stores i) _)
    ⟨kept_run wh shardCount backend actions, .refl⟩ fun b ⟨h, hs⟩ a _ => ⟨h.step a, ?_⟩).2
  suffices hone : Succeeds ((b.step wh a).stores i) (b.stores i) from
    ⟨hs.next.trans hone.next, fun e he hlive => (hone.live e he hlive).elim (hs.live e · hlive) (.inr <| hs.next.trans ·)⟩
  cases a with
  | createStream =>
    simp only [step]
    split <;> exact .refl
  | publish =>
    simp only [step]
    split
    · exact .refl
    · refine (Function.forall_update_iff b.stores fun i j => Succeeds j (b.stores i)).2 ⟨⟨Nat.le_succ _, ?_⟩, fun _ _ => .refl⟩ i
      exact fun e he _ => (mem_append.1 he).imp_right fun he => (congrArg StoreEntry.seq (mem_singleton.1 he)).ge
  | request reqSeq req =>
    simp only [step]
    cases hid : b.names.streamSeq (wh req.name) with
    | none => exact handle_none reqSeq hid ▸ .refl
    | some id =>
      rcases handle_some reqSeq hid with ⟨_, -, heq⟩ | ⟨_, -, -, hstores⟩ | ⟨-, heq⟩
      · exact heq ▸ .refl
      · rw [hstores]
        split
        · exact succeeds_handleContent (h.stores i) _ _
        · exact .refl
      · rw [heq]
        exact .refl

/-! ## Requests -/

/-- Under its own name, a request leaves all other streams alone. -/
theorem Kept.acted_on (h : b.Kept wh) {reqSeq : ℕ}
    (hid : b.names.streamSeq (wh req.name) = some id) (howns : b.Owns wh req) {x : StreamId}
    (hx : ActedOn b (b.handle wh reqSeq req).1 x) : x = id := by
  rcases handle_some reqSeq hid with ⟨name, rfl, heq⟩ | ⟨creq, rfl, hnames, hstores⟩ | ⟨-, heq⟩
  · rw [heq] at hx
    rcases hx with ⟨wire, hl, hgone⟩ | ⟨i, e, he, -, hchanged⟩
    · have hgone' : (b.names.removeStream (wh name)).streamsByWire.lookup wire ≠ some x := hgone
      rw [StreamRegistry.lookup_removeStream] at hgone'
      split at hgone'
      case isTrue hwire =>
        rw [hwire] at hl
        exact Option.some.inj (hl.symm.trans hid)
      · exact absurd hl hgone'
    · exact absurd he hchanged
  · rcases hx with ⟨wire, hl, hgone⟩ | ⟨i, e, he, rfl, hchanged⟩
    · rw [hnames] at hgone
      exact absurd hl hgone
    by_contra hne
    apply hchanged
    rw [hstores]
    split
    case isFalse => exact he
    case isTrue hi =>
    subst hi
    rw [(h.stores _).read_handleContent _ _ he, Bool.eq_false_iff]
    intro hhits
    obtain ⟨name, rfl⟩ := ContentRequest.stream_of_hits hhits hne
    have hlive : e.tombstone = false := by simpa [ContentRequest.command, ContentCmd.hits] using hhits
    exact Bool.false_ne_true (hlive.symm.trans ((howns id e hid he).resolve_left hne))
  · rw [heq] at hx
    rcases hx with ⟨wire, hl, hgone⟩ | ⟨i, e, he, -, hchanged⟩
    · exact absurd hl hgone
    · exact absurd he hchanged

/-- If a request is faithful, the seq of a `DeleteMessage` is that of an entry of its stream. -/
theorem Kept.owns (h : b.Kept wh) {reqSeq : ℕ} (hf : b.Faithful wh reqSeq req) : b.Owns wh req := by
  cases req with
  | getStream name => trivial
  | content creq =>
    cases creq with
    | purgeStream name => trivial
    | drainSubject name subject => trivial
    | deleteStream name => trivial
    | deleteMessage name seq =>
      intro id e hid he
      have hid' : b.names.streamSeq (wh (StreamRequest.content (.deleteMessage name seq)).name) = some id := hid
      obtain ⟨-, hseq⟩ := (h.stores _).read_eq_some_iff.1 he
      have he' : (b.stores (b.shardFor id)).read e.seq = some e := by
        rw [hseq]
        exact he
      by_cases hown : e.streamId = id
      · exact .inl hown
      right
      by_contra hlive
      -- the entry gets a tombstone, so its stream is acted on and must be the one named
      have hchanged : ActedOn b (b.handle wh reqSeq (.content (.deleteMessage name seq))).1 e.streamId := by
        refine .inr ⟨b.shardFor id, e, he', rfl, fun hafter => hlive ?_⟩
        rcases handle_some reqSeq hid' with ⟨n, hreq, -⟩ | ⟨creq, hreq, -, hstores⟩ | ⟨⟨n, hreq⟩, -⟩
        · cases hreq
        · cases hreq
          rw [hstores, if_pos rfl] at hafter
          rw [(h.stores _).read_handleContent _ _ he'] at hafter
          simpa [ContentRequest.command, ContentCmd.hits, hseq] using hafter
        · cases hreq
      have hreg := h.registered_iff.1 (hf.1 e.streamId hchanged)
      exact hown (Option.some.inj (hreg.1.symm.trans hid'))

/-- **A request acts on the stream registered under its name and on no other** exactly when no
other name is registered under its hash, and it is not a `DeleteMessage` for another stream's
entry. In every state that requests lead to, for every hash function. -/
theorem handle_faithful_iff (wh : WireHash) (shardCount : ℕ) (backend : Backend) (actions : List Action) (reqSeq : ℕ)
    (req : StreamRequest) :
    (run wh shardCount backend actions).Faithful wh reqSeq req ↔
      (∀ id, (run wh shardCount backend actions).names.streamSeq (wh req.name) = some id →
        (run wh shardCount backend actions).names.streamsNameByWire.lookup (wh req.name) = some req.name) ∧
      (run wh shardCount backend actions).Owns wh req := by
  have h := kept_run wh shardCount backend actions
  set b := run wh shardCount backend actions
  constructor
  · intro hf
    refine ⟨fun id hid => ?_, h.owns hf⟩
    by_contra hname
    have hnone : ∀ x, ¬ b.Registered req.name x := fun x hx => hname (h.registered_iff.1 hx).2
    have hreply := congrArg Prod.snd (hf.2 hnone)
    unfold handle at hreply
    rw [hid] at hreply
    cases hreply
  rintro ⟨hname, howns⟩
  cases hid : b.names.streamSeq (wh req.name) with
  | none =>
    have hsame := handle_none reqSeq hid
    refine ⟨fun x hx => ?_, fun _ => hsame⟩
    rw [hsame] at hx
    rcases hx with ⟨wire, hl, hgone⟩ | ⟨i, e, he, -, hchanged⟩
    · exact absurd hl hgone
    · exact absurd he hchanged
  | some id =>
    have hreg : b.Registered req.name id := h.registered_iff.2 ⟨hid, hname id hid⟩
    refine ⟨fun x hx => ?_, fun hnone => absurd hreg (hnone id)⟩
    rw [h.acted_on hid howns hx]
    exact hreg

namespace Collision

/-- One hash for all names. -/
def hash : WireHash := fun _ => 0

/-- **A request for a stream that is not there deletes another one**: the names `a` and `b`
have one hash, and only `a` is registered. -/
theorem deletes_other :
    let b := run hash 1 .memory [.createStream [97] true]
    (b.names.streamsByWire.lookup 0 = some 0 ∧ b.names.streamsNameByWire.lookup 0 = some [97]) ∧
      (b.handle hash 7 (.content (.deleteStream [98]))).2 = .repOk 7 ∧
      (b.handle hash 7 (.content (.deleteStream [98]))).1.names.streamsByWire.lookup 0 = none ∧
      ¬ b.Faithful hash 7 (.content (.deleteStream [98])) := by
  refine ⟨⟨by decide +kernel, by decide +kernel⟩, by decide +kernel, by decide +kernel, fun hf => ?_⟩
  have hreg := hf.1 0 (.inl ⟨0, by decide +kernel, by decide +kernel⟩)
  obtain ⟨-, hname⟩ := (kept_run hash 1 .memory [.createStream [97] true]).registered_iff.1 hreg
  revert hname
  decide +kernel

end Collision

end StreamBroker

end Arbitro
