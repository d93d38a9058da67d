import Arbitro.Lib.Numbered
import Arbitro.Lib.Run
import Arbitro.Cluster.ApplyLoop

/-!
# The apply loop keeps to the committed log

* `tick_eq`: a tick in terms of the log: all of the backlog is applied at once, or none of it.
* `Follower.InStep`: what has been handed to the state machine is the log up to the last entry
  applied, which is never beyond the commit index.
* `Follower.caught_up_iff`: left alone, the loop catches up if and only if the payloads of the backlog
  together fit the largest buffer.
-/

namespace Arbitro.RaftLog

open Follower List Nat Storage ApplyLoop

variable {C : Type} {decode : Bytes → Option C} {log : List LogEntry} {s : Storage}

/-! ## Reading a range -/

/-- The indexes are those from one on. -/
def Contiguous (log : List LogEntry) : Prop := Numbered (fun e : LogEntry => e.index.toNat) 1 log

/-- The bytes of payload in some entries. -/
def payloadBytes (es : List LogEntry) : ℕ := (es.map (·.payload.length)).sum

@[simp] theorem payloadBytes_cons {e : LogEntry} {es : List LogEntry} :
    payloadBytes (e :: es) = e.payload.length + payloadBytes es := rfl

theorem fill_eq (bufLen : ℕ) (es : List LogEntry) (offset : ℕ) : offset ≤ bufLen →
    fill bufLen offset es = if offset + payloadBytes es ≤ bufLen then .ok es
      else .error (.storage "payload_buf too small") := by
  induction es generalizing offset with
  | nil => intro h; simp [fill, payloadBytes, h]
  | cons e es ih =>
    intro _
    unfold fill
    by_cases hfit : bufLen < offset + e.payload.length
    · rw [if_pos hfit, if_neg (by rw [payloadBytes_cons]; omega)]
    · rw [if_neg hfit, ih _ (by omega), payloadBytes_cons, ← add_assoc]
      by_cases hall : offset + e.payload.length + payloadBytes es ≤ bufLen
      · simp only [if_pos hall]
      · simp only [if_neg hall]

theorem Storage.readEntries_eq (h : Contiguous s.log) {a b bufLen : ℕ} :
    s.readEntries (a + 1) (b + 1) bufLen =
      if payloadBytes ((s.log.take b).drop a) ≤ bufLen then .ok ((s.log.take b).drop a)
      else .error (.storage "payload_buf too small") := by
  have hrange := Numbered.range_eq h a b
  rw [add_comm 1 a, add_comm 1 b] at hrange
  unfold readEntries
  rw [hrange, fill_eq _ _ 0 (zero_le _), zero_add]

theorem Storage.lastLogPosition_eq (h : Contiguous s.log) : s.lastLogPosition.1.toNat = s.log.length := by
  unfold lastLogPosition
  cases hlast : s.entries.getLast? with
  | none =>
    have hnil : s.entries = [] := getLast?_eq_none_iff.1 hlast
    simp [log, hnil]
  | some e =>
    have hlog : s.log.getLast? = some e.toLogEntry := by rw [log, getLast?_map, hlast, Option.map_some]
    have := Numbered.getLast h hlog
    simp only
    omega

/-! ## A tick -/

namespace ApplyLoop

variable {a : ApplyLoop C} {committed : ℕ}

/-- The loop behind entries that follow the last one applied. -/
def handing (decode : Bytes → Option C) (a : ApplyLoop C) (es : List LogEntry) : ApplyLoop C :=
  { a with
    machine := es.foldl (fun m e => m.apply decode e.payload) a.machine
    lastApplied := a.lastApplied + es.length
    handed := a.handed ++ es }

theorem foldl_applyEntry {es : List LogEntry} {applyUpper : ℕ} (a : ApplyLoop C)
    (hnum : Numbered (fun e : LogEntry => e.index.toNat) (a.lastApplied + 1) es)
    (hle : a.lastApplied + es.length ≤ applyUpper) :
    es.foldl (applyEntry decode applyUpper) a = a.handing decode es := by
  induction es generalizing a with
  | nil => simp [handing]
  | cons e es ih =>
    rw [length_cons] at hle
    have hidx : e.index.toNat = a.lastApplied + 1 := hnum.1
    have hone : applyEntry decode applyUpper a e = a.handing decode [e] := by
      unfold applyEntry
      rw [if_pos (by omega), handing, hidx]
      rfl
    have hlast : (a.handing decode [e]).lastApplied = a.lastApplied + 1 := rfl
    rw [foldl_cons, hone, ih (a.handing decode [e]) (by rw [hlast]; exact hnum.2) (by omega)]
    simp only [handing, foldl_cons, foldl_nil, length_cons, length_nil, append_assoc,
      cons_append, nil_append, mk.injEq, and_true]
    omega

/-- The buffer behind a read that did not fit. -/
def grown (a : ApplyLoop C) : ApplyLoop C :=
  if a.payloadBuf < payloadBufMax then { a with payloadBuf := min (a.payloadBuf * 2) payloadBufMax } else a

/-- **A tick applies all of the backlog or none of it.** -/
theorem tick_eq (h : Contiguous s.log) :
    a.tick decode s committed =
      let due := min committed s.log.length
      let backlog := (s.log.take due).drop a.lastApplied
      if due ≤ a.lastApplied then a
      else if payloadBytes backlog ≤ a.payloadBuf then a.handing decode backlog
      else a.grown := by
  unfold tick
  simp only [lastLogPosition_eq h]
  by_cases hc : committed ≤ a.lastApplied
  · rw [if_pos hc, if_pos (by omega)]
  rw [if_neg hc]
  by_cases hdue : min committed s.log.length ≤ a.lastApplied
  · rw [if_pos hdue, if_pos hdue]
  rw [if_neg hdue, if_neg hdue, readEntries_eq h]
  by_cases hfit : payloadBytes ((s.log.take (min committed s.log.length)).drop a.lastApplied) ≤ a.payloadBuf
  · simp only [if_pos hfit]
    have hlen : ((s.log.take (min committed s.log.length)).drop a.lastApplied).length =
        min committed s.log.length - a.lastApplied := by
      rw [length_drop, length_take]
      omega
    apply foldl_applyEntry
    · rw [add_comm]
      exact (h.take _).drop (by rw [length_take]; omega)
    · omega
  · simp only [if_neg hfit]
    rfl

/-! ### What the loop has done -/

/-- The state machine has seen what was handed to it. -/
def Tracks (decode : Bytes → Option C) (a : ApplyLoop C) : Prop :=
  a.machine.applied = a.handed.filterMap (fun e => decode e.payload) ∧ a.machine.sent = a.machine.applied

theorem foldl_apply {es : List LogEntry} : ∀ m : StateMachine C, m.sent = m.applied →
    let m' := es.foldl (fun m e => m.apply decode e.payload) m
    m'.applied = m.applied ++ es.filterMap (fun e => decode e.payload) ∧ m'.sent = m'.applied := by
  induction es with
  | nil => intro m h; simp [h]
  | cons e es ih =>
    intro m h
    cases he : decode e.payload with
    | none =>
      have hm : m.apply decode e.payload = m := by rw [StateMachine.apply, he]
      simpa [hm, he] using ih m h
    | some cmd =>
      have hm : m.apply decode e.payload = ⟨m.applied ++ [cmd], m.sent ++ [cmd]⟩ := by rw [StateMachine.apply, he]
      simpa [hm, he] using ih ⟨m.applied ++ [cmd], m.sent ++ [cmd]⟩ (by simp [h])

theorem Tracks.handing (h : Tracks decode a) (es : List LogEntry) : Tracks decode (a.handing decode es) := by
  obtain ⟨happlied, hsent⟩ := foldl_apply a.machine h.2
  refine ⟨?_, hsent⟩
  show _ = (a.handed ++ es).filterMap _
  rw [filterMap_append, ← h.1]
  exact happlied

end ApplyLoop

namespace Follower

variable {w : Follower C} (k : ℕ)

/-! ## Runs -/

/-- The position of the last entry that is both committed and stored. -/
def due (w : Follower C) : ℕ := min w.committed w.storage.log.length

/-- The entries that remain to be applied. -/
def backlog (w : Follower C) : List LogEntry := (w.storage.log.take w.due).drop w.loop.lastApplied

/-- What Raft guarantees: the log is contiguous, its committed part is never changed, and the commit index never
goes back while the process runs. -/
def OK (w : Follower C) : FollowerAction → Prop
  | .store s => Contiguous s.log ∧ w.storage.log.take w.committed <+: s.log
  | .commit index => w.committed ≤ index
  | .tick | .restart => True

/-- **The loop has applied the log up to its position, each entry once and in order.** -/
structure InStep (decode : Bytes → Option C) (w : Follower C) : Prop where
  contiguous : Contiguous w.storage.log
  applied_le : w.loop.lastApplied ≤ w.due
  handed : w.loop.handed = w.storage.log.take w.loop.lastApplied
  tracks : w.loop.Tracks decode
  buf_ge : 64 * 1024 ≤ w.loop.payloadBuf
  buf_le : w.loop.payloadBuf ≤ payloadBufMax

theorem InStep.start (h : Contiguous s.log) (committed : ℕ) :
    InStep decode { storage := s, committed := committed } where
  contiguous := h
  applied_le := zero_le _
  handed := rfl
  tracks := ⟨rfl, rfl⟩
  buf_ge := le_rfl
  buf_le := by show 64 * 1024 ≤ payloadBufMax; unfold payloadBufMax; omega

theorem InStep.store (h : InStep decode w) (hs : Contiguous s.log)
    (hcommitted : w.storage.log.take w.committed <+: s.log) : InStep decode { w with storage := s } := by
  have hle := h.applied_le
  unfold due at hle
  have hlen := hcommitted.length_le
  rw [length_take] at hlen
  refine ⟨hs, ?_, ?_, h.tracks, h.buf_ge, h.buf_le⟩
  · show w.loop.lastApplied ≤ min w.committed s.log.length
    omega
  -- what has been applied lies in the committed part, which both logs begin with
  obtain ⟨rest, hrest⟩ := hcommitted
  show w.loop.handed = s.log.take w.loop.lastApplied
  rw [h.handed, ← hrest, take_append_of_le_length (by rw [length_take]; omega), take_take,
    min_eq_left (by omega)]

theorem InStep.commit (h : InStep decode w) {index : ℕ} (hle : w.committed ≤ index) :
    InStep decode { w with committed := index } := by
  refine ⟨h.contiguous, ?_, h.handed, h.tracks, h.buf_ge, h.buf_le⟩
  have := h.applied_le
  show w.loop.lastApplied ≤ min index w.storage.log.length
  unfold due at this
  omega

theorem InStep.tick_cases (h : InStep decode w) :
    let w' := w.step decode .tick
    (w.due = w.loop.lastApplied ∧ w' = w) ∨
    (payloadBytes w.backlog ≤ w.loop.payloadBuf ∧ w' = { w with loop := w.loop.handing decode w.backlog }) ∨
    (w.loop.lastApplied < w.due ∧ w.loop.payloadBuf < payloadBytes w.backlog ∧
      w' = { w with loop := w.loop.grown }) := by
  have hle := h.applied_le
  have hloop : w.loop.tick decode w.storage w.committed =
      if w.due ≤ w.loop.lastApplied then w.loop
      else if payloadBytes w.backlog ≤ w.loop.payloadBuf then w.loop.handing decode w.backlog
      else w.loop.grown := tick_eq h.contiguous
  have htick := congrArg (Follower.mk w.storage w.committed) hloop
  change w.step decode .tick = _ at htick
  by_cases hdue : w.due ≤ w.loop.lastApplied
  · refine .inl ⟨by omega, ?_⟩
    rw [htick, if_pos hdue]
  by_cases hfit : payloadBytes w.backlog ≤ w.loop.payloadBuf
  · refine .inr (.inl ⟨hfit, ?_⟩)
    rw [htick, if_neg hdue, if_pos hfit]
  · refine .inr (.inr ⟨by omega, by omega, ?_⟩)
    rw [htick, if_neg hdue, if_neg hfit]

theorem length_backlog : w.backlog.length = w.due - w.loop.lastApplied := by
  unfold backlog due
  rw [length_drop, length_take]
  omega

theorem InStep.handing_lastApplied (h : InStep decode w) : (w.loop.handing decode w.backlog).lastApplied = w.due := by
  have hle := h.applied_le
  show w.loop.lastApplied + w.backlog.length = w.due
  rw [length_backlog]
  omega

theorem InStep.tick (h : InStep decode w) : InStep decode (w.step decode .tick) := by
  rcases h.tick_cases with ⟨-, heq⟩ | ⟨-, heq⟩ | ⟨-, -, heq⟩ <;> rw [heq]
  · exact h
  · refine ⟨h.contiguous, h.handing_lastApplied.le, ?_, h.tracks.handing w.backlog, h.buf_ge, h.buf_le⟩
    have hsplit := take_append_drop w.loop.lastApplied (w.storage.log.take w.due)
    rw [take_take, min_eq_left h.applied_le] at hsplit
    show w.loop.handed ++ w.backlog = w.storage.log.take (w.loop.handing decode w.backlog).lastApplied
    rw [h.handing_lastApplied, h.handed]
    exact hsplit
  have hge := h.buf_ge
  unfold grown
  split
  · refine ⟨h.contiguous, h.applied_le, h.handed, h.tracks, ?_, min_le_right _ _⟩
    show 64 * 1024 ≤ min (w.loop.payloadBuf * 2) payloadBufMax
    omega
  · exact h

theorem InStep.step (w : Follower C) (a : FollowerAction) (h : InStep decode w) (hok : w.OK a) :
    InStep decode (w.step decode a) := by
  cases a with
  | store s => exact h.store hok.1 hok.2
  | commit index => exact h.commit hok
  | tick => exact h.tick
  | restart => exact .start h.contiguous 0

/-! ## Catching up -/

/-- The follower after some ticks with nothing else going on. -/
def ticks (decode : Bytes → Option C) : ℕ → Follower C → Follower C
  | 0, w => w
  | k + 1, w => ticks decode k (w.step decode .tick)

theorem backlog_of_caught_up (hdue : w.loop.lastApplied = w.due) : w.backlog = [] := by
  apply length_eq_zero_iff.1
  rw [length_backlog, hdue, Nat.sub_self]

theorem ticks_of_caught_up (h : InStep decode w) (hdue : w.loop.lastApplied = w.due) : ∀ k, ticks decode k w = w
  | 0 => rfl
  | k + 1 => by
    have heq : w.step decode .tick = w := by
      rcases h.tick_cases with ⟨-, heq⟩ | ⟨-, heq⟩ | ⟨hlt, -⟩
      · exact heq
      · rw [heq, backlog_of_caught_up hdue]
        simp [handing]
      · omega
    rw [ticks, heq, ticks_of_caught_up h hdue k]

theorem backlog_grown : ({ w with loop := w.loop.grown } : Follower C).backlog = w.backlog := by
  unfold grown
  split <;> rfl

theorem lastApplied_grown {a : ApplyLoop C} : a.grown.lastApplied = a.lastApplied := by
  unfold grown
  split <;> rfl

theorem InStep.caught_up (h : InStep decode w) (hfit : payloadBytes w.backlog ≤ payloadBufMax)
    (hbuf : payloadBufMax ≤ w.loop.payloadBuf * 2 ^ k) : (ticks decode (k + 1) w).loop.lastApplied = w.due := by
  induction k generalizing w with
  | zero =>
    show (w.step decode .tick).loop.lastApplied = w.due
    rcases h.tick_cases with ⟨hdue, heq⟩ | ⟨-, heq⟩ | ⟨-, hlt, -⟩
    · rw [heq, hdue]
    · rw [heq]
      exact h.handing_lastApplied
    · omega
  | succ k ih =>
    have hnext : (w.step decode .tick).due = w.due := rfl
    rw [ticks, ← hnext]
    rcases h.tick_cases with ⟨hdue, heq⟩ | ⟨-, heq⟩ | ⟨-, -, heq⟩
    · rw [ticks_of_caught_up h.tick (by rw [heq, hdue])]
      rw [heq, hdue]
    · have hdone : (w.step decode .tick).loop.lastApplied = (w.step decode .tick).due := by
        rw [hnext, heq]
        exact h.handing_lastApplied
      rw [ticks_of_caught_up h.tick hdone, hdone]
    apply ih h.tick
    · rwa [heq, backlog_grown]
    -- the doubling of the buffer uses up one factor of two
    rw [heq]
    have hpos : 0 < 2 ^ k := Nat.two_pow_pos k
    rw [Nat.pow_succ', ← Nat.mul_assoc] at hbuf
    unfold grown
    split
    · show payloadBufMax ≤ min (w.loop.payloadBuf * 2) payloadBufMax * 2 ^ k
      rcases min_choice (w.loop.payloadBuf * 2) payloadBufMax with hmin | hmin <;> rw [hmin]
      · exact hbuf
      · exact Nat.le_mul_of_pos_right _ hpos
    · exact (Nat.le_of_not_lt ‹_›).trans (Nat.le_mul_of_pos_right _ hpos)

theorem InStep.stalled (h : InStep decode w) (hbig : payloadBufMax < payloadBytes w.backlog) :
    (ticks decode k w).loop.lastApplied = w.loop.lastApplied := by
  induction k generalizing w with
  | zero => rfl
  | succ k ih =>
    rw [ticks]
    rcases h.tick_cases with ⟨-, heq⟩ | ⟨hfit, -⟩ | ⟨-, -, heq⟩
    · rw [heq]
      exact ih h hbig
    · have := h.buf_le
      omega
    · rw [ih h.tick (by rwa [heq, backlog_grown]), heq]
      exact lastApplied_grown

/-- Left alone, the loop catches up if and only if the backlog fits the largest buffer. -/
theorem InStep.caught_up_iff (h : InStep decode w) :
    (∃ k, (ticks decode k w).loop.lastApplied = w.due) ↔ payloadBytes w.backlog ≤ payloadBufMax := by
  constructor
  · rintro ⟨k, hk⟩
    by_contra hbig
    rw [not_le] at hbig
    rw [h.stalled k hbig] at hk
    rw [backlog_of_caught_up hk] at hbig
    exact not_lt_zero _ hbig
  · intro hfit
    have hge := h.buf_ge
    exact ⟨9, h.caught_up 8 hfit (by unfold payloadBufMax; omega)⟩

/-- **Whatever the run, the state machine has been handed the log up to the loop's position, each entry once, in the
order of the indexes and never beyond the commit index; from there the loop catches up with the commit index if and
only if the payloads of the backlog together fit the largest buffer.** -/
theorem applied_in_order_and_caught_up_iff (decode : Bytes → Option C) (s : Storage) (hlog : Contiguous s.log)
    (actions : List FollowerAction) (hrun : Run.Guarded (step decode) OK { storage := s } actions) :
    let w := actions.foldl (step decode) { storage := s }
    w.loop.handed = w.storage.log.take w.loop.lastApplied ∧
      w.loop.handed.map (fun e => e.index.toNat) = range' 1 w.loop.lastApplied ∧
      w.loop.machine.applied = w.loop.handed.filterMap (fun e => decode e.payload) ∧
      w.loop.lastApplied ≤ w.committed ∧
      ((∃ k, (ticks decode k w).loop.lastApplied = min w.committed w.storage.log.length) ↔
        payloadBytes w.backlog ≤ payloadBufMax) := by
  intro w
  have h : InStep decode w := Run.invariant InStep.step actions _ (.start hlog 0) hrun
  have hle := h.applied_le
  unfold due at hle
  refine ⟨h.handed, ?_, h.tracks.1, by omega, h.caught_up_iff⟩
  rw [h.handed, (h.contiguous.take _).map_eq, length_take_of_le (by omega)]

end Follower

/-! ### A backlog of three entries -/

namespace Backlog

/-- Three entries with the same payload. -/
def entries (payload : Bytes) : List LogEntry := [⟨1, 1, payload⟩, ⟨2, 1, payload⟩, ⟨3, 1, payload⟩]

/-- The storage that holds them. -/
def stored (payload : Bytes) : Storage :=
  { dir := { wal := records (fun _ => 0) (entries payload) }
    tail := (records (fun _ => 0) (entries payload)).length
    entries := stage 0 (entries payload)
    snapshot := none }

theorem contiguous (payload : Bytes) : Contiguous (stored payload).log := ⟨rfl, rfl, rfl, trivial⟩

/-- Every payload is one command. -/
def command (_ : Bytes) : Option Unit := some ()

/-- The three entries are committed. -/
def behind (payload : Bytes) : Follower Unit := [.commit 3].foldl (step command) { storage := stored payload }

theorem backlog_behind {payload : Bytes} : payloadBytes (behind payload).backlog = 3 * payload.length := by
  have hsum : payloadBytes (behind payload).backlog = payload.length + (payload.length + (payload.length + 0)) := rfl
  omega

theorem behind_inStep {payload : Bytes} : InStep command (behind payload) :=
  (InStep.start (contiguous payload) 0).commit (zero_le 3)

/-- Six megabytes. -/
def payload : Bytes := replicate (6 * 1024 * 1024) 0

theorem length_payload : payload.length = 6 * 1024 * 1024 := length_replicate

/-- **Three committed entries of six megabytes are never applied.** -/
theorem never_applied :
    (∀ e ∈ (behind payload).storage.log, e.payload.length ≤ maxPayloadLen) ∧ (behind payload).committed = 3 ∧
      ∀ k, (ticks command k (behind payload)).loop.lastApplied = 0 := by
  refine ⟨?_, rfl, fun k => behind_inStep.stalled k ?_⟩
  · intro e he
    have hlen : e.payload = payload := by
      change e ∈ entries payload at he
      simp only [entries, mem_cons, not_mem_nil, or_false] at he
      rcases he with rfl | rfl | rfl <;> rfl
    rw [hlen, length_payload]
    unfold maxPayloadLen
    omega
  · rw [backlog_behind, length_payload]
    unfold payloadBufMax
    omega

/-- Three entries of one byte, the first applied before the others are committed. -/
theorem small_caught_up :
    let w := [FollowerAction.commit 1, .tick, .commit 3].foldl (step command) { storage := stored [7] }
    w.loop.lastApplied = 1 ∧ ∃ k, (ticks command k w).loop.lastApplied = 3 := by
  have hrun : Run.Guarded (step command) OK { storage := stored [7] } [.commit 1, .tick, .commit 3] :=
    ⟨zero_le 1, trivial, le_succ_of_le (le_succ 1), trivial⟩
  have h := applied_in_order_and_caught_up_iff command (stored [7]) (contiguous [7]) _ hrun
  exact ⟨by decide +kernel, h.2.2.2.2.2 (by decide +kernel)⟩

end Backlog

end Arbitro.RaftLog
