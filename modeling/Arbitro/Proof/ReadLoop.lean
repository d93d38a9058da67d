import Mathlib.Data.List.Induction
import Arbitro.Lib.Run
import Arbitro.Server.ReadLoop

/-!
# What the read loop dispatches

`framing` reads a byte stream as a whole: the Hello, the Auth frame where credentials are
required, then frame after frame up to one that cannot be dispatched, is too long or is not
complete. The loop sees the stream in chunks.

* `Conn.turn_follows`: what has been dispatched, and what the framing of the buffered and of any
  further bytes adds to it, is the framing of the stream.
* `Conn.pass_settled`: at a wait, a whole frame is in the buffer only for want of tokens.
* `dispatched_eq_framing_iff`: at the end of the stream the framing has been dispatched, however
  the stream was split, unless the tokens of the second were used up with a whole frame buffered.
* `buffer_bounded`: how much is buffered.
-/

namespace Arbitro

open List Option

namespace ReadLoop

variable {bytes f : Bytes} {max : ℕ} {cfg : Config}

/-! ## The framing of a byte stream -/

/-- The frame that a byte stream begins with. -/
def wholeFrame (max : ℕ) (bytes : Bytes) : Option Bytes :=
  if headerSize ≤ bytes.length ∧ msgLen bytes ≤ max ∧ headerSize + msgLen bytes ≤ bytes.length then
    some (bytes.take (headerSize + msgLen bytes))
  else none

/-- From what is left of the stream, nothing behind a frame that is not taken. -/
def nextFrame (max : ℕ) : Option Bytes → Option (Option Bytes × Option Bytes)
  | none => none
  | some bytes =>
    (wholeFrame max bytes).map fun f => (some f, if dispatchFrame f then some (bytes.drop f.length) else none)

def frames (max : ℕ) (bytes : Bytes) : List Bytes :=
  (Scan.walk (nextFrame max) (bytes.length + 1) (some bytes)).1

/-- The token of an Auth frame at the start of the stream, and what follows the frame. -/
def authFrame (cfg : Config) (bytes : Bytes) : Option (Bytes × Bytes) :=
  match wholeFrame (Conn.authLimit cfg) bytes with
  | some f => if actionOf f = authAction then some (f.drop headerSize, bytes.drop f.length) else none
  | none => none

/-- The frames that follow the Hello. -/
def afterHello (cfg : Config) (bytes : Bytes) : List Bytes :=
  if cfg.authenticator.requiresCredentials then
    match authFrame cfg bytes with
    | some (token, rest) =>
      match cfg.authenticator.authenticate (some token) with
      | .allow _ => frames cfg.maxFrameSize rest
      | .deny _ => []
    | none => []
  else frames cfg.maxFrameSize bytes

/-- **The framing of a byte stream.** -/
def framing (cfg : Config) (bytes : Bytes) : List Bytes :=
  if helloParses bytes then afterHello cfg (bytes.drop helloFrameSize) else []

theorem msgLen_append (h : headerSize ≤ bytes.length) (rest : Bytes) :
    msgLen (bytes ++ rest) = msgLen bytes := LittleEndian.field_append (by unfold headerSize at h; omega) rest

theorem actionOf_append (h : headerSize ≤ bytes.length) (rest : Bytes) :
    actionOf (bytes ++ rest) = actionOf bytes := LittleEndian.field_append (by unfold headerSize at h; omega) rest

theorem magicOf_append (h : 4 ≤ bytes.length) (rest : Bytes) :
    magicOf (bytes ++ rest) = magicOf bytes := LittleEndian.field_append (by omega) rest

/-- Nothing but the beginning of a frame. -/
def Begun (max : ℕ) (bytes : Bytes) : Prop :=
  headerSize ≤ bytes.length → msgLen bytes ≤ max ∧ bytes.length < headerSize + msgLen bytes

theorem Begun.wholeFrame (h : Begun max bytes) : wholeFrame max bytes = none :=
  if_neg fun hc => by have := h hc.1; omega

theorem Begun.length_lt (h : Begun max bytes) : bytes.length < headerSize + max := by
  by_cases hlen : headerSize ≤ bytes.length
  · have := h hlen
    omega
  · omega

theorem wholeFrame_eq_some (h : wholeFrame max bytes = some f) :
    headerSize ≤ bytes.length ∧ msgLen bytes ≤ max ∧ headerSize + msgLen bytes ≤ bytes.length ∧
      f = bytes.take (headerSize + msgLen bytes) ∧ f.length = headerSize + msgLen bytes := by
  unfold wholeFrame at h
  split at h
  · next hc =>
    obtain rfl := some.inj h
    refine ⟨hc.1, hc.2.1, hc.2.2, rfl, ?_⟩
    rw [length_take]
    omega
  · cases h

theorem wholeFrame_append (h : wholeFrame max bytes = some f) {rest : Bytes} :
    wholeFrame max (bytes ++ rest) = some f := by
  obtain ⟨hlen, hmax, hfits, hf, -⟩ := wholeFrame_eq_some h
  have hmsg := msgLen_append hlen rest
  unfold wholeFrame
  rw [if_pos ⟨by rw [length_append]; omega, by omega, by rw [length_append]; omega⟩, hmsg,
    take_append_of_le_length hfits, ← hf]

theorem actionOf_wholeFrame (h : wholeFrame max bytes = some f) : actionOf f = actionOf bytes := by
  obtain ⟨-, -, -, hf, hflen⟩ := wholeFrame_eq_some h
  have hlen : headerSize ≤ f.length := by omega
  have happ := actionOf_append hlen (bytes.drop (headerSize + msgLen bytes))
  rw [hf, take_append_drop, ← hf] at happ
  exact happ.symm

theorem wholeFrame_of_lt (hlen : headerSize ≤ bytes.length) (h : max < msgLen bytes)
    (rest : Bytes) : wholeFrame max (bytes ++ rest) = none := by
  unfold wholeFrame
  rw [if_neg]
  rintro ⟨-, hmax, -⟩
  rw [msgLen_append hlen rest] at hmax
  omega

theorem frames_eq (max : ℕ) (bytes : Bytes) :
    frames max bytes = match wholeFrame max bytes with
      | none => []
      | some f => f :: if dispatchFrame f then frames max (bytes.drop f.length) else [] := by
  -- a frame is not empty, so the bytes left bound the moves
  let μ : Option Bytes → ℕ := fun rest => rest.elim 0 length
  have hμ : ∀ s item t, nextFrame max s = some (item, t) → μ t < μ s := by
    rintro (_ | bytes) item t h
    · cases h
    cases hf : wholeFrame max bytes with
    | none => simp [nextFrame, hf] at h
    | some f =>
      obtain ⟨hlen, -, -, -, hflen⟩ := wholeFrame_eq_some hf
      simp only [nextFrame, hf, map_some, some.injEq, Prod.mk.injEq] at h
      obtain ⟨-, rfl⟩ := h
      unfold headerSize at hlen hflen
      split <;> simp [μ] <;> omega
  unfold frames
  cases hf : wholeFrame max bytes with
  | none => rw [Scan.walk_of_stop]; simp [nextFrame, hf]
  | some f =>
    obtain ⟨hlen, -, -, -, hflen⟩ := wholeFrame_eq_some hf
    unfold headerSize at hlen hflen
    have hnext : nextFrame max (some bytes)
        = some (some f, if dispatchFrame f then some (bytes.drop f.length) else none) := by
      simp [nextFrame, hf]
    simp only [Scan.walk, hnext, toList_some, singleton_append]
    cases hd : dispatchFrame f with
    | false =>
      rw [if_neg Bool.false_ne_true, Scan.walk_of_stop rfl]
      rfl
    | true =>
      simp only [if_true]
      have hleft : (bytes.drop f.length).length < bytes.length := by rw [length_drop]; omega
      rw [Scan.walk_enough hμ bytes.length ((bytes.drop f.length).length + 1) (some (bytes.drop f.length)) hleft
        (Nat.lt_succ_self _)]
      rfl

theorem frames_of_none (h : wholeFrame max bytes = none) : frames max bytes = [] := by
  rw [frames_eq, h]

theorem frames_eq_nil : frames max bytes = [] ↔ wholeFrame max bytes = none := by
  refine ⟨fun h => ?_, frames_of_none⟩
  rw [frames_eq] at h
  cases hf : wholeFrame max bytes with
  | none => rfl
  | some f => simp [hf] at h

theorem authFrame_of_ne (hlen : headerSize ≤ bytes.length)
    (h : actionOf bytes ≠ authAction) (rest : Bytes) : authFrame cfg (bytes ++ rest) = none := by
  unfold authFrame
  cases hf : wholeFrame (Conn.authLimit cfg) (bytes ++ rest) with
  | none => rfl
  | some f =>
    have hact : actionOf f = actionOf bytes := (actionOf_wholeFrame hf).trans (actionOf_append hlen rest)
    simp only [hact, if_neg h]

theorem authFrame_append (hf : wholeFrame (Conn.authLimit cfg) bytes = some f)
    (h : actionOf bytes = authAction) (rest : Bytes) :
    authFrame cfg (bytes ++ rest) = some (f.drop headerSize, bytes.drop f.length ++ rest) := by
  obtain ⟨-, -, hfits, -, hflen⟩ := wholeFrame_eq_some hf
  unfold authFrame
  simp only [wholeFrame_append hf, (actionOf_wholeFrame hf).trans h, if_true]
  rw [drop_append_of_le_length (by omega)]

/-! ## A pass over the buffer -/

namespace Conn

variable {s : Conn} {heard sent : Bytes} (now : ℕ)

/-- The loop was left because of what the client has sent. -/
def failed (s : Conn) : Bool := s.ended.any fun e => !e.outside

/-- What the framing of the buffered and of further bytes adds to what has been dispatched. -/
def ahead (cfg : Config) (s : Conn) (more : Bytes) : List Bytes :=
  if s.failed then []
  else if s.helloDone = false then framing cfg (s.acc ++ more)
  else if s.authDone = false then afterHello cfg (s.acc ++ more)
  else frames cfg.maxFrameSize (s.acc ++ more)

/-- The state of the handshake and what credentials are required fit together. -/
structure Phased (cfg : Config) (s : Conn) : Prop where
  waiting : s.authDone = false → cfg.authenticator.requiresCredentials = true
  early : s.helloDone = false → s.authDone = true → cfg.authenticator.requiresCredentials = false

/-- The dispatched frames and those ahead are the framing of the stream. -/
def Follows (cfg : Config) (s : Conn) (heard : Bytes) : Prop :=
  ∀ more, framing cfg (heard ++ more) = s.dispatched ++ s.ahead cfg more

theorem Follows.of_ahead {s t : Conn} (h : s.Follows cfg heard) (hd : t.dispatched = s.dispatched)
    (ha : ∀ more, t.ahead cfg more = s.ahead cfg more) : t.Follows cfg heard := by
  intro more
  rw [hd, ha]
  exact h more

theorem failed_of_open (h : s.ended = none) : s.failed = false := by
  simp [failed, h]

section Handshake

theorem hello_cases (s : Conn) : (s.hello = s ∧ (s.helloDone = false → s.acc.length < helloFrameSize)) ∨
    (∃ e : Ending, e.outside = false ∧ s.hello = { s with ended := some e } ∧ s.helloDone = false ∧
      ∀ more, helloParses (s.acc ++ more) = false) ∨
    (s.hello = { s with acc := s.acc.drop helloFrameSize, helloDone := true } ∧ s.helloDone = false ∧
      helloFrameSize ≤ s.acc.length ∧ ∀ more, helloParses (s.acc ++ more) = true) := by
  unfold hello helloFrameSize
  split
  · next hc =>
    obtain ⟨hdone, hlen⟩ := hc
    have hparse : ∀ more, helloParses (s.acc ++ more)
        = (decide (8 ≤ (s.acc ++ more).length) && magicOf s.acc == magicV2) := by
      intro more
      rw [helloParses, magicOf_append hlen]
      rfl
    split
    · next hmagic =>
      refine .inr (.inl ⟨.notV2, rfl, rfl, hdone, fun more => ?_⟩)
      rw [hparse, beq_eq_false_iff_ne.2 hmagic, Bool.and_false]
    next hmagic =>
    have hmagic : magicOf s.acc = magicV2 := by simpa using hmagic
    split
    · next h8 =>
      have htake : helloParses (s.acc.take 8) = true := by
        have h4 : 4 ≤ (s.acc.take 8).length := by rw [length_take]; omega
        have happ := magicOf_append h4 (s.acc.drop 8)
        rw [take_append_drop] at happ
        simp only [helloParses, helloFrameSize, length_take, ← happ, hmagic, beq_self_eq_true, Bool.and_true,
          decide_eq_true_eq]
        omega
      rw [if_pos htake]
      refine .inr (.inr ⟨rfl, hdone, h8, fun more => ?_⟩)
      rw [hparse, hmagic, beq_self_eq_true, Bool.and_true, decide_eq_true_eq, length_append]
      omega
    · next h8 => exact .inl ⟨rfl, fun _ => by omega⟩
  · next hc =>
    refine .inl ⟨rfl, fun hdone => ?_⟩
    by_contra h8
    exact hc ⟨hdone, by omega⟩

theorem hello_follows (hp : s.Phased cfg) (hs : s.ended = none) (h : s.Follows cfg heard) :
    s.hello.Follows cfg heard ∧ s.hello.Phased cfg := by
  rcases hello_cases s with ⟨heq, -⟩ | ⟨e, he, heq, hdone, hno⟩ | ⟨heq, hdone, hlen, hyes⟩
  · rw [heq]
    exact ⟨h, hp⟩
  · rw [heq]
    refine ⟨h.of_ahead rfl fun more => ?_, ⟨hp.waiting, hp.early⟩⟩
    simp [ahead, failed, hs, he, hdone, framing, hno more]
  rw [heq]
  refine ⟨h.of_ahead rfl fun more => ?_, ⟨hp.waiting, fun hc => absurd hc (by simp)⟩⟩
  have hdrop : (s.acc ++ more).drop helloFrameSize = s.acc.drop helloFrameSize ++ more := drop_append_of_le_length hlen
  simp only [ahead, failed, hs, any_none, Bool.false_eq_true, if_false, hdone, if_true, framing, hyes more,
    hdrop, Bool.true_eq_false]
  cases ha : s.authDone with
  | false => rw [if_pos rfl]
  | true => simp [afterHello, hp.early hdone ha]

theorem auth_cases :
    (s.auth cfg = s ∧ (s.helloDone = true → s.authDone = false → Begun (authLimit cfg) s.acc)) ∨
    (∃ e : Ending, e.outside = false ∧ s.auth cfg = { s with ended := some e } ∧
      s.helloDone = true ∧ s.authDone = false ∧
      (cfg.authenticator.requiresCredentials = true → ∀ more, afterHello cfg (s.acc ++ more) = [])) ∨
    (∃ rest identity, s.auth cfg = { s with acc := rest, authDone := true, identity := identity } ∧
      s.helloDone = true ∧ s.authDone = false ∧
      (cfg.authenticator.requiresCredentials = true →
        ∀ more, afterHello cfg (s.acc ++ more) = frames cfg.maxFrameSize (rest ++ more))) := by
  unfold auth
  split
  · next hc =>
    obtain ⟨hdone, hauth, hlen⟩ := hc
    split
    · next hact =>
      refine .inr (.inl ⟨.authMissing, rfl, rfl, hdone, hauth, fun hreq more => ?_⟩)
      simp only [afterHello, hreq, if_true, authFrame_of_ne hlen hact more]
    next hact =>
    have hact : actionOf s.acc = authAction := by simpa using hact
    split
    · next hlong =>
      refine .inr (.inl ⟨.authTooLong, rfl, rfl, hdone, hauth, fun hreq more => ?_⟩)
      have hnone : authFrame cfg (s.acc ++ more) = none := by
        simp only [authFrame, wholeFrame_of_lt hlen hlong more]
      simp only [afterHello, hreq, if_true, hnone]
    next hlong =>
    split
    · next hfits =>
      have hf : wholeFrame (authLimit cfg) s.acc = some (s.acc.take (headerSize + msgLen s.acc)) :=
        if_pos ⟨hlen, by omega, hfits⟩
      have htoken : (s.acc.take (headerSize + msgLen s.acc)).drop headerSize
          = (s.acc.drop headerSize).take (msgLen s.acc) := by
        rw [drop_take, Nat.add_sub_cancel_left]
      have hflen : (s.acc.take (headerSize + msgLen s.acc)).length = headerSize + msgLen s.acc := by
        rw [length_take]; omega
      have happ : ∀ more, authFrame cfg (s.acc ++ more) = some ((s.acc.drop headerSize).take (msgLen s.acc),
          s.acc.drop (headerSize + msgLen s.acc) ++ more) := by
        intro more
        rw [authFrame_append hf hact more, htoken, hflen]
      split
      · next code hdeny =>
        refine .inr (.inl ⟨.denied code, rfl, rfl, hdone, hauth, fun hreq more => ?_⟩)
        simp only [afterHello, hreq, if_true, happ more, hdeny]
      · next identity hallow =>
        refine .inr (.inr ⟨_, identity, rfl, hdone, hauth, fun hreq more => ?_⟩)
        simp only [afterHello, hreq, if_true, happ more, hallow]
    · next hfits => exact .inl ⟨rfl, fun _ _ _ => by omega⟩
  · next hc => exact .inl ⟨rfl, fun hdone hauth hlen => absurd ⟨hdone, hauth, hlen⟩ hc⟩

theorem auth_follows (hp : s.Phased cfg) (hs : s.ended = none) (h : s.Follows cfg heard) :
    (s.auth cfg).Follows cfg heard ∧ (s.auth cfg).Phased cfg := by
  rcases auth_cases with ⟨heq, -⟩ | ⟨e, he, heq, hdone, hauth, hno⟩ | ⟨rest, id, heq, hdone, hauth, hyes⟩
  · rw [heq]
    exact ⟨h, hp⟩
  · rw [heq]
    refine ⟨h.of_ahead rfl fun more => ?_, ⟨hp.waiting, hp.early⟩⟩
    simp [ahead, failed, hs, he, hdone, hauth, hno (hp.waiting hauth) more]
  · rw [heq]
    refine ⟨h.of_ahead rfl fun more => ?_, ⟨fun hc => absurd hc (by simp), fun hc => absurd hc (by simp [hdone])⟩⟩
    simp [ahead, failed, hs, hdone, hauth, hyes (hp.waiting hauth) more]

end Handshake

section Drain

variable {item : Option Bytes} {t : Conn}

theorem takeFrame_cases (h : s.takeFrame cfg = some (item, t)) : s.ended = none ∧ headerSize ≤ s.acc.length ∧
    ((item = none ∧ t = { s with ended := some .frameTooLong } ∧ cfg.maxFrameSize < msgLen s.acc) ∨
    (∃ f tokens, item = some f ∧ wholeFrame cfg.maxFrameSize s.acc = some f ∧ dispatchFrame f = true ∧
      t = { s with acc := s.acc.drop f.length, tokensRemaining := tokens }) ∨
    (∃ f, item = some f ∧ wholeFrame cfg.maxFrameSize s.acc = some f ∧ dispatchFrame f = false ∧
      t = { s with acc := s.acc.drop f.length, ended := some .malformedFrame })) := by
  unfold takeFrame at h
  split at h
  · cases h
  next hopen =>
  refine ⟨by simpa using hopen, ?_⟩
  split at h
  · cases h
  split at h
  · cases h
  next hlen =>
  have hlen : headerSize ≤ s.acc.length := by omega
  refine ⟨hlen, ?_⟩
  split at h
  · next hlong =>
    obtain ⟨rfl, rfl⟩ := Prod.mk.inj (some.inj h)
    exact .inl ⟨rfl, rfl, hlong⟩
  next hlong =>
  split at h
  · cases h
  next hfits =>
  have hf : wholeFrame cfg.maxFrameSize s.acc = some (s.acc.take (headerSize + msgLen s.acc)) :=
    if_pos ⟨hlen, by omega, by omega⟩
  have hflen : (s.acc.take (headerSize + msgLen s.acc)).length = headerSize + msgLen s.acc := by
    rw [length_take]; omega
  simp only at h
  split at h
  · next hd =>
    obtain ⟨rfl, rfl⟩ := Prod.mk.inj (some.inj h)
    by_cases hlim : 0 < cfg.maxOpsPerSec
    · exact .inr (.inl ⟨_, s.tokensRemaining - 1, rfl, hf, hd, by rw [hflen, if_pos hlim]⟩)
    · exact .inr (.inl ⟨_, s.tokensRemaining, rfl, hf, hd, by rw [hflen, if_neg hlim]⟩)
  · next hd =>
    obtain ⟨rfl, rfl⟩ := Prod.mk.inj (some.inj h)
    exact .inr (.inr ⟨_, rfl, hf, by simpa using hd, by rw [hflen]⟩)

theorem takeFrame_eq_none (h : s.takeFrame cfg = none) (hopen : s.ended = none) :
    (0 < cfg.maxOpsPerSec ∧ s.tokensRemaining = 0) ∨ Begun cfg.maxFrameSize s.acc := by
  unfold takeFrame at h
  simp only [hopen, isSome_none, Bool.false_eq_true, if_false] at h
  split at h
  · next hstarved => exact .inl hstarved
  right
  intro hlen
  split at h
  · omega
  split at h
  · cases h
  split at h
  · omega
  · split at h <;> cases h

theorem takeFrame_down (cfg : Config) (s : Conn) (item : Option Bytes) (t : Conn)
    (h : s.takeFrame cfg = some (item, t)) :
    t.acc.length + (if t.ended.isSome then 0 else 1) < s.acc.length + (if s.ended.isSome then 0 else 1) := by
  obtain ⟨hopen, hlen, ⟨-, rfl, -⟩ | ⟨f, tokens, -, hf, -, rfl⟩ | ⟨f, -, hf, -, rfl⟩⟩ := takeFrame_cases h
  · simp [hopen]
  all_goals
    obtain ⟨-, -, -, -, hflen⟩ := wholeFrame_eq_some hf
    unfold headerSize at hlen hflen
    simp only [length_drop, hopen, isSome_none, isSome_some, Bool.false_eq_true, if_false, if_true]
    omega

/-- What a turn of the draining loop leaves alone. -/
structure Kept (s t : Conn) : Prop where
  hello : t.helloDone = s.helloDone
  auth : t.authDone = s.authDone
  dispatched : t.dispatched = s.dispatched

theorem takeFrame_kept (h : s.takeFrame cfg = some (item, t)) : Kept s t := by
  obtain ⟨-, -, ⟨-, rfl, -⟩ | ⟨f, tokens, -, -, -, rfl⟩ | ⟨f, -, -, -, rfl⟩⟩ := takeFrame_cases h <;>
    exact ⟨rfl, rfl, rfl⟩

theorem takeFrame_ahead (h : s.takeFrame cfg = some (item, t))
    (hh : s.helloDone = true) (ha : s.authDone = true) (more : Bytes) :
    s.ahead cfg more = item.toList ++ t.ahead cfg more := by
  obtain ⟨hopen, hlen, ⟨rfl, rfl, hlong⟩ | ⟨f, tokens, rfl, hf, hd, rfl⟩ | ⟨f, rfl, hf, hd, rfl⟩⟩ := takeFrame_cases h
  · have hnone := frames_of_none (wholeFrame_of_lt hlen hlong more)
    simp [ahead, failed, hopen, hh, ha, hnone, Ending.outside]
  all_goals
    obtain ⟨-, -, hfits, -, hflen⟩ := wholeFrame_eq_some hf
    have hdrop : (s.acc ++ more).drop f.length = s.acc.drop f.length ++ more := drop_append_of_le_length (by omega)
    have hframes := frames_eq cfg.maxFrameSize (s.acc ++ more)
    simp only [wholeFrame_append hf, hd, if_true, hdrop] at hframes
    simp [ahead, failed, hopen, hh, ha, hframes, Ending.outside]

theorem reads_ahead {n : ℕ} {xs : List Bytes} (h : Scan.Reads (takeFrame cfg) s n xs t)
    (hh : s.helloDone = true) (ha : s.authDone = true) :
    Kept s t ∧ t.acc.length ≤ s.acc.length ∧ ∀ more, s.ahead cfg more = xs ++ t.ahead cfg more := by
  induction h with
  | nil s => exact ⟨⟨rfl, rfl, rfl⟩, le_rfl, fun _ => rfl⟩
  | @cons s t u n item xs move _ ih =>
    have hk := takeFrame_kept move
    obtain ⟨hk', hlen, hrest⟩ := ih (hk.hello.trans hh) (hk.auth.trans ha)
    refine ⟨⟨hk'.hello.trans hk.hello, hk'.auth.trans hk.auth, hk'.dispatched.trans hk.dispatched⟩, ?_, fun more => ?_⟩
    · have hdown := takeFrame_down cfg s item t move
      split at hdown <;> split at hdown <;> omega
    rw [takeFrame_ahead move hh ha more, hrest more, append_assoc]

theorem drain_early (h : ¬(s.helloDone = true ∧ s.authDone = true)) : s.drain cfg = s := if_neg h

/-- The draining loop makes turns until there is none to make. -/
theorem drain_done (hh : s.helloDone = true) (ha : s.authDone = true) :
    ∃ xs t, s.drain cfg = { t with dispatched := s.dispatched ++ xs } ∧ t.takeFrame cfg = none ∧ Kept s t ∧
      t.acc.length ≤ s.acc.length ∧ ∀ more, s.ahead cfg more = xs ++ t.ahead cfg more := by
  obtain ⟨n, hreads⟩ := Scan.reads_walk (s.acc.length + 2) s
  have hstop := Scan.walk_stops (takeFrame_down cfg) (s.acc.length + 2) s (by split <;> omega)
  exact ⟨_, _, if_pos ⟨hh, ha⟩, hstop, reads_ahead hreads hh ha⟩

theorem drain_follows {heard : Bytes} (hp : s.Phased cfg) (h : s.Follows cfg heard) :
    (s.drain cfg).Follows cfg heard ∧ (s.drain cfg).Phased cfg := by
  by_cases hdone : s.helloDone = true ∧ s.authDone = true
  · obtain ⟨xs, t, heq, -, hk, -, hahead⟩ := drain_done hdone.1 hdone.2
    rw [heq]
    refine ⟨fun more => ?_, ⟨fun hc => ?_, fun hc => ?_⟩⟩
    · rw [h more, hahead more, ← append_assoc]
      rfl
    · exact hp.waiting (hk.auth ▸ hc)
    · exact absurd (hk.hello.symm.trans hc) (by simp [hdone.1])
  · rw [drain_early hdone]
    exact ⟨h, hp⟩

end Drain

/-! ## Whole runs -/

/-- At a wait, the buffer holds nothing that the loop could go on with, tokens permitting. -/
structure Settled (cfg : Config) (s : Conn) : Prop where
  hello : s.helloDone = false → s.acc.length < helloFrameSize
  auth : s.helloDone = true → s.authDone = false → Begun (authLimit cfg) s.acc
  drained : s.helloDone = true → s.authDone = true →
    (0 < cfg.maxOpsPerSec ∧ s.tokensRemaining = 0) ∨ Begun cfg.maxFrameSize s.acc

theorem refill_eq (cfg : Config) (now : ℕ) (s : Conn) :
    ∃ tokens window, s.refill cfg now = { s with tokensRemaining := tokens, windowStart := window } := by
  by_cases h : 0 < cfg.maxOpsPerSec ∧ 1000 ≤ now - s.windowStart
  · exact ⟨_, _, if_pos h⟩
  · exact ⟨_, _, if_neg h⟩

theorem hello_open (h : s.hello.ended = none) : s.hello.helloDone = false → s.hello.acc.length < helloFrameSize := by
  rcases hello_cases s with ⟨heq, hlen⟩ | ⟨e, -, heq, -⟩ | ⟨heq, -⟩
  · rw [heq]; exact hlen
  · rw [heq] at h; cases h
  · rw [heq]; intro hc; cases hc

theorem auth_open (h : (s.auth cfg).ended = none) :
    (s.auth cfg).helloDone = s.helloDone ∧ (s.helloDone = false → (s.auth cfg).acc = s.acc) ∧
      ((s.auth cfg).helloDone = true → (s.auth cfg).authDone = false → Begun (authLimit cfg) (s.auth cfg).acc) := by
  rcases auth_cases with ⟨heq, hnone⟩ | ⟨e, -, heq, -⟩ | ⟨rest, id, heq, hdone, -⟩
  · rw [heq]; exact ⟨rfl, fun _ => rfl, hnone⟩
  · rw [heq] at h; cases h
  · rw [heq]; exact ⟨rfl, fun hc => absurd (hdone.symm.trans hc) (by simp), fun _ hc => by cases hc⟩

theorem drain_settled (hh : s.helloDone = true) (ha : s.authDone = true) (hopen : (s.drain cfg).ended = none) :
    (s.drain cfg).Settled cfg := by
  obtain ⟨xs, t, heq, hstop, hk, -⟩ := drain_done hh ha
  rw [heq] at hopen ⊢
  have hhello : t.helloDone = true := hk.hello.trans hh
  have hauth : t.authDone = true := hk.auth.trans ha
  have hleft := takeFrame_eq_none (s := t) hstop hopen
  exact ⟨fun hc => absurd (hhello.symm.trans hc) (by simp), fun _ hc => absurd (hauth.symm.trans hc) (by simp),
    fun _ _ => hleft⟩

theorem pass_follows (hp : s.Phased cfg) (hs : s.ended = none) (h : s.Follows cfg heard) :
    (s.pass cfg now).Follows cfg heard ∧ (s.pass cfg now).Phased cfg := by
  obtain ⟨tokens, window, hrefill⟩ := refill_eq cfg now s
  have hp₀ : (s.refill cfg now).Phased cfg := by rw [hrefill]; exact ⟨hp.waiting, hp.early⟩
  have h₀ : (s.refill cfg now).Follows cfg heard := by rw [hrefill]; exact h.of_ahead rfl fun _ => rfl
  have hs₀ : (s.refill cfg now).ended = none := by rw [hrefill]; exact hs
  obtain ⟨h₁, hp₁⟩ := hello_follows hp₀ hs₀ h₀
  unfold pass
  simp only
  split
  · exact ⟨h₁, hp₁⟩
  next hs₁ =>
  obtain ⟨h₂, hp₂⟩ := auth_follows hp₁ (by simpa using hs₁) h₁
  split
  · exact ⟨h₂, hp₂⟩
  · exact drain_follows hp₂ h₂

theorem pass_open {now : ℕ} (hopen : (s.pass cfg now).ended = none) :
    (s.refill cfg now).hello.ended = none ∧ ((s.refill cfg now).hello.auth cfg).ended = none ∧
      s.pass cfg now = ((s.refill cfg now).hello.auth cfg).drain cfg := by
  revert hopen
  unfold pass
  simp only
  split
  · next hs => intro hopen; rw [hopen] at hs; cases hs
  split
  · next hs => intro hopen; rw [hopen] at hs; cases hs
  next hs₁ hs₂ => exact fun _ => ⟨by simpa using hs₁, by simpa using hs₂, rfl⟩

theorem pass_settled (hopen : (s.pass cfg now).ended = none) : (s.pass cfg now).Settled cfg := by
  obtain ⟨hs₁, hs₂, heq⟩ := pass_open hopen
  rw [heq] at hopen ⊢
  generalize s.refill cfg now = s at *
  obtain ⟨hkeep, hacc, hauth⟩ := auth_open hs₂
  by_cases hdone : (s.hello.auth cfg).helloDone = true ∧ (s.hello.auth cfg).authDone = true
  · exact drain_settled hdone.1 hdone.2 hopen
  rw [drain_early hdone]
  refine ⟨fun hc => ?_, hauth, fun hh ha => absurd ⟨hh, ha⟩ hdone⟩
  rw [hkeep] at hc
  rw [hacc hc]
  exact hello_open hs₁ hc

/-- The loop was left, and not because of the client's bytes: some of the stream may not have been read. -/
def cutOff (s : Conn) : Bool := s.ended.any Ending.outside

/-- What is known of a connection on which a stream has been sent. -/
structure Tracks (cfg : Config) (s : Conn) (sent : Bytes) : Prop where
  phased : s.Phased cfg
  settled : s.ended = none → s.Settled cfg
  follows : ∃ heard unheard, sent = heard ++ unheard ∧ (s.cutOff = false → unheard = []) ∧ s.Follows cfg heard

/-- Behind a framing error, nothing is ahead whatever is sent. -/
theorem Follows.of_failed (h : s.Follows cfg heard) (hf : s.failed = true) (more : Bytes) :
    s.Follows cfg (heard ++ more) := by
  intro rest
  have hrest := h (more ++ rest)
  simp only [ahead, hf, if_true] at hrest ⊢
  rw [append_assoc, hrest]

theorem Follows.read (h : s.Follows cfg heard) (chunk : Bytes) :
    ({ s with acc := s.acc ++ chunk } : Conn).Follows cfg (heard ++ chunk) := by
  intro more
  have hahead : ({ s with acc := s.acc ++ chunk } : Conn).ahead cfg more = s.ahead cfg (chunk ++ more) := by
    unfold ahead
    rw [append_assoc]
    rfl
  rw [append_assoc, h (chunk ++ more), hahead]

theorem wait_follows (hs : s.ended = none) (h : s.Follows cfg heard) (e : Event) :
    (s.wait e.ready).Follows cfg (heard ++ e.bytes) := by
  -- an end from outside does not change what the framing would add
  have houtside : ∀ x : Ending, x.outside = true → ({ s with ended := some x } : Conn).Follows cfg (heard ++ []) := by
    intro x hx
    rw [append_nil]
    refine h.of_ahead rfl fun more => ?_
    simp [ahead, failed, hs, hx]
  obtain ⟨now, ready⟩ := e
  cases ready with
  | read chunk =>
    cases chunk with
    | nil => exact houtside .endOfStream rfl
    | cons b chunk => exact h.read (b :: chunk)
  | readError => exact houtside .readError rfl
  | shutdown => exact houtside .shutdown rfl
  | timer =>
    simp only [wait]
    split
    · show s.Follows cfg (heard ++ [])
      rwa [append_nil]
    · exact houtside .handshakeDeadline rfl

theorem wait_phased (hp : s.Phased cfg) (ready : Ready) : (s.wait ready).Phased cfg := by
  unfold wait
  split
  case h_5 =>
    split
    · exact hp
    · exact ⟨hp.waiting, hp.early⟩
  all_goals exact ⟨hp.waiting, hp.early⟩

/-- **A turn keeps the framing of the stream**: what has been dispatched and what is ahead. -/
theorem turn_follows (h : s.Tracks cfg sent) (e : Event) : (s.turn cfg e).Tracks cfg (sent ++ e.bytes) := by
  obtain ⟨heard, unheard, hsent, hall, hf⟩ := h.follows
  unfold turn
  split
  · next hended =>
    refine ⟨h.phased, fun hc => absurd hended (by simp [hc]), ?_⟩
    cases hcut : s.cutOff with
    | true => exact ⟨heard, unheard ++ e.bytes, by rw [hsent, append_assoc], fun hc => by simp at hc, hf⟩
    | false =>
      have hfailed : s.failed = true := by
        obtain ⟨x, hx⟩ := isSome_iff_exists.1 hended
        simpa [cutOff, failed, hx] using hcut
      refine ⟨heard ++ e.bytes, [], ?_, fun _ => rfl, hf.of_failed hfailed e.bytes⟩
      rw [hsent, hall hcut, append_nil, append_nil]
  next hopen =>
  have hopen : s.ended = none := by simpa using hopen
  have hheard : sent = heard := by rw [hsent, hall (by simp [cutOff, hopen]), append_nil]
  have hw := wait_follows hopen hf e
  have hp := wait_phased h.phased e.ready
  subst hheard
  split
  · next hended =>
    refine ⟨hp, fun hc => absurd hended (by simp [hc]), _, [], (append_nil _).symm, fun _ => rfl, hw⟩
  · next hgo =>
    obtain ⟨hfollows, hphased⟩ := pass_follows e.now hp (by simpa using hgo) hw
    exact ⟨hphased, fun hc => pass_settled e.now hc, _, [], (append_nil _).symm, fun _ => rfl, hfollows⟩

theorem start_tracks {now : ℕ} : (start cfg now).Tracks cfg [] := by
  refine ⟨⟨fun h => by simpa [start] using h, fun _ h => by simpa [start] using h⟩,
    fun _ => ⟨fun _ => by simp [start, helloFrameSize], fun h => absurd h (by simp [start]),
      fun h => absurd h (by simp [start])⟩,
    [], [], rfl, fun _ => rfl, fun more => ?_⟩
  simp [start, ahead, failed]

theorem run_tracks (cfg : Config) (now : ℕ) (events : List Event) :
    (run cfg now events).Tracks cfg (stream events) := by
  induction events using reverseRecOn with
  | nil => exact start_tracks
  | append_singleton events e ih =>
    have hturn := turn_follows ih e
    simpa [run, stream] using hturn

/-- A whole frame is buffered, and the tokens of the second are used up. -/
def Starved (cfg : Config) (s : Conn) : Prop :=
  s.ended = none ∧ s.helloDone = true ∧ s.authDone = true ∧ 0 < cfg.maxOpsPerSec ∧ s.tokensRemaining = 0 ∧
    wholeFrame cfg.maxFrameSize s.acc ≠ none

instance (cfg : Config) (s : Conn) : Decidable (s.Starved cfg) := by unfold Starved; infer_instance

theorem ahead_nil_iff (h : s.Tracks cfg sent) (hcut : s.cutOff = false) : s.ahead cfg [] = [] ↔ ¬s.Starved cfg := by
  cases hended : s.ended with
  | some e =>
    have hfailed : s.failed = true := by simpa [cutOff, failed, hended] using hcut
    simp [ahead, hfailed, Starved, hended]
  | none =>
    have hset := h.settled hended
    have hopen := failed_of_open hended
    cases hh : s.helloDone with
    | false =>
      have hno : helloParses s.acc = false := by
        have := hset.hello hh
        simp only [helloParses, Bool.and_eq_false_iff, decide_eq_false_iff_not]
        exact .inl (by omega)
      simp [ahead, hopen, Starved, hh, framing, hno]
    | true =>
      cases ha : s.authDone with
      | false =>
        simp [ahead, hopen, Starved, hh, ha, afterHello, h.phased.waiting ha, authFrame, (hset.auth hh ha).wholeFrame]
      | true =>
        have hlast := hset.drained hh ha
        simp only [ahead, hopen, hh, ha, Starved, hended, frames_eq_nil, append_nil, Bool.false_eq_true, if_false,
          Bool.true_eq_false, true_and, not_and, not_not, ne_eq]
        exact ⟨fun h _ _ => h, fun h => hlast.elim (fun hs => h hs.1 hs.2) Begun.wholeFrame⟩

theorem dispatched_isPrefix (h : s.Tracks cfg sent) : s.dispatched <+: framing cfg sent := by
  obtain ⟨heard, unheard, rfl, -, hf⟩ := h.follows
  exact ⟨_, (hf unheard).symm⟩

theorem framing_eq (h : s.Tracks cfg sent) (hcut : s.cutOff = false) :
    framing cfg sent = s.dispatched ++ s.ahead cfg [] := by
  obtain ⟨heard, unheard, hsent, hall, hf⟩ := h.follows
  have hheard := hf []
  rwa [append_nil, show heard = sent by rw [hsent, hall hcut, append_nil]] at hheard

theorem turn_of_ended (h : s.ended.isSome = true) (e : Event) : s.turn cfg e = s := if_pos h

theorem foldl_turn_of_ended (h : s.ended.isSome = true) (events : List Event) : events.foldl (turn cfg) s = s :=
  foldl_fixed' (turn_of_ended h) events

theorem dispatched_turn_eof : (s.turn cfg ⟨now, .read []⟩).dispatched = s.dispatched := by
  unfold turn wait
  split
  · rfl
  · simp

end Conn

/-- The Auth frame behind the Hello carries a token that is accepted. -/
def Admitted (cfg : Config) (bytes : Bytes) : Prop :=
  ∃ token rest identity, authFrame cfg (bytes.drop helloFrameSize) = some (token, rest) ∧
    cfg.authenticator.authenticate (some token) = .allow identity

theorem hello_of_framing (h : framing cfg bytes ≠ []) :
    helloParses bytes = true ∧ (cfg.authenticator.requiresCredentials = true → Admitted cfg bytes) := by
  unfold framing at h
  split at h
  · next hparse =>
    refine ⟨hparse, fun hreq => ?_⟩
    simp only [afterHello, hreq, if_true] at h
    split at h
    · next token rest hframe =>
      split at h
      · next identity hallow => exact ⟨token, rest, identity, hframe, hallow⟩
      · exact absurd rfl h
    · exact absurd rfl h
  · exact absurd rfl h

/-- **The read loop dispatches the framing of the stream, however it is split into chunks.** At any time the dispatched
frames are the first ones of the framing; none precedes a Hello and an accepted Auth frame; none follows a framing
error. When the client's stream ends, all of the framing has been dispatched unless a whole frame was waiting for the
tokens of the next second. -/
theorem dispatched_eq_framing_iff (cfg : Config) (start : ℕ) (events : List Conn.Event) :
    (Conn.run cfg start events).dispatched <+: framing cfg (stream events) ∧
    ((Conn.run cfg start events).dispatched ≠ [] → helloParses (stream events) = true ∧
      (cfg.authenticator.requiresCredentials = true → Admitted cfg (stream events))) ∧
    ((Conn.run cfg start events).failed = true → ∀ more,
      (Conn.run cfg start (events ++ more)).dispatched = (Conn.run cfg start events).dispatched) ∧
    ((Conn.run cfg start events).cutOff = false → ∀ eof,
      ((Conn.run cfg start (events ++ [⟨eof, .read []⟩])).dispatched = framing cfg (stream events) ↔
        ¬(Conn.run cfg start events).Starved cfg)) := by
  have htracks := Conn.run_tracks cfg start events
  have hfirst := Conn.dispatched_isPrefix htracks
  refine ⟨hfirst, fun hsome => ?_, fun hfailed more => ?_, fun hcut eof => ?_⟩
  · apply hello_of_framing
    intro hnil
    rw [hnil] at hfirst
    exact hsome (prefix_nil.1 hfirst)
  · have hended : (Conn.run cfg start events).ended.isSome = true := by
      cases he : (Conn.run cfg start events).ended with
      | none => simp [Conn.failed, he] at hfailed
      | some e => rfl
    have hrun : Conn.run cfg start (events ++ more) = more.foldl (Conn.turn cfg) (Conn.run cfg start events) := by
      simp [Conn.run]
    rw [hrun, Conn.foldl_turn_of_ended hended]
  · have hrun : Conn.run cfg start (events ++ [⟨eof, .read []⟩])
        = (Conn.run cfg start events).turn cfg ⟨eof, .read []⟩ := by
      simp [Conn.run]
    rw [hrun, Conn.dispatched_turn_eof, ← Conn.ahead_nil_iff htracks hcut, Conn.framing_eq htracks hcut]
    constructor
    · intro h
      simpa using h
    · intro h
      rw [h, append_nil]

/-! ## How much is buffered -/

namespace Conn

variable {s t : Conn} {most : ℕ} (now : ℕ)

/-- The tokens of the second are used up. -/
def OutOfTokens (cfg : Config) (s : Conn) : Prop := 0 < cfg.maxOpsPerSec ∧ s.tokensRemaining = 0

/-- No bytes are read while the tokens are used up. -/
def Calm (cfg : Config) (s : Conn) (e : Event) : Prop := e.bytes = [] ∨ ¬s.OutOfTokens cfg

/-- The buffer holds less than the longest frame, unless the tokens are used up. -/
def Short (cfg : Config) (s : Conn) : Prop := s.OutOfTokens cfg ∨ s.acc.length < headerSize + cfg.maxFrameSize

/-- The buffer holds at most the longest frame and one read. -/
structure Fits (cfg : Config) (most : ℕ) (s : Conn) : Prop where
  bounded : s.acc.length ≤ headerSize + cfg.maxFrameSize + most
  short : s.ended = none → s.Short cfg

theorem length_hello : s.hello.acc.length ≤ s.acc.length := by
  rcases hello_cases s with ⟨h, -⟩ | ⟨e, -, h, -⟩ | ⟨h, -⟩ <;> simp [h]

theorem length_auth (cfg : Config) (s : Conn) : (s.auth cfg).acc.length ≤ s.acc.length := by
  unfold auth
  repeat' split
  all_goals simp

theorem length_drain : (s.drain cfg).acc.length ≤ s.acc.length := by
  by_cases hdone : s.helloDone = true ∧ s.authDone = true
  · obtain ⟨xs, t, heq, -, -, hlen, -⟩ := drain_done hdone.1 hdone.2
    rw [heq]
    exact hlen
  · rw [drain_early hdone]

theorem length_pass (s : Conn) : (s.pass cfg now).acc.length ≤ s.acc.length := by
  obtain ⟨tokens, window, hrefill⟩ := refill_eq cfg now s
  have hhello : (s.refill cfg now).hello.acc.length ≤ s.acc.length := by
    rw [hrefill]
    exact length_hello
  have hauth := (length_auth cfg (s.refill cfg now).hello).trans hhello
  unfold pass
  simp only
  split
  · exact hhello
  split
  · exact hauth
  · exact length_drain.trans hauth

theorem Settled.short (h : s.Settled cfg) : s.Short cfg := by
  cases hh : s.helloDone with
  | false =>
    have hfew := h.hello hh
    unfold helloFrameSize at hfew
    right
    unfold headerSize
    omega
  | true =>
    cases ha : s.authDone with
    | false =>
      have hlimit : authLimit cfg ≤ cfg.maxFrameSize := min_le_right _ _
      have hshort := (h.auth hh ha).length_lt
      exact .inr (by omega)
    | true => exact (h.drained hh ha).imp_right Begun.length_lt

theorem acc_wait (e : Event) : (s.wait e.ready).acc = s.acc ++ e.bytes := by
  obtain ⟨now, ready⟩ := e
  cases ready with
  | read chunk => cases chunk <;> simp [wait, Event.bytes]
  | timer => by_cases h : s.authDone <;> simp [wait, Event.bytes, h]
  | _ => exact (append_nil _).symm

theorem Fits.wait (h : s.Fits cfg most) (hopen : s.ended = none) (e : Event) (hread : e.bytes.length ≤ most)
    (hcalm : s.Calm cfg e) : (s.wait e.ready).acc.length ≤ headerSize + cfg.maxFrameSize + most := by
  rw [acc_wait, length_append]
  rcases hcalm with hnone | htokens
  · rw [hnone]
    exact h.bounded
  · have hroom := (h.short hopen).resolve_left htokens
    omega

theorem Fits.turn (h : s.Fits cfg most) (e : Event) (hread : e.bytes.length ≤ most) (hcalm : s.Calm cfg e) :
    (s.turn cfg e).Fits cfg most := by
  unfold Conn.turn
  split
  · exact h
  next hopen =>
  have hwait := h.wait (by simpa using hopen) e hread hcalm
  split
  · next hended => exact ⟨hwait, fun hc => by simp [hc] at hended⟩
  · exact ⟨(length_pass _ _).trans hwait, fun hc => (pass_settled e.now hc).short⟩

end Conn

/-- **The buffer is never longer than a frame and one read**, after a turn and right after a read, in every run that
reads nothing while it is out of tokens. -/
theorem buffer_bounded (cfg : Config) (now most : ℕ) (events : List Conn.Event)
    (hread : ∀ e ∈ events, e.bytes.length ≤ most)
    (hcalm : Run.Guarded (Conn.turn cfg) (Conn.Calm cfg) (Conn.start cfg now) events) :
    let s := Conn.run cfg now events
    s.acc.length ≤ headerSize + cfg.maxFrameSize + most ∧ ∀ e : Conn.Event, s.ended = none → e.bytes.length ≤ most →
      s.Calm cfg e → (s.wait e.ready).acc.length ≤ headerSize + cfg.maxFrameSize + most := by
  have hfits : (events.foldl (Conn.turn cfg) (Conn.start cfg now)).Fits cfg most := by
    have hstart : (Conn.start cfg now).Fits cfg most := ⟨Nat.zero_le _, fun _ => .inr (by simp [Conn.start, headerSize])⟩
    generalize Conn.start cfg now = s at hstart hcalm
    induction events generalizing s with
    | nil => exact hstart
    | cons e events ih =>
      exact ih (fun x hx => hread x (mem_cons_of_mem _ hx)) _ (hstart.turn e (hread e mem_cons_self) hcalm.1) hcalm.2
  exact ⟨hfits.bounded, fun e hopen hread hcalm => hfits.wait hopen e hread hcalm⟩

namespace Throttled

/-- `HelloFrame::new(Role::Client)`. -/
def hello : Bytes := [0x41, 0x52, 0x42, 0x32, 2, 0, 0, 0]

def ping : Bytes := [0x01, 0x06, 0, 0, 0, 0, 0, 0, 0, 0, 0, 0, 0, 0, 0, 0]

/-- No credentials, and so many frames in a second. -/
def config (maxOpsPerSec : ℕ) : Config :=
  { authenticator := .disabled, maxFrameSize := 1024, maxOpsPerSec := maxOpsPerSec }

/-- A Hello and two pings, the second in two chunks. -/
def events : List Conn.Event :=
  [⟨0, .read (hello ++ ping ++ ping.take 3)⟩, ⟨1, .read (ping.drop 3)⟩]

/-- Without a limit both pings are dispatched. -/
theorem unlimited_dispatched :
    (Conn.run (config 0) 0 (events ++ [⟨2, .read []⟩])).dispatched = framing (config 0) (stream events) :=
  ((dispatched_eq_framing_iff (config 0) 0 events).2.2.2 (by decide +kernel) 2).2 (by decide +kernel)

/-- With one frame a second, the client that closes its side at once has its second ping dropped; with a second in
between it is dispatched. -/
theorem limited_dropped :
    (Conn.run (config 1) 0 (events ++ [⟨2, .read []⟩])).dispatched = [ping] ∧
    (Conn.run (config 1) 0 (events ++ [⟨1000, .timer⟩, ⟨1001, .read []⟩])).dispatched = [ping, ping] ∧
    framing (config 1) (stream events) = [ping, ping] := by
  decide +kernel

/-- With three frames a second nothing is read while the loop is out of tokens, a third ping included. -/
theorem unhurried_bounded : (Conn.run (config 3) 0 events).acc.length ≤ headerSize + 1024 + 27 ∧
    ((Conn.run (config 3) 0 events).wait (.read ping)).acc.length ≤ headerSize + 1024 + 27 := by
  have hcalm : Run.Guarded (Conn.turn (config 3)) (Conn.Calm (config 3)) (Conn.start (config 3) 0) events :=
    ⟨.inr fun h => absurd h.2 (by decide +kernel), .inr fun h => absurd h.2 (by decide +kernel), trivial⟩
  obtain ⟨hturn, hread⟩ := buffer_bounded (config 3) 0 27 events (by decide) hcalm
  exact ⟨hturn, hread ⟨2, .read ping⟩ (by decide +kernel) (by decide) (.inr fun h => absurd h.2 (by decide +kernel))⟩

/-- One ping is dispatched; those that follow in the same second are read and kept. -/
def flood : List Conn.Event := ⟨0, .read (hello ++ ping)⟩ :: replicate 3 ⟨1, .read ping⟩

theorem flood_buffered : (∀ e ∈ flood, e.bytes.length ≤ 24) ∧
    headerSize + 1 + 24 < (Conn.run { config 1 with maxFrameSize := 1 } 0 flood).acc.length := by
  decide +kernel

end Throttled

end ReadLoop

end Arbitro
