import Arbitro.Engine.Basic
import Arbitro.Lib.LittleEndian
import Arbitro.Lib.Scan
import Mathlib.Data.List.DropRight

/-!
# The read loop of a connection

`read_loop` collects the bytes of a connection in one buffer. It takes from it the Hello, the
Auth frame where credentials are required, and then frame after frame, which it dispatches. A
turn of the loop works off the buffer and then waits for what comes first: bytes, the end of
the stream, a timer, or the shutdown of the server.

Of a dispatched frame only its bytes are kept, and whether `dispatch_frame_v2` takes it. Times
are in milliseconds. The stamps of last activity are left out.
-/

namespace Arbitro

namespace ReadLoop

/-- The codes that the loop closes a connection with. -/
inductive ErrorCode where
  | invalidLength
  | authRequired
  | authFailed
  deriving DecidableEq, Repr

/-! ## Authentication -/

inductive Permission where
  | publish
  | consume
  | admin
  deriving DecidableEq, Repr

structure AuthUser where
  username : Bytes
  token : Bytes
  permissions : List Permission
  deriving DecidableEq, Repr

structure Identity where
  username : Option Bytes := none
  permissions : List Permission := []
  deriving DecidableEq, Repr

def Identity.hasPermission (identity : Identity) (p : Permission) : Bool :=
  identity.permissions.isEmpty || identity.permissions.contains p || identity.permissions.contains .admin

inductive AuthOutcome where
  | allow (identity : Identity)
  | deny (code : ErrorCode)
  deriving DecidableEq, Repr

inductive Authenticator where
  | disabled
  | token (shared : Option Bytes) (users : List AuthUser)
  deriving DecidableEq, Repr

/-! The value of `ARBITRO_AUTH_USERS` is a list of characters. -/

def isWhitespace (c : Char) : Bool :=
  (0x9 ≤ c.val && c.val ≤ 0xD) || (0x2000 ≤ c.val && c.val ≤ 0x200A) ||
    [0x20, 0x85, 0xA0, 0x1680, 0x2028, 0x2029, 0x202F, 0x205F, 0x3000].contains c.val

def trim (text : List Char) : List Char := (text.dropWhile isWhitespace).rdropWhile isWhitespace

/-- `str::splitn` with a separator. -/
def splitn (sep : Char) : ℕ → List Char → List (List Char)
  | 0, _ => []
  | 1, text => [text]
  | n + 2, text =>
    match text.span (· ≠ sep) with
    | (part, []) => [part]
    | (part, _ :: rest) => part :: splitn sep (n + 1) rest

def asBytes (text : List Char) : Bytes := text.flatMap String.utf8EncodeChar

def Permission.parse (word : List Char) : Option Permission :=
  if word = "publish".toList then some .publish
  else if word = "consume".toList then some .consume
  else if word = "admin".toList then some .admin
  else none

/-- One entry of `parse_users`. -/
def parseUser (entry : List Char) : Option AuthUser :=
  match splitn ':' 3 (trim entry) with
  | username :: token :: rest =>
    some
      { username := asBytes username
        token := asBytes token
        -- an entry without a second colon has the list `""`
        permissions := ((rest.headD []).splitOn ',').filterMap fun word => Permission.parse (trim word) }
  | _ => none

/-- `parse_users`. An entry that is empty once trimmed has no token either. -/
def parseUsers (raw : List Char) : List AuthUser := (raw.splitOn ';').filterMap parseUser

def constantTimeEq (a b : Bytes) : Bool :=
  if a.length ≠ b.length then false
  else (a.zip b).foldl (fun diff p => diff ||| (p.1 ^^^ p.2)) (0 : UInt8) == 0

namespace Authenticator

/-- `from_config` with the value of `ARBITRO_AUTH_USERS`, which is empty where it is not set. -/
def fromConfig (shared : Option Bytes) (raw : List Char) : Authenticator :=
  if shared.isNone && (parseUsers raw).isEmpty then disabled else token shared (parseUsers raw)

def requiresCredentials : Authenticator → Bool
  | disabled => false
  | token _ _ => true

/-- `authenticate`, on the token of the credentials. -/
def authenticate (auth : Authenticator) (credentials : Option Bytes) : AuthOutcome :=
  match auth with
  | disabled => .allow {}
  | token shared users =>
    match credentials with
    | none => .deny .authRequired
    | some presented =>
      if shared.any (constantTimeEq presented) then .allow {}
      else
        -- every user is looked at; the last one with this token is taken
        match users.foldl (fun matched u => if constantTimeEq presented u.token then some u else matched) none with
        | some user => .allow { username := some user.username, permissions := user.permissions }
        | none => .deny .authFailed

end Authenticator

/-! ## Frames -/

/-- The wire actions. -/
inductive Action where
  | hello | auth
  | publish | publishBatch | publishWithReply
  | deliver | ack | nack | repOk | repError | repBatch | batchAck | fanoutBatch | batchNack | ackTerm
  | subscribe | unsubscribe | subscribeBatch | repSubscribeBatch
  | createStream | deleteStream | getStream | listStreams | purgeStream | drainSubject | deleteMessage
  | createConsumer | deleteConsumer | getConsumer | listConsumers | consumerStats | pauseConsumer | resumeConsumer
  | ping | pong | disconnect
  | createCron | deleteCron | listCrons | cronFire | cronAck
  | publishDelayed
  | ackStateReq | ackStateRep | ackBatch | ackBatchResp
  deriving DecidableEq, Repr

namespace Action

/-- `Action::from_u16`. -/
def fromU16 : ℕ → Option Action
  | 0x0001 => some hello
  | 0x0002 => some auth
  | 0x0101 => some publish
  | 0x0103 => some publishBatch
  | 0x0104 => some publishWithReply
  | 0x0200 => some deliver
  | 0x0201 => some ack
  | 0x0202 => some nack
  | 0x0203 => some repOk
  | 0x0204 => some repError
  | 0x0205 => some repBatch
  | 0x0206 => some batchAck
  | 0x0207 => some fanoutBatch
  | 0x020A => some batchNack
  | 0x020B => some ackTerm
  | 0x0301 => some subscribe
  | 0x0302 => some unsubscribe
  | 0x0303 => some subscribeBatch
  | 0x0304 => some repSubscribeBatch
  | 0x0401 => some createStream
  | 0x0402 => some deleteStream
  | 0x0403 => some getStream
  | 0x0404 => some listStreams
  | 0x0405 => some purgeStream
  | 0x0406 => some drainSubject
  | 0x0407 => some deleteMessage
  | 0x0501 => some createConsumer
  | 0x0502 => some deleteConsumer
  | 0x0503 => some getConsumer
  | 0x0504 => some listConsumers
  | 0x0505 => some consumerStats
  | 0x0506 => some pauseConsumer
  | 0x0507 => some resumeConsumer
  | 0x0601 => some ping
  | 0x0602 => some pong
  | 0x0605 => some disconnect
  | 0x0801 => some publishDelayed
  | 0x0701 => some createCron
  | 0x0702 => some deleteCron
  | 0x0703 => some listCrons
  | 0x0704 => some cronFire
  | 0x0705 => some cronAck
  | 0x0A01 => some ackStateReq
  | 0x0A02 => some ackStateRep
  | 0x0A03 => some ackBatch
  | 0x0A04 => some ackBatchResp
  | _ => none

/-- The actions that have an arm of their own in `dispatch_frame_v2`. -/
def served : Action → Bool
  | hello | deliver | repOk | repError | repBatch | fanoutBatch | repSubscribeBatch | ackStateRep | ackBatchResp =>
    false
  | _ => true

end Action

/-- `HEADER_SIZE_V2`. -/
def headerSize : ℕ := 16

def helloFrameSize : ℕ := 8

/-- `ARBITRO_MAGIC_V2`, the bytes `ARB2`. -/
def magicV2 : ℕ := 0x32425241

def maxAuthFrameBody : ℕ := 4096

/-- `Action::Auth.as_u16()`. -/
def authAction : ℕ := 0x0002

def magicOf (bytes : Bytes) : ℕ := LittleEndian.field bytes 0 4

def actionOf (bytes : Bytes) : ℕ := LittleEndian.field bytes 0 2

def msgLen (bytes : Bytes) : ℕ := LittleEndian.field bytes 4 4

/-- `HelloFrame::parse` returns `Some`. -/
def helloParses (bytes : Bytes) : Bool := helloFrameSize ≤ bytes.length && magicOf bytes == magicV2

/-- `dispatch_frame_v2` returns `Ok`. -/
def dispatchFrame (frame : Bytes) : Bool :=
  headerSize ≤ frame.length && (Action.fromU16 (actionOf frame)).any Action.served

/-! ## The loop -/

structure Config where
  authenticator : Authenticator
  maxFrameSize : ℕ
  /-- Frames per second, zero for no limit. -/
  maxOpsPerSec : ℕ
  deriving DecidableEq, Repr

/-- Why the loop has been left. -/
inductive Ending where
  | notV2
  | malformedHello
  | authMissing
  | authTooLong
  | denied (code : ErrorCode)
  | frameTooLong
  | malformedFrame
  | endOfStream
  | readError
  | shutdown
  | handshakeDeadline
  deriving DecidableEq, Repr

/-- The loop was not left because of the bytes that the client has sent. -/
def Ending.outside : Ending → Bool
  | endOfStream | readError | shutdown | handshakeDeadline => true
  | _ => false

structure Conn where
  acc : Bytes := []
  helloDone : Bool := false
  authDone : Bool
  tokensRemaining : ℕ
  windowStart : ℕ
  identity : Identity := {}
  ended : Option Ending := none
  /-- The frames that have been dispatched. -/
  dispatched : List Bytes := []
  deriving DecidableEq, Repr

namespace Conn

variable (cfg : Config) (s : Conn)

/-- The state that `read_loop` starts in. -/
def start (now : ℕ) : Conn :=
  { authDone := !cfg.authenticator.requiresCredentials, tokensRemaining := cfg.maxOpsPerSec, windowStart := now }

def refill (now : ℕ) (s : Conn) : Conn :=
  let elapsed := now - s.windowStart
  if 0 < cfg.maxOpsPerSec ∧ 1000 ≤ elapsed then
    { s with windowStart := s.windowStart + elapsed / 1000 * 1000, tokensRemaining := cfg.maxOpsPerSec }
  else s

def hello : Conn :=
  if s.helloDone = false ∧ 4 ≤ s.acc.length then
    if magicOf s.acc ≠ magicV2 then { s with ended := some .notV2 }
    else if helloFrameSize ≤ s.acc.length then
      if helloParses (s.acc.take helloFrameSize) then { s with acc := s.acc.drop helloFrameSize, helloDone := true }
      else { s with ended := some .malformedHello }
    else s
  else s

/-- The bytes that an Auth frame may carry. -/
def authLimit : ℕ := min maxAuthFrameBody cfg.maxFrameSize

def auth : Conn :=
  if s.helloDone = true ∧ s.authDone = false ∧ headerSize ≤ s.acc.length then
    if actionOf s.acc ≠ authAction then { s with ended := some .authMissing }
    else if authLimit cfg < msgLen s.acc then { s with ended := some .authTooLong }
    else if headerSize + msgLen s.acc ≤ s.acc.length then
      match cfg.authenticator.authenticate (some ((s.acc.drop headerSize).take (msgLen s.acc))) with
      | .deny code => { s with ended := some (.denied code) }
      | .allow identity =>
        { s with acc := s.acc.drop (headerSize + msgLen s.acc), authDone := true, identity := identity }
    else s
  else s

/-- A turn of the loop that drains the buffer: none where it is left. -/
def takeFrame : Option (Option Bytes × Conn) :=
  if s.ended.isSome then none
  else if 0 < cfg.maxOpsPerSec ∧ s.tokensRemaining = 0 then none
  else if s.acc.length < headerSize then none
  else if cfg.maxFrameSize < msgLen s.acc then some (none, { s with ended := some .frameTooLong })
  else if s.acc.length < headerSize + msgLen s.acc then none
  else
    let frame := s.acc.take (headerSize + msgLen s.acc)
    let s := { s with acc := s.acc.drop (headerSize + msgLen s.acc) }
    if dispatchFrame frame then
      some (some frame, if 0 < cfg.maxOpsPerSec then { s with tokensRemaining := s.tokensRemaining - 1 } else s)
    else some (some frame, { s with ended := some .malformedFrame })

def drain : Conn :=
  if s.helloDone ∧ s.authDone then
    let r := Scan.walk (takeFrame cfg) (s.acc.length + 2) s
    { r.2 with dispatched := s.dispatched ++ r.1 }
  else s

/-- The loop from its top to the wait. -/
def pass (now : ℕ) (s : Conn) : Conn :=
  let s := hello (refill cfg now s)
  if s.ended.isSome then s
  else
    let s := auth cfg s
    if s.ended.isSome then s else drain cfg s

/-- What a wait ends with. No bytes are the end of the stream. -/
inductive Ready where
  | read (chunk : Bytes)
  | readError
  | shutdown
  | timer
  deriving DecidableEq, Repr

def wait : Ready → Conn
  | .read [] => { s with ended := some .endOfStream }
  | .read chunk => { s with acc := s.acc ++ chunk }
  | .readError => { s with ended := some .readError }
  | .shutdown => { s with ended := some .shutdown }
  -- before the client is authenticated the timer is the deadline of the handshake, then the next window
  | .timer => if s.authDone then s else { s with ended := some .handshakeDeadline }

structure Event where
  now : ℕ
  ready : Ready
  deriving DecidableEq, Repr

/-- A wait, and the loop up to the next one. -/
def turn (e : Event) : Conn :=
  if s.ended.isSome then s
  else if (s.wait e.ready).ended.isSome then s.wait e.ready
  else pass cfg e.now (s.wait e.ready)

/-- A connection that was accepted at a time. On the empty buffer the first pass does nothing. -/
def run (now : ℕ) (events : List Event) : Conn := events.foldl (turn cfg) (start cfg now)

end Conn

def Conn.Event.bytes (e : Conn.Event) : Bytes :=
  match e.ready with
  | .read chunk => chunk
  | _ => []

/-- The byte stream whose chunks the events are. -/
def stream (events : List Conn.Event) : Bytes := events.flatMap Conn.Event.bytes

end ReadLoop

end Arbitro
