import Arbitro.Server.Content

/-!
# Requests that name a stream, and their answers

Each handler hashes the name and asks the registry for the id; creation alone compares the
names.
-/

namespace Arbitro

variable (wireHash32 : WireHash) (b : StreamBroker)

/-- How many entries a command has removed. -/
def Journal.contentCount (backend : Backend) (j : Journal) : ContentCmd → ℕ
  | .deleteMessage seq => if (j.tombstoneAt seq).2 then 1 else 0
  | .purgeStream id => j.index.countP fun e => e.streamId == id && !e.tombstone
  | .drainSubject id subject =>
    match backend with
    | .memory => j.index.countP fun e => Journal.drained id subject e
    | .tolerant => j.index.countP fun e => !e.tombstone && Journal.drained id subject e
  | .deleteStream _ => 0

/-- A request that names a stream. -/
inductive StreamRequest where
  | content (req : ContentRequest)
  | getStream (name : Bytes)

def StreamRequest.name : StreamRequest → Bytes
  | .content req => req.name
  | .getStream name => name

/-- A `RepOk` with its value, or `StreamNotFound`. -/
inductive StreamReply where
  | repOk (value : ℕ)
  | streamNotFound
  deriving DecidableEq, Repr

namespace StreamBroker

/-- The value of the answer. -/
def value (reqSeq : ℕ) (id : StreamId) : StreamRequest → ℕ
  | .content (.deleteStream _) => reqSeq
  | .content req => (b.stores (b.shardFor id)).contentCount b.backend (req.command id)
  | .getStream name => (wireHash32 name).toNat

/-- `v2_delete_message`, `v2_purge_stream`, `v2_drain_subject`, `v2_delete_stream` and
`v2_get_stream`, with the seq of the request. -/
def handle (reqSeq : ℕ) (req : StreamRequest) : StreamBroker × StreamReply :=
  match b.names.streamSeq (wireHash32 req.name) with
  | none => (b, .streamNotFound)
  | some id =>
    let after := match req with
      | .content req => b.request wireHash32 req
      | .getStream _ => b
    (after, .repOk (b.value wireHash32 reqSeq id req))

/-- What builds up the state of a broker; what the rules say of a create is part of it. -/
inductive Action where
  | createStream (name : Bytes) (admitted : Bool)
  | publish (wire : SubjectHash) (subject payload : Bytes) (flags timestamp : ℕ)
  | request (reqSeq : ℕ) (req : StreamRequest)

def step : Action → StreamBroker
  | .createStream name admitted =>
    match b.names.getOrCreateStreamChecked (wireHash32 name) name admitted with
    | none => b
    | some (_, _, names) => { b with names := names }
  | .publish wire subject payload flags timestamp =>
    match b.names.streamSeq wire with
    | none => b
    | some id =>
      let i := b.shardFor id
      { b with stores := Function.update b.stores i ((b.stores i).append ⟨id, subject, payload, flags⟩ timestamp) }
  | .request reqSeq req => (b.handle wireHash32 reqSeq req).1

/-- The state after actions from an empty broker. -/
def run (shardCount : ℕ) (backend : Backend) (actions : List Action) : StreamBroker :=
  actions.foldl (step wireHash32) { shardCount, backend }

end StreamBroker

end Arbitro
