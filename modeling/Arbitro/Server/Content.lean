import Arbitro.Server.Registry
import Arbitro.Shard.Store

/-!
# Requests on the content of a stream

`DeleteMessage`, `PurgeStream`, `DrainSubject` and `DeleteStream` name a stream. The
dispatcher hashes the name, asks the registry for the stream's id, and sends the command
to the shard the id is routed to; the shard applies it to its journal.
-/

namespace Arbitro

/-- A client's request. -/
inductive ContentRequest where
  | deleteMessage (name : Bytes) (seq : ℕ)
  | purgeStream (name : Bytes)
  | drainSubject (name subject : Bytes)
  | deleteStream (name : Bytes)

def ContentRequest.name : ContentRequest → Bytes
  | .deleteMessage name _ => name
  | .purgeStream name => name
  | .drainSubject name _ => name
  | .deleteStream name => name

/-- What reaches the shard. -/
inductive ContentCmd where
  | deleteMessage (seq : ℕ)
  | purgeStream (id : StreamId)
  | drainSubject (id : StreamId) (subject : Bytes)
  | deleteStream (id : StreamId)

/-- The command a request becomes once its stream is known. A `DeleteMessage` takes the
seq alone along. -/
def ContentRequest.command (id : StreamId) : ContentRequest → ContentCmd
  | .deleteMessage _ seq => .deleteMessage seq
  | .purgeStream _ => .purgeStream id
  | .drainSubject _ subject => .drainSubject id subject
  | .deleteStream _ => .deleteStream id

/-- `handle_delete_message`, `handle_purge_stream`, `handle_drain_subject` and
`handle_delete_stream`, as far as the journal goes: entries of a deleted stream stay, and
the drain tells incarnations apart by their birth seq. -/
def Journal.handleContent (backend : Backend) (j : Journal) : ContentCmd → Journal
  | .deleteMessage seq => (j.tombstoneAt seq).1
  | .purgeStream id => j.tombstoneStream backend id
  | .drainSubject id subject => j.drain backend id subject
  | .deleteStream _ => j

/-- The registry and the journals of the shards. -/
structure StreamBroker where
  names : StreamRegistry := {}
  shardCount : ℕ
  backend : Backend
  stores : ℕ → Journal := fun _ => {}

namespace StreamBroker

def shardFor (b : StreamBroker) (id : StreamId) : ℕ := id % b.shardCount

/-- `v2_delete_message`, `v2_purge_stream`, `v2_drain_subject`, `v2_delete_stream`: an
unknown name is answered with an error; a deleted stream leaves the registry. -/
def request (wireHash32 : WireHash) (b : StreamBroker) (req : ContentRequest) : StreamBroker :=
  match b.names.streamSeq (wireHash32 req.name) with
  | none => b
  | some id =>
    let i := b.shardFor id
    { b with
      names := match req with
        | .deleteStream name => b.names.removeStream (wireHash32 name)
        | _ => b.names
      stores := Function.update b.stores i ((b.stores i).handleContent b.backend (req.command id)) }

end StreamBroker

end Arbitro
