import Arbitro.Engine.Basic
import Arbitro.Lib.LittleEndian
import Arbitro.Lib.Scan

/-!
# The command log

`CommandLog` keeps the metadata commands of a broker in one file that is opened for
appending and never cut. A record is a length, a CRC-32 and the command. `replay` reads
records until the file ends inside one.

A broker process is a *session*: it records commands and ends in a shutdown or in a
crash. A crash happens between two records or leaves some first bytes of one record;
other failures of the file system are left out, and so is the fsync policy.
-/

namespace Arbitro

/-- `crc32fast::hash`: nothing is assumed about it beyond its type. -/
abbrev Crc32 := Bytes → UInt32

variable (crc : Crc32)

/-- A checksum to evaluate runs with. -/
def sampleCrc : Crc32 := fun bytes => bytes.foldl (fun c b => 31 * c + b.toUInt32 + 1) 7

namespace CommandLog

def maxReplayEntryLen : ℕ := 2 ^ 20

/-- The text of the error that `record` returns. -/
def tooLarge (len : ℕ) : String :=
  "metadata command too large: " ++ toString len ++ " bytes (max " ++ toString maxReplayEntryLen ++ ")"

/-- The buffer `record` writes. -/
def frame (command : Bytes) : Bytes :=
  LittleEndian.encode 4 command.length ++ LittleEndian.encode 4 (crc command).toNat ++ command

/-- `record`: the file with the command, or the text of the error. -/
def record (file command : Bytes) : Except String Bytes :=
  if maxReplayEntryLen < command.length then .error (tooLarge command.length)
  else .ok (file ++ frame crc command)

/-- `MetadataCommandView::new(..).is_some()`. -/
def isCommand (payload : Bytes) : Bool := !payload.isEmpty

/-- A turn of the loop in `replay`, on what is left of the file. -/
def replayEntry (rest : Bytes) : Option (Option Bytes × Bytes) :=
  -- clean end of the file
  if rest.length < 4 then none
  else
    let len := LittleEndian.decode (rest.take 4)
    -- the reader is behind the length: the CRC of such an entry is taken for a length
    if len = 0 then some (none, rest.drop 4)
    else if maxReplayEntryLen < len then none
    else if rest.length < 8 then none
    else if rest.length < 8 + len then none
    else
      let storedCrc := LittleEndian.decode ((rest.drop 4).take 4)
      let payload := (rest.drop 8).take len
      let applied := storedCrc = (crc payload).toNat ∧ isCommand payload
      some (if applied then some payload else none, rest.drop (8 + len))

/-- `replay`: the commands that are applied, in order. -/
def replay (file : Bytes) : List Bytes :=
  (Scan.walk (replayEntry crc) (file.length + 1) file).1

/-! ## Sessions -/

inductive Ending where
  | clean
  /-- A crash in `record`, with so many bytes of the record in the file. -/
  | crash (command : Bytes) (written : ℕ)
  deriving DecidableEq, Repr

structure Session where
  commands : List Bytes
  ending : Ending
  deriving DecidableEq, Repr

/-- The file, and the commands whose `record` has returned `Ok`. -/
structure Ledger where
  file : Bytes := []
  recorded : List Bytes := []
  deriving DecidableEq, Repr

/-- A call of `record`. -/
def Ledger.record (crc : Crc32) (l : Ledger) (command : Bytes) : Ledger :=
  match CommandLog.record crc l.file command with
  | .error _ => l
  | .ok file => { file := file, recorded := l.recorded ++ [command] }

/-- The bytes of a command that a crash has left in the file. -/
def torn (command : Bytes) (written : ℕ) : Bytes :=
  match CommandLog.record crc [] command with
  | .error _ => []
  | .ok file => file.take written

def Ending.leaves : Ending → Bytes
  | .clean => []
  | .crash command written => torn crc command written

/-- `open` takes the file as it is. -/
def Ledger.session (l : Ledger) (s : Session) : Ledger :=
  let l := s.commands.foldl (Ledger.record crc) l
  { l with file := l.file ++ s.ending.leaves crc }

/-- The ledger after a sequence of sessions. -/
def ledger (sessions : List Session) : Ledger := sessions.foldl (Ledger.session crc) {}

end CommandLog

end Arbitro
