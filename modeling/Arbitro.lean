import Arbitro.Proof.Gate
import Arbitro.Proof.FireAndForget
import Arbitro.Proof.Rewind
import Arbitro.Proof.Credit
import Arbitro.Proof.Auth
import Arbitro.Proof.Authority
import Arbitro.Proof.Evict
import Arbitro.Proof.Service
import Arbitro.Proof.SlotLog
import Arbitro.Proof.Resume
import Arbitro.Proof.CommandLog
import Arbitro.Proof.Share
import Arbitro.Proof.Tolerant
import Arbitro.Proof.Incarnations
import Arbitro.Proof.Streams
import Arbitro.Proof.Recovery
import Arbitro.Proof.ReadLoop
import Arbitro.Proof.RaftFaults
import Arbitro.Proof.ApplyLoop
import Arbitro.Proof.Teardown
import Arbitro.Proof.StateMachine
import Arbitro.Proof.Memory
import Arbitro.Proof.Pool
import Arbitro.Proof.Refused
