import Arbitro.Engine.Basic

/-!
# Crons

`CronRegistry`: the scheduled jobs with the connections that work on them. A fire goes to one
worker, in turn, and is in flight until it is acknowledged.

Which expressions parse is a parameter. Times are left out: whether a fire is due and whether
the one in flight has run out of time comes from outside.
-/

namespace Arbitro

def maxCronSlots : ℕ := 10000

def maxWorkersPerSlot : ℕ := 1000

def defaultTimeoutMs : ℕ := 3600000

structure CronSlot where
  every : Bytes
  tz : Option Bytes
  timeoutMs : ℕ
  overlap : Bool
  /-- The workers. -/
  connections : List ConnectionId
  cursor : ℕ := 0
  running : Bool := false
  /-- Who got the fire in flight. -/
  runningConn : Option ConnectionId := none
  fireCount : ℕ := 0
  paused : Bool := false
  deriving DecidableEq, Repr

/-- The body of a `CreateCron`. -/
structure CreateCronReq where
  name : Bytes
  every : Bytes
  tz : Option Bytes
  timeoutMs : ℕ
  overlap : Bool
  deriving DecidableEq, Repr

inductive CronError where
  | invalidExpression
  | tooManyWorkers
  | tooManySlots
  deriving DecidableEq, Repr

namespace CronSlot

variable (s : CronSlot)

/-- `CronSlot::new`: no timeout stands for the default. -/
def new (req : CreateCronReq) (conn : ConnectionId) : CronSlot where
  every := req.every
  tz := req.tz
  timeoutMs := if req.timeoutMs = 0 then defaultTimeoutMs else req.timeoutMs
  overlap := req.overlap
  connections := [conn]

/-- No fire is in flight. -/
def clearRunning : CronSlot := { s with running := false, runningConn := none }

def nextWorker : Option ConnectionId × CronSlot :=
  match s.connections[s.cursor % s.connections.length]? with
  | none => (none, s)
  | some conn => (some conn, { s with cursor := (s.cursor % s.connections.length + 1) % s.connections.length })

def removeConnection (conn : ConnectionId) : CronSlot :=
  let connections := s.connections.filter (· != conn)
  let s := { s with
    connections := connections
    cursor := if 0 < s.cursor ∧ connections.length ≤ s.cursor then 0 else s.cursor }
  if s.runningConn = some conn then s.clearRunning else s

def checkTimeout (elapsed : Bool) : CronSlot :=
  if s.running && s.timeoutMs != 0 && elapsed then s.clearRunning else s

/-- One slot in a tick, and whom the fire goes to. -/
def tick (elapsed due : Bool) : Option ConnectionId × CronSlot :=
  let s := s.checkTimeout elapsed
  if s.paused || !due then (none, s)
  else if s.running && !s.overlap then (none, s.clearRunning)
  else
    match s.nextWorker with
    | (none, s) => (none, s)
    | (some conn, s) =>
      (some conn, { s with fireCount := s.fireCount + 1, running := true, runningConn := some conn })

/-- The slot has the connection among its workers, or waits for it. -/
def refersTo (conn : ConnectionId) : Bool := s.connections.contains conn || s.runningConn == some conn

end CronSlot

/-- `CronRegistry`, by name. -/
abbrev CronRegistry := Map Bytes CronSlot

variable (r : CronRegistry)

namespace CronRegistry

/-- `create`: a name that exists gets another worker. -/
def create (validCron : Bytes → Bool) (r : CronRegistry) (req : CreateCronReq) (conn : ConnectionId) :
    Except CronError CronRegistry :=
  if !validCron req.every then .error .invalidExpression
  else
    match r.lookup req.name with
    | some slot =>
      if slot.connections.contains conn then .ok r
      else if maxWorkersPerSlot ≤ slot.connections.length then .error .tooManyWorkers
      else .ok (r.insert req.name { slot with connections := slot.connections ++ [conn] })
    | none =>
      if maxCronSlots ≤ r.entries.length then .error .tooManySlots
      else .ok (r.insert req.name (.new req conn))

def delete (name : Bytes) : CronRegistry := r.erase name

/-- `remove_connection`: a slot without workers goes. -/
def removeConnection (r : CronRegistry) (conn : ConnectionId) : CronRegistry :=
  Map.retain (fun _ slot =>
    let slot := slot.removeConnection conn
    if slot.connections.isEmpty then none else some slot) r

def ack (name : Bytes) : CronRegistry :=
  match r.lookup name with
  | none => r
  | some slot => r.insert name slot.clearRunning

/-- `tick`, and the fires to send. -/
def tick (r : CronRegistry) (elapsed due : Bytes → Bool) : List (ConnectionId × Bytes) × CronRegistry :=
  (r.entries.filterMap fun e => (e.2.tick (elapsed e.1) (due e.1)).1.map fun conn => (conn, e.1),
    Map.retain (fun name slot => some (slot.tick (elapsed name) (due name)).2) r)

/-- The slot of that name refers to the connection. -/
def RefersAt (name : Bytes) (conn : ConnectionId) : Prop :=
  ∃ slot, r.lookup name = some slot ∧ slot.refersTo conn = true

/-- Some slot refers to the connection. -/
def RefersTo (conn : ConnectionId) : Prop := ∃ name, r.RefersAt name conn

end CronRegistry

/-! ## Runs -/

/-- The registry. `inFlight` is a book: who got the last fire of a job and its number, until it
has ended. -/
structure CronRun where
  crons : CronRegistry := ∅
  inFlight : Bytes → Option (ConnectionId × ℕ) := fun _ => none

namespace CronRun

/-- What can happen. An ack comes from a connection, which has a certain fire in mind. -/
inductive Action where
  | create (req : CreateCronReq) (conn : ConnectionId)
  | delete (name : Bytes)
  | removeConnection (conn : ConnectionId)
  | ack (name : Bytes) (conn : ConnectionId) (fire : ℕ)
  | tick (elapsed due : Bytes → Bool)

/-- The fire in flight after a tick: a new one, or none if the old one has timed out or was
skipped for one interval. -/
def afterTick (slot : CronSlot) (elapsed due : Bool) (current : Option (ConnectionId × ℕ)) :
    Option (ConnectionId × ℕ) :=
  match (slot.tick elapsed due).1 with
  | some conn => some (conn, slot.fireCount + 1)
  | none =>
    if slot.timeoutMs != 0 && elapsed || !slot.paused && due && !slot.overlap then none else current

/-- `v2_cron_ack` hands on the name alone. A job that is created has no fire in flight. -/
def step (validCron : Bytes → Bool) (s : CronRun) : Action → CronRun
  | .create req conn =>
    ⟨(s.crons.create validCron req conn).toOption.getD s.crons,
      if s.crons.lookup req.name = none then Function.update s.inFlight req.name none else s.inFlight⟩
  | .delete name => { s with crons := s.crons.delete name }
  | .removeConnection conn =>
    ⟨s.crons.removeConnection conn, fun name => (s.inFlight name).filter (·.1 != conn)⟩
  | .ack name conn fire =>
    ⟨s.crons.ack name,
      if s.inFlight name = some (conn, fire) then Function.update s.inFlight name none else s.inFlight⟩
  | .tick elapsed due =>
    ⟨(s.crons.tick elapsed due).2, fun name =>
      (s.crons.lookup name).bind fun slot => afterTick slot (elapsed name) (due name) (s.inFlight name)⟩

end CronRun

end Arbitro
