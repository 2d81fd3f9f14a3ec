import LineKeeper.Device
import LineKeeper.IdleTimer
import LineKeeper.Link
import LineKeeper.LogEvent
import LineKeeper.Message.Stream
import LineKeeper.Requests

/-!
# The server

The server holds lines on behalf of clients that may be long gone. It waits on
the listening socket, the signals, the idle timer and the connected clients, and
handles one event at a time.

**State.** A `Server` holds the sessions, the held requests and the idle timer,
together with what it works on: the device, the connections, the signals that
wait and the clock. What it does is recorded, in order, in its trace.

**Steps.** `begin` and `finish` handle an event; they are two because a line
request may wait in the device between them. `handle` is both. `batch` handles
events that were reported together, until one of them makes the server stop.
`turn` brings the idle timer up to date and then handles a batch. `drain` ends a
server that stops.

**Results.**
* `batch_of_stop`: after a reason to stop, no event of the batch is handled.
* `handle_unwatched`: an event of a client that was dropped changes nothing.
-/

namespace LineKeeper

/-- A session: its link, and who is at the other end. -/
structure Session where
  link : Nat
  peer : Peer
deriving DecidableEq, Repr

/-- Why the server stops. -/
inductive Stop
  | requested (client : ClientId)
  | signal (s : Signal)
  | idle
deriving DecidableEq, Repr

namespace Stop

/-- The reason that is reported in the end. -/
def reason : Stop → ShutdownReason
  | requested _ => .stopRequested
  | signal s => .signal s
  | idle => .idleTimeout

/-- The client that asked for the stop and gets an answer. -/
def stopper? : Stop → Option ClientId
  | requested client => some client
  | _ => none

end Stop

/-- Something the server did. -/
inductive Effect
  | log (event : LogEvent)
  | read (client : ClientId) (result : Except WireError Message)
  | wrote (client : ClientId) (m : Message)
  | closed (client : ClientId)
  | device (call : DeviceCall)
  | stoppedListening

/-- An event that was reported: the token of its receiver, and whether the connection is gone. -/
structure Readiness where
  token : UInt64
  hungUp : Bool
deriving DecidableEq, Repr

/-- A line request that was read and not yet carried out. -/
structure Job where
  client : ClientId
  owner : Int32
  spec : LineSpec
deriving DecidableEq

/-- The server and what it works on. -/
structure Server where
  sessions : Sessions Session
  requests : Requests Nat
  idle : IdleTimer
  watched : List UInt64
  stop : Option Stop
  device : Device
  net : Net
  signals : PendingSignals
  now : Nat
  trace : List Effect

namespace Server

/-- Adds to the trace. -/
def record (s : Server) (e : Effect) : Server :=
  { s with trace := s.trace ++ [e] }

/-- Reports an event. -/
def log (s : Server) (e : LogEvent) : Server :=
  s.record (.log e)

/-- A server that has just begun to listen. -/
def start (chips : Chips) (period : Nat) : Server :=
  let idle := IdleTimer.ofPeriod period
  let s : Server := {
    sessions := Sessions.empty
    requests := Requests.empty
    idle := idle
    watched := [Receiver.listener.token, Receiver.signals.token, Receiver.idleTimer.token]
    stop := none
    device := Device.ofChips chips
    net := Net.listening
    signals := PendingSignals.empty
    now := 0
    trace := [] }
  s.log (.started (UInt64.ofNat (idle.period / nanosPerMilli)).toNat)

/-- Sessions and held requests together. -/
def useCount (s : Server) : Nat :=
  s.sessions.length + s.requests.length

section Clients

/-- Ends a session and closes its connection. -/
def dropClient (s : Server) (id : ClientId) : Server :=
  match s.sessions.get? id with
  | none => s
  | some session =>
      let s := { s with
        sessions := s.sessions.remove id
        watched := s.watched.filter (· ≠ (Receiver.client id).token) }
      let s := s.log .dropped
      { s.record (.closed id) with net := s.net.modify session.link (·.close .server) }

/-- Sends a message to a client. A session whose message cannot be sent is ended. -/
def reply (s : Server) (id : ClientId) (m : Message) : Server :=
  match s.sessions.get? id with
  | none => s
  | some session =>
      match s.net.send session.link .server m.encode with
      | .ok net => { s.record (.wrote id m) with net := net }
      | .error e => (s.log (.sendFailed e)).dropClient id

/-- Begins a session. The others still wait. -/
def seat (s : Server) (session : Session) (waiting : List Nat) : Server :=
  let (id, sessions) := s.sessions.insert session
  { s.log .accepted with
    sessions := sessions
    net := { s.net with waiting := waiting }
    watched := s.watched ++ [(Receiver.client id).token] }

/-- Begins a session that ends at once: its client cannot be watched. -/
def seatBriefly (s : Server) (session : Session) (waiting : List Nat) (errno : Errno) : Server :=
  let (id, sessions) := s.sessions.insert session
  let s := (s.log .accepted).log (.unregistered errno id)
  let net := { s.net with waiting := waiting }
  { s.record (.closed id) with
    sessions := sessions.withdraw
    net := net.modify session.link (·.close .server) }

/-- Closes a connection that gets no session, and reports why. -/
def turnAway (s : Server) (link : Nat) (waiting : List Nat) (report : LogEvent) : Server :=
  let net := { s.net with waiting := waiting }
  { s.log report with net := net.modify link (·.close .server) }

/-- Accepts the connection that has waited longest. It waits on if this fails. -/
def accept (s : Server) : Server :=
  match s.net.waiting with
  | [] => s
  | link :: waiting =>
      let origin := s.net.originOf link
      match origin.failures, origin.admission with
      | errno :: _, _ =>
          { s.log (.acceptFailed errno) with net := s.net.modify link Link.retried }
      | [], .unidentified cause => s.turnAway link waiting (.unidentified cause)
      | [], .unconfigured errno => s.turnAway link waiting (.unconfigured errno)
      | [], .unregistered errno => s.seatBriefly ⟨link, origin.peer⟩ waiting errno
      | [], .admitted => s.seat ⟨link, origin.peer⟩ waiting

end Clients

section Requests

/-- Replaces the device, and records the calls that reached it. -/
def withDevice (s : Server) (device : Device) : Server :=
  { s with
    device := device
    trace := s.trace ++
      (device.journal.drop s.device.journal.length).map fun call => .device call }

/-- Closes the handle of the record with an identifier, if there is one: another record takes its
place. -/
def displace (s : Server) (id : RequestId) : Server :=
  match s.requests.get? id with
  | none => s
  | some held => s.withDevice (s.device.release held.handle)

/-- Answers a line request that has been carried out: `outcome` came of it, and the device is
`device` now. -/
def conclude (s : Server) (job : Job) (outcome : Except Errno Nat) (device : Device) : Server :=
  let s := s.withDevice device
  let chip := job.spec.chipPath.text
  let offsets := job.spec.offsets.list
  match outcome with
  | .ok handle =>
      let (id, requests) := s.requests.insert ⟨handle, chip, offsets, job.owner⟩
      let s := { s.displace id with requests := requests }
      (s.log (.granted id chip offsets)).reply job.client (.reqOk id)
  | .error e => (s.log (.refused e)).reply job.client (.ofFailure (.system e))

/-- Carries out a line request and answers it. -/
def finish (s : Server) (job : Job) : Server :=
  let (outcome, device) := s.device.request job.spec
  s.conclude job outcome device

/-- How a line request is carried out and answered, in one piece. -/
theorem finish_eq (s : Server) (job : Job) :
    s.finish job =
      let (outcome, device) := s.device.request job.spec
      let s := s.withDevice device
      let chip := job.spec.chipPath.text
      let offsets := job.spec.offsets.list
      match outcome with
      | .ok handle =>
          let (id, requests) := s.requests.insert ⟨handle, chip, offsets, job.owner⟩
          let s := { s.displace id with requests := requests }
          (s.log (.granted id chip offsets)).reply job.client (.reqOk id)
      | .error e => (s.log (.refused e)).reply job.client (.error e) :=
  rfl

/-- Gives the lines of a request back and answers the client. -/
def release (s : Server) (client : ClientId) (id : RequestId) : Server :=
  match s.requests.get? id with
  | none => (s.log (.unknownRequest id)).reply client (.error Errno.noEntry)
  | some held =>
      let s := { s with requests := s.requests.remove id }
      let s := s.log (.released id held.chipPath held.offsets)
      (s.withDevice (s.device.release held.handle)).reply client .ok

end Requests

section Events

/-- Acts on a message from a client. A line request is left to be finished. -/
def dispatch (s : Server) (client : ClientId) (peer : Peer) :
    Except WireError Message → Server × Option Job
  | .ok .ping => ((s.log .pinged).reply client .ok, none)
  | .ok .stop => ({ s.log .stopRequested with stop := some (.requested client) }, none)
  | .ok (.request spec) =>
      (s.log (.handling spec.chipPath.text spec.offsets.list spec.output),
        some ⟨client, peer.pid, spec⟩)
  | .ok (.release id) => (s.release client id, none)
  | .ok other => ((s.log (.unexpected other.kind)).dropClient client, none)
  | .error e => ((s.log (.malformed e)).dropClient client, none)

/-- Reads once from a client and acts on what was read. -/
def receive (s : Server) (id : ClientId) (hungUp : Bool) : Server × Option Job :=
  match s.sessions.get? id with
  | none => (s, none)
  | some session =>
      let (taken, net) := s.net.take session.link .server frameSize
      let s := { s with net := net }
      match taken with
      | .ended => ((s.log .hungUp).dropClient id, none)
      | .nothing => if hungUp then ((s.log .hungUp).dropClient id, none) else (s, none)
      | .broken => ((s.log (.receiveFailed Errno.connectionReset)).dropClient id, none)
      | .data bytes =>
          let m := Message.decode bytes
          (s.record (.read id m)).dispatch id session.peer m

/-- Takes the signals that wait. -/
def takeSignals (s : Server) : Server :=
  match s.signals.take with
  | (none, signals) => { s with signals := signals }
  | (some signal, signals) =>
      { s.log (.signalled signal) with signals := signals, stop := some (.signal signal) }

/-- Takes notice of the idle timer. -/
def takeExpiry (s : Server) : Server :=
  match s.idle.acknowledge s.now with
  | (false, idle) => { s with idle := idle }
  | (true, idle) =>
      let s := { s with idle := idle }
      if s.useCount = 0 then { s.log .idleExpired with stop := some .idle } else s

/-- Handles an event, up to a line request that it brings. -/
def begin (s : Server) (e : Readiness) : Server × Option Job :=
  match Receiver.ofToken? e.token with
  | some .listener => (s.accept, none)
  | some .signals => (s.takeSignals, none)
  | some .idleTimer => (s.takeExpiry, none)
  | some (.client id) => s.receive id e.hungUp
  | none => (s.log (.unknownReceiver e.token), none)

/-- Handles an event. -/
def handle (s : Server) (e : Readiness) : Server :=
  match s.begin e with
  | (s, none) => s
  | (s, some job) => s.finish job

/-- Handles events that were reported together. Once the server stops, the rest of them is
forgotten. -/
def batch (s : Server) : List Readiness → Server
  | [] => s
  | e :: es => if s.stop.isSome then s else (s.handle e).batch es

/-- Arms or disarms the idle timer for the present use-count. -/
def updateIdle (s : Server) : Except Errno Server :=
  match s.idle.update s.now s.useCount with
  | .error e => .error e
  | .ok (.armed, idle) => .ok { s.log .idle with idle := idle }
  | .ok (.disarmed, idle) => .ok { s.log .active with idle := idle }
  | .ok (.unchanged, idle) => .ok { s with idle := idle }

/-- Brings the idle timer up to date and handles a batch of events. -/
def turn (s : Server) (es : List Readiness) : Except Errno Server := do
  let s ← s.updateIdle
  return s.batch es

theorem batch_of_stop {s : Server} (h : s.stop.isSome = true) (es : List Readiness) :
    s.batch es = s := by
  cases es <;> simp [batch, h]

theorem handle_unwatched {s : Server} {id : ClientId} {hungUp : Bool}
    (ht : Receiver.ofToken? (Receiver.client id).token = some (.client id))
    (h : s.sessions.get? id = none) : s.handle ⟨(Receiver.client id).token, hungUp⟩ = s := by
  simp [handle, begin, ht, receive, h]

end Events

section Ending

/-- Gives back the lines of one request. -/
def releaseHeld (s : Server) (e : RequestId × Held Nat) : Server :=
  let s := s.log (.releasing e.1 e.2.chipPath e.2.offsets)
  s.withDevice (s.device.release e.2.handle)

/-- Closes the listening socket. -/
def stopListening (s : Server) : Server :=
  { s.record .stoppedListening with
    net := s.net.stopListening
    watched := s.watched.filter (· ≠ Receiver.listener.token) }

/-- Gives back all lines, in the order of the identifiers of their requests. -/
def releaseAll (s : Server) : Server :=
  let (records, requests) := s.requests.drain
  records.foldl releaseHeld { s with requests := requests }

/-- Ends all sessions but that of `keep`. -/
def dropAllBut (s : Server) (keep : Option ClientId) : Server :=
  (s.sessions.ids.filter fun id => keep ≠ some id).foldl dropClient s

/-- Ends the server: it no longer listens, all lines go back, all sessions end, and a client that
asked for the stop is answered last. -/
def drain (s : Server) (why : Stop) : Server :=
  let s := s.log (.exiting s.sessions.length s.requests.length)
  let s := (s.stopListening.releaseAll).dropAllBut why.stopper?
  let s :=
    match why.stopper? with
    | some id => (s.reply id .ok).dropClient id
    | none => s
  s.log (.stopped why.reason)

/-- Ends a server whose timer cannot be set. The timer is set only when nobody uses the server, so
there is no session and no request to end. -/
def abort (s : Server) : Server :=
  s.stopListening

end Ending

/-- What the server reported. -/
def reports (s : Server) : List LogEvent :=
  s.trace.filterMap fun
    | .log e => some e
    | _ => none

end Server
end LineKeeper
