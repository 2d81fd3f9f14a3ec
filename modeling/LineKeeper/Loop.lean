import LineKeeper.Server

/-!
# The server's loop

`Loop` runs a server until it has nothing left to do.

**Which events are reported.** What the server watches and has become ready
stands in a list, in the order in which it became ready. A wait looks at the
list from the front, skips what is no longer ready and reports at most
`maxEvents`; those move behind the ones not looked at, and stay listed while they
are ready.

**The gate.** While the gate is closed, a line request that reaches the device
waits there, and with it the server.

**Results.**
* `report_length`: a wait reports at most `maxEvents`.
* `step_of_ending`: a server that has ended does nothing.
-/

namespace LineKeeper

/-- How a server ended. -/
inductive Ending
  | stopped (reason : ShutdownReason)
  | failed (errno : Errno)
deriving DecidableEq, Repr

namespace Ending

/-- Why a server failed: the timer refused a time. -/
def timerMessage (errno : Errno) : String :=
  "Failed to update the idle timer: " ++ errno.coded

end Ending

/-- What the server is at: it waits for events, or it handles those that were reported. -/
inductive Phase
  | waiting
  | handling (rest : List Readiness)
deriving DecidableEq, Repr

/-- A server, what has become ready, what it is at, and the request that waits in the device. -/
structure Loop where
  server : Server
  ready : List UInt64
  phase : Phase
  job : Option Job
  gateClosed : Bool
  ending : Option Ending

namespace Loop

/-- Most events that one wait reports. -/
def maxEvents : Nat := 16

/-- A server that has just begun to listen. -/
def start (chips : Chips) (period : Nat) : Loop :=
  ⟨Server.start chips period, [], .handling [], none, false, none⟩

/-- The link of a client. -/
def linkOf? (s : Server) (id : ClientId) : Option Nat :=
  (s.sessions.get? id).map (·.link)

/-- Is something to be learned from the receiver with this token? -/
def isReady (s : Server) (token : UInt64) : Bool :=
  match Receiver.ofToken? token with
  | some .listener => !s.net.waiting.isEmpty
  | some .signals => s.signals.isReady
  | some .idleTimer => s.idle.hasExpired s.now
  | some (.client id) => (linkOf? s id).any fun link => s.net.isReadable link .server
  | none => false

/-- Is the connection of the receiver with this token gone? -/
def isHungUp (s : Server) (token : UInt64) : Bool :=
  match Receiver.ofToken? token with
  | some (.client id) => (linkOf? s id).any fun link => s.net.isHungUp link .server
  | _ => false

/-- Lists what has become ready, and forgets what is no longer watched. -/
def refresh (l : Loop) : Loop :=
  let kept := l.ready.filter l.server.watched.contains
  let fresh := l.server.watched.filter fun t => isReady l.server t && !kept.contains t
  { l with ready := kept ++ fresh }

/-- Looks for at most `n` ready receivers at the front of a list, and returns them and the ones
not looked at. -/
def report (s : Server) : Nat → List UInt64 → List UInt64 × List UInt64
  | 0, ts => ([], ts)
  | _, [] => ([], [])
  | n + 1, t :: ts =>
      if isReady s t then
        let (found, rest) := report s n ts
        (t :: found, rest)
      else report s (n + 1) ts

/-- Waits for events. -/
def wait (l : Loop) : Loop :=
  let (found, rest) := report l.server maxEvents l.ready
  { l with
    ready := rest ++ found
    phase :=
      if found.isEmpty then .waiting
      else .handling (found.map fun t => ⟨t, isHungUp l.server t⟩) }

/-- Does the request reach the device? -/
def reachesDevice (s : Server) (job : Job) : Bool :=
  match s.device.openFor job.spec with
  | .ok _ => true
  | .error _ => false

/-- Replaces the server. -/
def withServer (l : Loop) (s : Server) : Loop :=
  ({ l with server := s }).refresh

/-- Ends the server. -/
def finishWith (l : Loop) (s : Server) (e : Ending) : Loop :=
  { l with server := s, ready := [], phase := .waiting, job := none, ending := some e }

/-- Begins a turn: ends a server that stops, and otherwise brings the timer up to date before it
waits. -/
def beginTurn (l : Loop) : Loop :=
  match l.server.stop with
  | some why => l.finishWith (l.server.drain why) (.stopped why.reason)
  | none =>
      match l.server.updateIdle with
      | .error e => l.finishWith l.server.abort (.failed e)
      | .ok s => ({ l with phase := .waiting }).withServer s

/-- Does the next thing there is to do. -/
def step (l : Loop) : Loop :=
  if l.ending.isSome then l
  else
    match l.job with
    | some job =>
        if l.gateClosed && reachesDevice l.server job then l
        else ({ l with job := none }).withServer (l.server.finish job)
    | none =>
        match l.phase with
        | .waiting => l.wait
        | .handling [] => l.beginTurn
        | .handling (e :: es) =>
            if l.server.stop.isSome then { l with phase := .handling [] }
            else
              let (s, job) := l.server.begin e
              ({ l with phase := .handling es, job := job }).withServer s

/-- Does the server wait in the device? -/
def isStuck (l : Loop) : Bool :=
  match l.job with
  | some job => l.ending.isNone && l.gateClosed && reachesDevice l.server job
  | none => false

/-- Is there nothing to do until something happens outside? -/
def isSettled (l : Loop) : Bool :=
  l.ending.isSome || l.isStuck || (l.job.isNone && l.phase = .waiting && l.ready.isEmpty)

/-- More steps than the server can take before it is settled: each event takes a byte, accepts a
connection or fails to, or ends a session. -/
def patience (l : Loop) : Nat :=
  let links := l.server.net.links
  let unread := links.flatMap fun k => k.server.inbox
  let failures := links.flatMap fun k => k.origin.failures
  4 * (unread.length + failures.length + 3 * links.length + l.server.watched.length) + 16

/-- Takes steps until the server is settled. -/
def settleFor : Nat → Loop → Loop
  | 0, l => l
  | n + 1, l => if l.isSettled then l else settleFor n l.step

/-- Lets the server do all there is to do. -/
def settle (l : Loop) : Loop :=
  let l := l.refresh
  settleFor l.patience l

theorem report_length (s : Server) (n : Nat) (ts : List UInt64) :
    (report s n ts).1.length ≤ n := by
  induction ts generalizing n with
  | nil => cases n <;> simp [report]
  | cons t ts ih =>
      cases n with
      | zero => simp [report]
      | succ n =>
          simp only [report]
          split
          · simpa using ih n
          · exact ih (n + 1)

theorem step_of_ending {l : Loop} (h : l.ending.isSome = true) : l.step = l := by
  simp [step, h]

section Outside

/-- Opens a connection, if the server still listens. -/
def connect (l : Loop) (origin : Origin) : Option (Nat × Loop) :=
  match l.server.net.connect origin with
  | none => none
  | some (link, net) => some (link, l.withServer { l.server with net := net })

/-- Changes the connections. -/
def withNet (l : Loop) (net : Net) : Loop :=
  l.withServer { l.server with net := net }

/-- Sends bytes from a client. -/
def send (l : Loop) (link : Nat) (bytes : List UInt8) : Except Errno Loop :=
  match l.server.net.send link .client bytes with
  | .ok net => .ok (l.withNet net)
  | .error e => .error e

/-- Closes the client's end of a link. -/
def closeLink (l : Loop) (link : Nat) : Loop :=
  l.withNet (l.server.net.modify link (·.close .client))

/-- The client's end of a link sends no more. -/
def shutdownLink (l : Loop) (link : Nat) : Loop :=
  l.withNet (l.server.net.modify link (·.shutdown .client))

/-- A signal arrives. -/
def signal (l : Loop) (s : Signal) : Loop :=
  l.withServer { l.server with signals := l.server.signals.raise s }

/-- Sets the clock. -/
def atTime (l : Loop) (now : Nat) : Loop :=
  l.withServer { l.server with now := now }

/-- Lets time pass until `target`; an idle timer that expires before is noticed when it does. -/
def sleepUntil (l : Loop) (target : Nat) : Loop :=
  let l :=
    match l.server.idle.deadline with
    | some d => if l.ending.isNone && d < target then (l.atTime (max l.server.now d)).settle else l
    | none => l
  (l.atTime (max l.server.now target)).settle

/-- Lets time pass until the server ends, if nothing else than the idle timer can end it. -/
def join (l : Loop) : Loop :=
  if l.ending.isSome then l
  else
    match l.server.idle.deadline with
    | some d => l.sleepUntil d
    | none => l

/-- Closes or opens the gate. -/
def gate (l : Loop) (closed : Bool) : Loop :=
  { l with gateClosed := closed }

end Outside

end Loop
end LineKeeper
