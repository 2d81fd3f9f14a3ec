import LineKeeper.Exchange

/-!
# Scripts of steps against one server

A `Scenario` is a running server together with named connections to it. Each step
is taken when the server has done all there is to do, and after it the server
does what the step calls for.

**Results.**
* `run_length`: every step has a result.
-/

namespace LineKeeper

/-- A server with named connections. -/
structure Scenario where
  loop : Loop
  links : List (String × Nat)
  joined : Bool

namespace Scenario

/-- A step. -/
inductive Step
  | connect (name : String)
  | close (name : String)
  | shutdown (name : String)
  | call (name : String) (call : Except WireError Client.Call)
  | send (name : String) (bytes : List UInt8) (untilGate : Bool)
  | receive (name : String)
  | signal (s : Signal)
  | join
  | sleep (nanos : Nat)
  | gate (closed : Bool)
  | awaitReport (message : String) (count : Nat)

/-- What a step shows. -/
inductive Outcome
  | connected
  | refused
  | noConnection
  | closed
  | shut
  | granted (id : Option RequestId)
  | failed (e : ClientError)
  | invalid (e : WireError)
  | sent (blocked : Option Bool)
  | received (m : Message)
  | hungUp
  | signalled
  | ended (reason : Option ShutdownReason)
  | slept
  | gated (closed : Bool)
  | seen (found : Bool)

/-- A server that was just started. -/
def start (chips : Chips) (period : Nat) : Scenario :=
  ⟨(Loop.start chips period).settle, [], false⟩

/-- The link of a named connection. -/
def link? (s : Scenario) (name : String) : Option Nat :=
  (s.links.find? (·.1 = name)).map (·.2)

/-- Replaces the loop, and lets the server do what there is to do. -/
def settled (s : Scenario) (l : Loop) : Scenario :=
  { s with loop := l.settle }

/-- Takes one message at a client; anything else counts as a hang-up. -/
def receive (s : Scenario) (i : Nat) : Outcome × Scenario :=
  match s.loop.onLink i Client.takeReply with
  | some (.ok m, l) => (.received m, { s with loop := l })
  | some (.error _, l) => (.hungUp, { s with loop := l })
  | none => (.hungUp, s)

/-- Closes the connection with a name, if there is one. -/
def close (s : Scenario) (name : String) : Scenario :=
  match s.link? name with
  | none => s
  | some i =>
      let s := { s with links := s.links.filter (·.1 ≠ name) }
      s.settled (s.loop.closeLink i)

/-- Opens a connection. An older one of that name is closed when the new one stands. -/
def connect (s : Scenario) (name : String) : Outcome × Scenario :=
  match s.loop.connect (.usual ⟨0, 0, ""⟩) with
  | none => (.refused, s)
  | some (i, l) =>
      let s := (s.settled l).close name
      (.connected, { s with links := s.links ++ [(name, i)] })

/-- Takes a step. -/
def step (s : Scenario) : Step → Outcome × Scenario
  | .connect name => s.connect name
  | .close name => (.closed, s.close name)
  | .shutdown name =>
      match s.link? name with
      | none => (.noConnection, s)
      | some i => (.shut, s.settled (s.loop.shutdownLink i))
  | .call name c =>
      match s.link? name with
      | none => (.noConnection, s)
      | some i =>
          match c with
          | .error e => (.invalid e, s)
          | .ok c =>
              match s.loop.call Client.defaultTimeout i c with
              | (.ok m, l) => (.granted (Client.grantedId? m), { s with loop := l })
              | (.error e, l) => (.failed e, { s with loop := l })
  | .send name bytes untilGate =>
      match s.link? name with
      | none => (.noConnection, s)
      | some i =>
          let s :=
            match s.loop.send i bytes with
            | .ok l => s.settled l
            | .error _ => s
          (.sent (if untilGate then some s.loop.isStuck else none), s)
  | .receive name =>
      match s.link? name with
      | none => (.noConnection, s)
      | some i => s.receive i
  | .signal signal => (.signalled, s.settled (s.loop.signal signal))
  | .join =>
      if s.joined then (.ended none, s)
      else
        let l := s.loop.join
        let reason :=
          match l.ending with
          | some (.stopped reason) => some reason
          | _ => none
        (.ended reason, { s with loop := l, joined := true })
  | .sleep nanos =>
      (.slept, { s with loop := s.loop.sleepUntil (s.loop.server.now + nanos) })
  | .gate closed => (.gated closed, s.settled (s.loop.gate closed))
  | .awaitReport message count =>
      let seen := s.loop.server.reports.filter fun e => e.message = message
      (.seen (decide (count ≤ seen.length)), s)

/-- Takes steps in order. -/
def run (s : Scenario) : List Step → List Outcome × Scenario
  | [] => ([], s)
  | t :: ts =>
      let (outcome, s) := s.step t
      let (more, s) := s.run ts
      (outcome :: more, s)

/-- Takes one message at each connection, in the order of their names. -/
def receiveAll (s : Scenario) : List (String × Nat) → List (String × Outcome)
  | [] => []
  | (name, i) :: links =>
      let (outcome, s) := s.receive i
      (name, outcome) :: s.receiveAll links

/-- What is left when the steps are done. -/
structure Rest where
  reason : Option ShutdownReason
  left : List (String × Outcome)
  listens : Bool
  calls : List DeviceCall
  reports : List LogEvent

/-- Ends the server, by a signal if nothing else did, and says what is left. -/
def finish (s : Scenario) : Rest :=
  let s := s.settled ((s.loop.gate false).signal Signal.terminate)
  { reason :=
      match s.loop.ending with
      | some (.stopped reason) => some reason
      | _ => none
    left := s.receiveAll s.links
    listens := s.loop.server.net.listens
    calls := s.loop.server.device.journal
    reports := s.loop.server.reports }

theorem run_length (s : Scenario) (ts : List Step) : (s.run ts).1.length = ts.length := by
  induction ts generalizing s with
  | nil => rfl
  | cons t ts ih => simp [run, ih]

end Scenario
end LineKeeper
