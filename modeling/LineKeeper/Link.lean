import LineKeeper.Failure
import LineKeeper.Sessions

/-!
# Connections

A `Link` is a connection between a client and the server: a stream of bytes in
each direction. Its `Origin` says who opened it, and what the system makes of it
where the server has no say. A `Net` holds the links of one listening socket, by
number, and the line of those that wait to be accepted.

**Rules.**
* Bytes arrive in order and wait until they are taken. Taking asks for at most
  some number of bytes and gets what is there.
* Where no byte waits, a broken connection is reported once; after that, or if
  the other end no longer sends, the stream has ended.
* Sending fails once the other end is closed. The server does not wait until it can
  send, so its sending fails as well while there is no room for more at the client.
* An end that is closed while bytes wait for it breaks the connection for the
  other one. So does a listening socket that is closed before it accepted.

**Results.**
* `take_append_inbox`: what is taken and what still waits are what was there.
* `send_closed`: nothing can be sent to a closed end.
-/

namespace LineKeeper

/-- One end of a link. -/
structure LinkEnd where
  inbox : List UInt8
  broken : Bool
  sends : Bool
  isOpen : Bool
deriving DecidableEq, Repr

namespace LinkEnd

/-- An end that was just opened. -/
def fresh : LinkEnd :=
  ⟨[], false, true, true⟩

end LinkEnd

/-- The two ends of a link. -/
inductive Side
  | client
  | server
deriving DecidableEq, Repr

namespace Side

/-- The other end. -/
def other : Side → Side
  | client => server
  | server => client

end Side

/-- What becomes of a connection once the server has accepted it: the client is admitted, or its
credentials cannot be had, its socket cannot be configured, or it cannot be watched. -/
inductive Admission
  | admitted
  | unidentified (cause : Failure)
  | unconfigured (errno : Errno)
  | unregistered (errno : Errno)
deriving DecidableEq, Repr

/-- Who opens a connection, and what the system makes of it: the errors with which attempts to
accept it still fail, what becomes of it after that, and the number of bytes that may wait for the
client when the server sends more. -/
structure Origin where
  peer : Peer
  failures : List Errno
  admission : Admission
  room : Nat
deriving DecidableEq, Repr

namespace Origin

/-- As a rule 166 messages may wait for a client when the server sends another one. -/
def usualRoom : Nat := 166 * 489

/-- As a rule a connection is accepted at once, and the client is admitted. -/
def usual (peer : Peer) : Origin :=
  ⟨peer, [], .admitted, usualRoom⟩

end Origin

/-- A connection, and where it comes from. -/
structure Link where
  client : LinkEnd
  server : LinkEnd
  origin : Origin
deriving DecidableEq, Repr

/-- What an attempt to take bytes meets. -/
inductive Taken
  | data (bytes : List UInt8)
  | ended
  | broken
  | nothing
deriving DecidableEq, Repr

namespace Link

/-- A link that was just opened. -/
def opened (origin : Origin) : Link :=
  ⟨LinkEnd.fresh, LinkEnd.fresh, origin⟩

/-- One end of a link. -/
def side (l : Link) : Side → LinkEnd
  | .client => l.client
  | .server => l.server

/-- Changes one end of a link. -/
def modify (l : Link) (s : Side) (f : LinkEnd → LinkEnd) : Link :=
  match s with
  | .client => { l with client := f l.client }
  | .server => { l with server := f l.server }

/-- Can the end `s` learn anything by taking bytes? -/
def isReadable (l : Link) (s : Side) : Bool :=
  !(l.side s).inbox.isEmpty || (l.side s).broken || !(l.side s.other).sends

/-- Is the connection of the end `s` gone in both directions? -/
def isHungUp (l : Link) (s : Side) : Bool :=
  !(l.side s.other).isOpen || (l.side s).broken

/-- Would the end `s` have to wait to send more, and does it not? -/
def isFull (l : Link) : Side → Bool
  | .client => false
  | .server => decide (l.origin.room < l.client.inbox.length)

/-- Sends bytes from the end `s`. -/
def send (l : Link) (s : Side) (bytes : List UInt8) : Except Errno Link :=
  if (l.side s.other).isOpen && (l.side s).sends then
    if l.isFull s then .error Errno.again
    else .ok (l.modify s.other fun e => { e with inbox := e.inbox ++ bytes })
  else .error Errno.brokenPipe

/-- Takes at most `n` bytes at the end `s`. -/
def take (l : Link) (s : Side) (n : Nat) : Taken × Link :=
  if !(l.side s).inbox.isEmpty then
    (.data ((l.side s).inbox.take n), l.modify s fun e => { e with inbox := e.inbox.drop n })
  else if (l.side s).broken then (.broken, l.modify s fun e => { e with broken := false })
  else if !(l.side s.other).sends then (.ended, l)
  else (.nothing, l)

/-- The end `s` sends no more. -/
def shutdown (l : Link) (s : Side) : Link :=
  l.modify s fun e => { e with sends := false }

/-- Closes the end `s`. -/
def close (l : Link) (s : Side) : Link :=
  let l := if (l.side s).inbox.isEmpty then l
    else l.modify s.other fun e => { e with broken := true }
  l.modify s fun _ => ⟨[], false, false, false⟩

/-- An attempt to accept the link has failed. -/
def retried (l : Link) : Link :=
  { l with origin := { l.origin with failures := l.origin.failures.tail } }

/-- Closes the server's end of a link that was never accepted. -/
def abandon (l : Link) : Link :=
  { l with client := { l.client with broken := true }, server := ⟨[], false, false, false⟩ }

theorem take_append_inbox {l : Link} {s : Side} {n : Nat} {bytes : List UInt8}
    (h : (l.take s n).1 = .data bytes) :
    bytes ++ ((l.take s n).2.side s).inbox = (l.side s).inbox := by
  simp only [take] at *
  split at h
  · next hne =>
    cases h
    simp only [hne, if_true]
    cases s <;> simp [modify, side]
  · split at h
    · cases h
    · split at h <;> cases h

theorem send_closed {l : Link} {s : Side} {bytes : List UInt8}
    (h : (l.side s.other).isOpen = false) : l.send s bytes = .error Errno.brokenPipe := by
  simp [send, h]

end Link

/-- The links of a listening socket, those of them that wait to be accepted, and whether it still
listens. -/
structure Net where
  links : List Link
  waiting : List Nat
  listens : Bool
deriving DecidableEq, Repr

namespace Net

/-- A socket that was just opened. -/
def listening : Net :=
  ⟨[], [], true⟩

/-- Opens a link and returns its number. -/
def connect (net : Net) (origin : Origin) : Option (Nat × Net) :=
  if net.listens then
    some (net.links.length, { net with
      links := net.links ++ [Link.opened origin]
      waiting := net.waiting ++ [net.links.length] })
  else none

/-- Where a link comes from. -/
def originOf (net : Net) (i : Nat) : Origin :=
  (net.links[i]?.map (·.origin)).getD (.usual ⟨0, 0, ""⟩)

/-- Changes a link. -/
def modify (net : Net) (i : Nat) (f : Link → Link) : Net :=
  { net with links := net.links.modify i f }

/-- Sends bytes over a link. -/
def send (net : Net) (i : Nat) (s : Side) (bytes : List UInt8) : Except Errno Net :=
  match net.links[i]? with
  | none => .error Errno.brokenPipe
  | some l =>
      match l.send s bytes with
      | .ok l => .ok { net with links := net.links.set i l }
      | .error e => .error e

/-- Takes at most `n` bytes from a link. -/
def take (net : Net) (i : Nat) (s : Side) (n : Nat) : Taken × Net :=
  match net.links[i]? with
  | none => (.ended, net)
  | some l =>
      let (taken, l) := l.take s n
      (taken, { net with links := net.links.set i l })

/-- Is there something to take from a link? -/
def isReadable (net : Net) (i : Nat) (s : Side) : Bool :=
  match net.links[i]? with
  | none => false
  | some l => l.isReadable s

/-- Is a link gone in both directions? -/
def isHungUp (net : Net) (i : Nat) (s : Side) : Bool :=
  match net.links[i]? with
  | none => false
  | some l => l.isHungUp s

/-- Stops listening. Links that still wait are abandoned. -/
def stopListening (net : Net) : Net :=
  { net with
    links := net.waiting.foldl (fun links i => links.modify i Link.abandon) net.links
    waiting := []
    listens := false }

end Net
end LineKeeper
