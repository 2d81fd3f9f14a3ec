import LineKeeper.Client
import LineKeeper.Loop

/-!
# A client's call to a running server

Between what a client does and what it looks at next, the server does all there is
to do. A client that gets no reply waits for as long as it may.

**Results.**
* `onLink_none`: nothing can be done on a link that is not there.
-/

namespace LineKeeper
namespace Loop

/-- Does something on a link; then the server does what follows. -/
def onLink {α : Type} (l : Loop) (i : Nat) (f : Link → α × Link) : Option (α × Loop) :=
  match l.server.net.links[i]? with
  | none => none
  | some link =>
      let (a, link) := f link
      some (a, (l.withNet (l.server.net.modify i fun _ => link)).settle)

/-- Sends a message over a link. -/
def post (l : Loop) (timeout i : Nat) (m : Message) : Except ClientError Unit × Loop :=
  let sent := l.onLink i fun link =>
    match Client.send timeout link m with
    | .ok link => (Except.ok (), link)
    | .error e => (Except.error e, link)
  match sent with
  | none => (.error .disconnected, l)
  | some (r, l) => (r, l)

/-- Waits for a reply on a link, at most `timeout` milliseconds. -/
def awaitReply (l : Loop) (timeout i : Nat) : Except ClientError Message × Loop :=
  match l.onLink i Client.takeReply with
  | none => (.error .disconnected, l)
  | some (.error .timeout, l) =>
      (.error .timeout, l.sleepUntil (l.server.now + timeout * nanosPerMilli))
  | some (reply, l) => (reply, l)

/-- Makes a call on a link and waits for the reply, at most `timeout` milliseconds. -/
def call (l : Loop) (timeout i : Nat) (c : Client.Call) : Except ClientError Message × Loop :=
  match l.post timeout i c.message with
  | (.error e, l) => (.error e, l)
  | (.ok (), l) =>
      let (reply, l) := l.awaitReply timeout i
      (reply.bind (Client.judge c.expects), l)

theorem onLink_none {α : Type} {l : Loop} {i : Nat} (h : l.server.net.links.length ≤ i)
    (f : Link → α × Link) : l.onLink i f = none := by
  simp [onLink, List.getElem?_eq_none h]

end Loop
end LineKeeper
