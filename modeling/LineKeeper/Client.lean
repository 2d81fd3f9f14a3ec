import LineKeeper.Address
import LineKeeper.Link
import LineKeeper.Message.Codec

/-!
# The client's side of an exchange

A client sends one message and waits, for a bounded time, for exactly one
message back. Each operation expects a reply of one kind.

**An exchange** has three parts: `Client.send` puts the message on the link,
`Client.takeReply` takes one frame from it, and `Client.judge` says what the reply means for
the operation.

**Results.**
* `judge_of_kind`: a reply of the expected kind is passed on.
* `judge_error`: an error reply is reported with its number.
-/

namespace LineKeeper

/-- Why an exchange failed. -/
inductive ClientError
  | connect (f : Failure)
  | timeout
  | disconnected
  | server (errno : Errno)
  | unexpectedReply (kind : Kind)
  | protocol (e : WireError)
  | exchange (f : Failure)
deriving DecidableEq, Repr

namespace ClientError

/-- The text of the error, with its cause. -/
def message : ClientError → String
  | connect f => "failed to connect to server: " ++ f.message
  | timeout => "timeout while waiting for server to respond"
  | disconnected => "server closed the connection without responding"
  | server errno => "internal server error: " ++ errno.describe
  | unexpectedReply kind => "server responded with unexpected message type: " ++ kind.name
  | protocol e => e.message
  | exchange f => "failed to exchange data with server: " ++ f.message

/-- The error number that the server replied with. -/
def errno? : ClientError → Option Errno
  | server errno => some errno
  | _ => none

end ClientError

namespace Client

/-- The time to wait for a reply, in milliseconds, if nothing else is asked for. -/
def defaultTimeout : Nat := 10000

/-- What a client asks of the server. -/
inductive Call
  | ping
  | stop
  | request (spec : LineSpec)
  | release (id : RequestId)
deriving DecidableEq

namespace Call

/-- The message that asks for it. -/
def message : Call → Message
  | ping => .ping
  | stop => .stop
  | request spec => .request spec
  | release id => .release id

/-- The kind of reply that grants it. -/
def expects : Call → Kind
  | request _ => .reqOk
  | _ => .ok

end Call

/-- Connects to the server that owns a name. -/
def connect (a : Addresses) (name : String) : Except ClientError Nat :=
  match a.tryConnect name with
  | .error f => .error (.connect f)
  | .ok none => .error (.connect (.system Errno.connectionRefused))
  | .ok (some server) => .ok server

/-- Sends a message. A timeout of zero is no timeout. -/
def send (timeout : Nat) (l : Link) (m : Message) : Except ClientError Link :=
  if timeout = 0 then .error (.exchange .zeroTimeout)
  else
    match l.send .client m.encode with
    | .ok l => .ok l
    | .error e => .error (.exchange (.system e))

/-- Takes one reply. Of an incomplete one, what has come is gone. -/
def takeReply (l : Link) : Except ClientError Message × Link :=
  let (taken, rest) := l.take .client frameSize
  match taken with
  | .broken => (.error (.exchange (.system Errno.connectionReset)), rest)
  | .ended => (.error .disconnected, rest)
  | .nothing => (.error .timeout, rest)
  | .data bytes =>
      if bytes.length = frameSize then
        match Message.decode bytes with
        | .ok m => (.ok m, rest)
        | .error e => (.error (.exchange (.malformed e)), rest)
      else
        let (next, rest) := rest.take .client frameSize
        match next with
        | .broken => (.error (.exchange (.system Errno.connectionReset)), rest)
        | .ended => (.error .disconnected, rest)
        | _ => (.error .timeout, rest)

/-- What a reply means for an operation that expects the kind `expected`. -/
def judge (expected : Kind) : Message → Except ClientError Message
  | .error errno => .error (.server errno)
  | m => if m.kind = expected then .ok m else .error (.unexpectedReply m.kind)

theorem judge_error (expected : Kind) (errno : Errno) :
    judge expected (.error errno) = .error (.server errno) := rfl

theorem judge_of_kind {m : Message} (h : m.kind ≠ .error) : judge m.kind m = .ok m := by
  cases m <;> first | exact absurd rfl h | simp [judge]

/-- Sends a message and takes the reply, on a link where the reply has come already. -/
def exchange (timeout : Nat) (l : Link) (m : Message) : Except ClientError Message × Link :=
  match send timeout l m with
  | .error e => (.error e, l)
  | .ok l => takeReply l

/-- Makes a call on a link where the reply has come already. -/
def call (timeout : Nat) (l : Link) (c : Call) : Except ClientError Message × Link :=
  let (reply, l) := exchange timeout l c.message
  (reply.bind (judge c.expects), l)

/-- What the granting of a call gives: the identifier of a new request, or nothing. -/
def grantedId? : Message → Option RequestId
  | .reqOk id => some id
  | _ => none

end Client
end LineKeeper
