import LineKeeper.Failure
import LineKeeper.Message
import LineKeeper.Receiver
import LineKeeper.Signal

/-!
# What the server reports

A `LogEvent` is something the server reports while it runs. Each has a level, a
message and fields; what changes from run to run (times, process numbers, the
name of the socket) is left out.
-/

namespace LineKeeper

/-- How important a report is. -/
inductive LogLevel
  | error
  | warn
  | info
  | debug
  | trace
deriving DecidableEq, Repr

namespace LogLevel

/-- The name of a level. -/
def name : LogLevel → String
  | error => "ERROR"
  | warn => "WARN"
  | info => "INFO"
  | debug => "DEBUG"
  | trace => "TRACE"

/-- Levels from the most important one on. -/
def rank : LogLevel → Nat
  | error => 1
  | warn => 2
  | info => 3
  | debug => 4
  | trace => 5

end LogLevel

/-- The value of a field. A text is quoted where a report is a line; a shown value never is. -/
inductive FieldValue
  | number (n : Nat)
  | flag (b : Bool)
  | text (s : String)
  | shown (s : String)
deriving DecidableEq, Repr

/-- Something the server reports. -/
inductive LogEvent
  | started (idleMillis : Nat)
  | idle
  | active
  | acceptFailed (errno : Errno)
  | unidentified (cause : Failure)
  | unconfigured (errno : Errno)
  | accepted
  | unregistered (errno : Errno) (client : ClientId)
  | hungUp
  | receiveFailed (errno : Errno)
  | pinged
  | stopRequested
  | handling (chip : String) (offsets : List UInt32) (output : Bool)
  | granted (id : RequestId) (chip : String) (offsets : List UInt32)
  | refused (errno : Errno)
  | released (id : RequestId) (chip : String) (offsets : List UInt32)
  | unknownRequest (id : RequestId)
  | unexpected (kind : Kind)
  | malformed (e : WireError)
  | sendFailed (errno : Errno)
  | unknownReceiver (token : UInt64)
  | dropped
  | signalled (signal : Signal)
  | idleExpired
  | exiting (clients requests : Nat)
  | releasing (id : RequestId) (chip : String) (offsets : List UInt32)
  | stopped (reason : ShutdownReason)
  | failed (message : String)
deriving DecidableEq

namespace LogEvent

/-- The level of a report. -/
def level : LogEvent → LogLevel
  | idle => .debug
  | active => .debug
  | pinged => .debug
  | handling .. => .debug
  | dropped => .debug
  | releasing .. => .debug
  | acceptFailed _ => .warn
  | unidentified _ => .warn
  | unconfigured _ => .warn
  | unregistered .. => .warn
  | receiveFailed _ => .warn
  | refused _ => .warn
  | unknownRequest _ => .warn
  | unexpected _ => .warn
  | malformed _ => .warn
  | sendFailed _ => .warn
  | unknownReceiver _ => .warn
  | failed _ => .error
  | _ => .info

/-- The part of the program that reports. -/
def target : LogEvent → String
  | failed _ => "gpioctl::lifecycle"
  | _ => "gpioctl::server"

/-- The message of a report. -/
def message : LogEvent → String
  | started _ => "gpioctl server started"
  | idle => "Server is now idle, arming the idle timer"
  | active => "Server is now active, disarming the idle timer"
  | acceptFailed _ => "Failed to accept client connection"
  | unidentified _ => "Failed to get credentials from connected client"
  | unconfigured _ => "Failed to configure client socket"
  | accepted => "Accepted connection"
  | unregistered .. => "Failed to add the receiver to the epoll set"
  | hungUp => "Process hang up"
  | receiveFailed _ => "Failed to receive client data"
  | pinged => "Ping request received from client"
  | stopRequested => "Stop request received from client, exiting"
  | handling .. => "Handling line request"
  | granted .. => "Lines requested"
  | refused _ => "Line request failed, sending back error response"
  | released .. => "Lines released"
  | unknownRequest _ => "Release of unknown request"
  | unexpected _ => "Unexpected message type received from client"
  | malformed _ => "Malformed message received from client"
  | sendFailed _ => "Failed to send data to client"
  | unknownReceiver _ => "Event for unknown receiver"
  | dropped => "Client dropped"
  | signalled _ => "Signal received"
  | idleExpired => "Idle timer expired"
  | exiting .. => "gpioctl server exiting"
  | releasing .. => "Releasing lines"
  | stopped _ => "gpioctl server stopped"
  | failed _ => "gpioctl server failed"

/-- Offsets between brackets. -/
def showOffsets (offsets : List UInt32) : String :=
  "[" ++ ", ".intercalate (offsets.map fun o => toString o) ++ "]"

/-- The fields of a report, in order. -/
def fields : LogEvent → List (String × FieldValue)
  | started idleMillis => [("idle_timeout_ms", .number idleMillis)]
  | acceptFailed errno => [("error", .shown errno.describe)]
  | unidentified cause => [("error", .shown cause.message)]
  | unconfigured errno => [("error", .shown errno.describe)]
  | unregistered errno client =>
      [("error", .shown errno.describe), ("client", .shown client.display)]
  | receiveFailed errno => [("error", .shown errno.describe)]
  | handling chip offsets output =>
      [("chip", .text chip), ("offsets", .shown (showOffsets offsets)), ("output", .flag output)]
  | granted id chip offsets =>
      [("request", .shown id.text), ("chip", .text chip),
        ("offsets", .shown (showOffsets offsets))]
  | refused errno => [("error", .shown errno.describe)]
  | released id chip offsets =>
      [("request", .shown id.text), ("chip", .shown chip),
        ("offsets", .shown (showOffsets offsets))]
  | unknownRequest id => [("request", .shown id.text)]
  | unexpected kind => [("kind", .shown kind.name)]
  | malformed e => [("error", .shown e.message)]
  | sendFailed errno => [("error", .shown errno.describe)]
  | unknownReceiver token => [("token", .number token.toNat)]
  | signalled signal => [("signal", .shown signal.name)]
  | exiting clients requests => [("clients", .number clients), ("requests", .number requests)]
  | releasing id chip offsets =>
      [("request", .shown id.text), ("chip", .shown chip),
        ("offsets", .shown (showOffsets offsets))]
  | stopped reason => [("reason", .shown reason.display)]
  | failed message => [("error", .shown message)]
  | _ => []

end LogEvent
end LineKeeper
