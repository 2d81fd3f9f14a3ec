import LineKeeper.Client
import LineKeeper.File.Log
import LineKeeper.IdleTimer

/-!
# Settings

What a server and a client have to know: the name of the server's address, how
long an unused server stays, how long a client waits for a reply, and where a
server that the client starts writes its log. Times are in nanoseconds.
-/

namespace LineKeeper

/-- Settings of a server. -/
structure ServerConfig where
  socketName : String
  idleTimeout : Nat
deriving DecidableEq, Repr

namespace ServerConfig

/-- How long an unused server stays if nothing else is asked for: a minute. -/
def defaultIdleTimeout : Nat := 60 * nanosPerSecond

/-- The usual settings, for an address. -/
def new (socketName : String) : ServerConfig :=
  ⟨socketName, defaultIdleTimeout⟩

/-- Sets how long an unused server stays. -/
def withIdleTimeout (c : ServerConfig) (idleTimeout : Nat) : ServerConfig :=
  { c with idleTimeout := idleTimeout }

end ServerConfig

/-- Settings of a client. -/
structure ClientConfig where
  server : ServerConfig
  timeout : Nat
  logFile : Option LogFile
deriving DecidableEq, Repr

namespace ClientConfig

/-- The usual settings, for a server. -/
def new (server : ServerConfig) : ClientConfig :=
  ⟨server, Client.defaultTimeout * nanosPerMilli, none⟩

/-- Sets how long to wait for a reply. -/
def withTimeout (c : ClientConfig) (timeout : Nat) : ClientConfig :=
  { c with timeout := timeout }

/-- Sets the log file of a server that the client starts. -/
def withLogFile (c : ClientConfig) (logFile : LogFile) : ClientConfig :=
  { c with logFile := some logFile }

end ClientConfig
end LineKeeper
