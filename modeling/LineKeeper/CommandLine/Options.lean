import LineKeeper.CommandLine.Scan
import LineKeeper.Config
import LineKeeper.Resolve

/-!
# What the command line asks for

`Options.ofWords` reads a whole command line: the words before the name of the
command at the outer level, the rest at the inner one. The inner level is closed
before anything that is pending or missing at the outer one is looked at.

**Results.**
* `ofWords_nil`: without words and variables nothing is asked for.
* `validate_eq_ok_iff`: a timeout of no seconds is refused, and no other.
-/

namespace LineKeeper
namespace CommandLine

/-- What to do. -/
inductive Command
  | ping
  | stop
  | request (output : Bool) (lines : List LineArg)
  | release (id : RequestId)
  | debug
deriving DecidableEq

namespace Command

/-- The word that names the command. -/
def verb : Command → Verb
  | ping => .ping
  | stop => .stop
  | request .. => .request
  | release _ => .release
  | debug => .debug

end Command

/-- All that a command line says. The idle timeout is in seconds. -/
structure Options where
  chip : Option String
  consumer : Option String
  byName : Bool
  strict : Bool
  activeLow : Bool
  json : Bool
  idleTimeout : UInt64
  logFile : Option Path
  logRotate : Bool
  socketName : Option String
  command : Command
deriving DecidableEq

/-- Why lines cannot be asked for. -/
inductive SpecError
  | lines (e : ResolveError)
  | limits (e : WireError)
deriving DecidableEq, Repr

namespace SpecError

/-- The text of the error. -/
def message : SpecError → String
  | lines e => e.message
  | limits e => e.message

end SpecError

namespace Options

/-- The idle timeout if none is given. -/
def defaultIdleTimeout : UInt64 := 60

section Reading

/-- A text, if there is one. -/
def text? : Option Value → Option String
  | some (.text s) => some s
  | _ => none

/-- A path, if there is one. -/
def path? : Option Value → Option Path
  | some (.path p) => some p
  | _ => none

/-- A number of seconds, or the default. -/
def secondsOr (default : UInt64) : Option Value → UInt64
  | some (.seconds n) => n
  | _ => default

/-- The command with what was given at its level. A request to be released has to be given. -/
def command? (v : Verb) (given : Settings) : Option Command :=
  match v with
  | .ping => some .ping
  | .stop => some .stop
  | .request => some (.request (given.has (.switch .output)) given.lines)
  | .release => given.request?.map Command.release
  | .debug => some .debug

/-- What both levels say. -/
def merge (outer inner : Settings) (command : Command) : Options :=
  let value := Settings.merged outer inner
  { chip := text? (value .chip)
    consumer := text? (value .consumer)
    byName := (value .byName).isSome
    strict := (value .strict).isSome
    activeLow := (value .activeLow).isSome
    json := (value .json).isSome
    idleTimeout := secondsOr defaultIdleTimeout (value .idleTimeout)
    logFile := path? (value .logFile)
    logRotate := (value .logRotate).isSome
    socketName := text? (value .socketName)
    command := command }

/-- The report on a demand for help; the words name the command that it is about. -/
def helpOn (level : Level) : List (List UInt8) → UsageError
  | [] => .plain level (.helpAsked true)
  | w :: ws =>
      match Scan.inner? level w with
      | some inner => helpOn inner ws
      | none => .plain level (.unknownCommand (Text.Utf8.lossy w))

/-- The report on a command line without a command. -/
def noCommand (outer : Scan) : UsageError :=
  outer.fault (if outer.given.entries.isEmpty then .nothingGiven else .noCommand)

/-- Reads a command line. -/
def ofWords (env : Environment) (ws : List (List UInt8)) : Except UsageError Options := do
  let (outer, next) ← (Scan.start .outer).words ws
  match next with
  | none => do
      let outer ← outer.supply env
      throw (noCommand outer)
  | some (.command v, rest) => do
      let (inner, _) ← (Scan.start (.command v)).words rest
      let inner ← inner.close env
      let outer ← outer.close env
      match command? v inner.given with
      | some command => return merge outer.given inner.given command
      | none => inner.fail (.missing inner.missing)
  | some (_, rest) => throw (helpOn .outer rest)

theorem ofWords_nil : ofWords .empty [] = .error (.plain .outer .nothingGiven) := by
  rfl

end Reading

section Meaning

/-- Why options are refused. -/
def zeroTimeoutMessage : String :=
  "idle timeout must be at least one second"

/-- Checks what the reading lets pass. -/
def validate (o : Options) : Except String Unit :=
  if o.idleTimeout = 0 then .error zeroTimeoutMessage else .ok ()

theorem validate_eq_ok_iff (o : Options) : o.validate = .ok () ↔ o.idleTimeout ≠ 0 := by
  by_cases h : o.idleTimeout = 0 <;> simp [validate, h]

/-- The settings of the server that is meant. -/
def serverConfig (o : Options) (caller : Caller) : ServerConfig :=
  (ServerConfig.new (o.socketName.getD (Addresses.userName caller.uid))).withIdleTimeout
    (o.idleTimeout.toNat * nanosPerSecond)

/-- The settings of the client that is meant. -/
def clientConfig (o : Options) (caller : Caller) : ClientConfig :=
  let config := ClientConfig.new (o.serverConfig caller)
  match o.logFile with
  | some path =>
      config.withLogFile ((LogFile.new caller.home? caller.directory path).rotating o.logRotate)
  | none => config

/-- How lines are to be looked up. -/
def lookup (o : Options) : Lookup :=
  ⟨o.chip, o.byName, o.strict⟩

/-- The request for lines that were found. A level that is given for any of them makes them
outputs; those without one are driven low. -/
def buildSpec (o : Options) (found : Resolved) (output : Bool) (lines : List LineArg) :
    Except WireError LineSpec := do
  let spec ← LineSpec.new found.chipPath found.offsets
  let spec := spec.withActiveLow o.activeLow
  let spec ←
    match o.consumer with
    | some label => spec.withConsumer label
    | none => pure spec
  if output || lines.any (·.level.isSome) then
    spec.withOutputValues (lines.map fun l => levelByte (l.level.getD false))
  else return spec

/-- The request for lines on a machine. -/
def lineSpec (o : Options) (chips : Chips) (output : Bool) (lines : List LineArg) :
    Except SpecError LineSpec :=
  match Resolve.resolve chips o.lookup (lines.map (·.line)) with
  | .error e => .error (.lines e)
  | .ok found =>
      match o.buildSpec found output lines with
      | .error e => .error (.limits e)
      | .ok spec => .ok spec

end Meaning

end Options
end CommandLine
end LineKeeper
