/-!
# What may stand on the command line

A command line has an outer level and, from the word that names a command on, the
level of that command. At each level some switches are known and some words that
are no switches have a meaning.

**Switches.** All but a few are known at every level. A switch has a long name,
perhaps a letter, and takes a value if it has a name for one. Some values can be
left to a variable of the environment.

**Results.**
* `ofName?_name`: a command is found by its name.
* `ofLong?_long`: a switch is found by its long name where it is known.
-/

namespace LineKeeper
namespace CommandLine

/-- The name of the program. -/
def programName : String := "gpioctl"

/-- The version of the program. -/
def programVersion : String := "0.1.0"

/-- A switch. -/
inductive Switch
  | chip
  | output
  | consumer
  | byName
  | strict
  | activeLow
  | json
  | idleTimeout
  | logFile
  | logRotate
  | socketName
  | help
  | version
deriving DecidableEq, Repr

namespace Switch

/-- The long name. -/
def long : Switch → String
  | chip => "chip"
  | output => "output"
  | consumer => "consumer"
  | byName => "by-name"
  | strict => "strict"
  | activeLow => "active-low"
  | json => "json"
  | idleTimeout => "idle-timeout"
  | logFile => "log-file"
  | logRotate => "log-rotate"
  | socketName => "socket-name"
  | help => "help"
  | version => "version"

/-- The letter, if there is one. -/
def letter? : Switch → Option Char
  | chip => some 'c'
  | output => some 'o'
  | consumer => some 'C'
  | byName => some 'B'
  | strict => some 's'
  | activeLow => some 'l'
  | help => some 'h'
  | version => some 'V'
  | _ => none

/-- The name of the value, for a switch that takes one. -/
def valueName? : Switch → Option String
  | chip => some "CHIP"
  | consumer => some "NAME"
  | idleTimeout => some "SECONDS"
  | logFile => some "PATH"
  | socketName => some "SOCKET_NAME"
  | _ => none

/-- Does the switch take a value? -/
def takesValue (s : Switch) : Bool :=
  s.valueName?.isSome

/-- The variable that gives the value if the switch does not. -/
def variableName? : Switch → Option String
  | idleTimeout => some "GPIOCTL_IDLE_TIMEOUT"
  | logFile => some "GPIOCTL_LOG_FILE"
  | socketName => some "GPIOCTL_SOCKET_NAME"
  | _ => none

/-- Is the switch kept out of all help? -/
def isHidden (s : Switch) : Bool :=
  s = socketName

/-- The switch and its value as they are written. -/
def display (s : Switch) : String :=
  "--" ++ s.long ++
    match s.valueName? with
    | some value => " <" ++ value ++ ">"
    | none => ""

end Switch

/-- A command. -/
inductive Verb
  | ping
  | stop
  | request
  | release
  | debug
deriving DecidableEq, Repr

namespace Verb

/-- The word that names the command. -/
def name : Verb → String
  | ping => "ping"
  | stop => "stop"
  | request => "request"
  | release => "release"
  | debug => "debug"

/-- All commands. -/
def all : List Verb :=
  [ping, stop, request, release, debug]

/-- The command that a word names. -/
def ofName? (word : String) : Option Verb :=
  all.find? (·.name = word)

theorem ofName?_name (v : Verb) : ofName? v.name = some v := by
  cases v <;> decide

end Verb

/-- A place for words that are no switches. -/
inductive Operand
  | lines
  | request
deriving DecidableEq, Repr

namespace Operand

/-- The operand as it is written. -/
def display : Operand → String
  | lines => "<LINE[=VALUE]>..."
  | request => "<REQUEST>"

/-- May the operand be several words? -/
def isMany (o : Operand) : Bool :=
  o = lines

end Operand

/-- Something that can be given. -/
inductive Item
  | switch (s : Switch)
  | operand (o : Operand)
deriving DecidableEq, Repr

namespace Item

/-- The item as it is written. -/
def display : Item → String
  | switch s => s.display
  | operand o => o.display

/-- Is the item kept out of all help? -/
def isHidden : Item → Bool
  | switch s => s.isHidden
  | operand _ => false

end Item

/-- A level: outside of all commands, or after the word that names one. The command that shows help
is a level of its own, where words are only names of commands. -/
inductive Level
  | outer
  | command (v : Verb)
  | help
deriving DecidableEq, Repr

namespace Level

/-- The name of the command that shows help. -/
def helpName : String := "help"

/-- The words that name a command at the outer level. -/
def commandNames : List String :=
  Verb.all.map Verb.name ++ [helpName]

/-- The switches that are known at every level, and whose later value counts. -/
def globals : List Switch :=
  [.chip, .consumer, .byName, .strict, .activeLow, .json, .idleTimeout, .logFile, .logRotate,
    .socketName]

/-- The switches that are known at a level, in the order in which help shows them. -/
def switches : Level → List Switch
  | outer => globals ++ [.help, .version]
  | command .request =>
      [.chip, .output, .consumer, .byName, .strict, .activeLow, .json, .idleTimeout, .logFile,
        .logRotate, .socketName, .help]
  | command _ => globals ++ [.help]
  | help => []

/-- The operand of a level. It has to be given. -/
def operand? : Level → Option Operand
  | command .request => some .lines
  | command .release => some .request
  | _ => none

/-- The switch with a long name. -/
def ofLong? (l : Level) (name : String) : Option Switch :=
  l.switches.find? (·.long = name)

/-- The switch with a letter. -/
def ofLetter? (l : Level) (c : Char) : Option Switch :=
  l.switches.find? (·.letter? = some c)

/-- The words that lead to a level. -/
def path : Level → String
  | outer => programName
  | command v => programName ++ " " ++ v.name
  | help => programName ++ " " ++ helpName

/-- How a level is used. -/
def usage (l : Level) : String :=
  match l with
  | outer => l.path ++ " [OPTIONS] <COMMAND>"
  | command _ =>
      match l.operand? with
      | some o => l.path ++ " [OPTIONS] " ++ o.display
      | none => l.path ++ " [OPTIONS]"
  | help => l.path ++ " [COMMAND]..."

theorem ofLong?_long {l : Level} {s : Switch} (h : s ∈ l.switches) :
    l.ofLong? s.long = some s := by
  cases l with
  | outer => revert h; cases s <;> decide
  | command v => revert h; cases v <;> cases s <;> decide
  | help => cases h

end Level

end CommandLine
end LineKeeper
