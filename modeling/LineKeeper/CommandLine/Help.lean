import LineKeeper.CommandLine.Grammar
import LineKeeper.Environment
import LineKeeper.Text.Utf8

/-!
# Help

Each level has a page of help: what it is for, how it is used, its commands, its
operand and its switches. The outer level also has a longer page, where each switch
has lines of its own.

Where a variable can give the value of a switch, help shows the variable and its
present value.

**Results.**
* `pad_length`: padding makes a text as long as the column is wide.
-/

namespace LineKeeper
namespace CommandLine
namespace Help

/-- Blanks. -/
def blanks (n : Nat) : String :=
  String.ofList (List.replicate n ' ')

/-- A text with blanks behind it up to a width. -/
def pad (width : Nat) (s : String) : String :=
  s ++ blanks (width - s.length)

/-- A text whose further lines begin after blanks. -/
def hang (column : Nat) (s : String) : String :=
  String.ofList (s.toList.flatMap fun c => if c = '\n' then '\n' :: List.replicate column ' ' else [c])

theorem pad_length {width : Nat} {s : String} (h : s.length ≤ width) :
    (pad width s).length = width := by
  simp [pad, blanks]; omega

section Texts

/-- What a command is for. -/
def purpose : Verb → String
  | .ping => "Check that the server answers"
  | .stop => "Release every held line and stop the server"
  | .request => "Request a set of GPIO lines"
  | .release => "Release a set of requested GPIO lines"
  | .debug => "Run the server in the foreground with logging to stderr"

/-- What the program is for. -/
def programPurpose : String :=
  "Simple swiss-army knife for controlling GPIOs with persistence support"

/-- What the program does, at length. -/
def programStory : String :=
  programPurpose ++ ".\n\nRequested lines stay held by a background server after this command " ++
    "exits, until they are released or the server is stopped."

/-- What the command that shows help is for. -/
def helpPurpose : String :=
  "Print this message or the help of the given subcommand(s)"

/-- What a level is for. -/
def levelPurpose : Level → String
  | .outer => programPurpose
  | .command v => purpose v
  | .help => helpPurpose

/-- What an operand is. -/
def operandPurpose : Operand → String
  | .lines => "Lines by name or offset, optionally with an output value"
  | .request => "Identifier printed by `request`"

/-- What a switch does; `long` says whether this is for the longer page. -/
def switchPurpose (level : Level) (long : Bool) : Switch → String
  | .chip => "Restrict line lookup to this chip (name, number or path)"
  | .output => "Request the lines as outputs (implied by any LINE=VALUE)"
  | .consumer => "Consumer label for requested lines"
  | .byName => "Treat every line identifier as a name, even if it looks like a number"
  | .strict => "Fail if a line name matches more than one line"
  | .activeLow => "Treat requested lines as active-low"
  | .json => "Print results as JSON"
  | .idleTimeout => "Seconds a spawned server stays alive with nothing to do"
  | .logFile => "Log file for a spawned server"
  | .logRotate => "Rotate the spawned server's log file daily"
  | .socketName => "Abstract socket name, defaults to gpioctl-<uid>"
  | .help =>
      if level = .outer then
        if long then "Print help (see a summary with '-h')"
        else "Print help (see more with '--help')"
      else "Print help"
  | .version => "Print version"

/-- What is known about the value of a switch: its variable and its default. -/
def valueNotes (env : Environment) (s : Switch) : List String :=
  (match s.variableName? with
    | some name => ["[env: " ++ name ++ "=" ++ Text.Utf8.lossy ((env.get? name).getD []) ++ "]"]
    | none => []) ++
    if s = .idleTimeout then ["[default: 60]"] else []

end Texts

section Pages

/-- A switch as it is listed: with its letter, or with blanks in place of one. -/
def listed (s : Switch) : String :=
  match s.letter? with
  | some c => String.ofList ['-', c] ++ ", " ++ s.display
  | none => blanks 4 ++ s.display

/-- The length of the longest text. -/
def widest (texts : List String) : Nat :=
  texts.foldl (fun n s => max n s.length) 0

/-- A list of names and what they mean, in two columns. -/
def columns (entries : List (String × String)) : String :=
  let width := widest (entries.map (·.1))
  "\n".intercalate (entries.map fun (name, meaning) =>
    blanks 2 ++ pad width name ++ blanks 2 ++ hang (width + 4) meaning)

/-- The switches that help shows at a level. -/
def shownSwitches (level : Level) : List Switch :=
  level.switches.filter fun s => !s.isHidden

/-- The switches of a level, one a line. -/
def shortSwitches (env : Environment) (level : Level) : String :=
  columns ((shownSwitches level).map fun s =>
    (listed s, " ".intercalate (switchPurpose level false s :: valueNotes env s)))

/-- The switches of a level, each in lines of its own. -/
def longSwitches (env : Environment) (level : Level) : String :=
  "\n\n".intercalate ((shownSwitches level).map fun s =>
    let notes := "\n".intercalate (valueNotes env s)
    let meaning := switchPurpose level true s ++ if notes = "" then "" else "\n\n" ++ notes
    blanks 2 ++ listed s ++ "\n" ++ blanks 10 ++ hang 10 meaning)

/-- The commands of the outer level. -/
def commands : String :=
  columns (Verb.all.map (fun v => (v.name, purpose v)) ++ [(Level.helpName, helpPurpose)])

/-- The parts of a page. -/
def parts (env : Environment) (level : Level) (long : Bool) : List String :=
  let usage := "Usage: " ++ level.usage
  match level with
  | .outer =>
      if long then
        [programStory, usage, "Commands:\n" ++ commands, "Options:\n" ++ longSwitches env level]
      else
        [levelPurpose level, usage, "Commands:\n" ++ commands,
          "Options:\n" ++ shortSwitches env level]
  | .command _ =>
      [levelPurpose level, usage] ++
        (match level.operand? with
          | some o => ["Arguments:\n" ++ columns [(o.display, operandPurpose o)]]
          | none => []) ++
        ["Options:\n" ++ shortSwitches env level]
  | .help =>
      [levelPurpose level, usage,
        "Arguments:\n" ++ columns [("[COMMAND]...", "Print help for the subcommand(s)")]]

/-- A page of help. Only the outer level has a longer one. -/
def page (env : Environment) (level : Level) (long : Bool) : String :=
  "\n\n".intercalate (parts env level long) ++ "\n"

/-- The version of the program. -/
def version : String :=
  programName ++ " " ++ programVersion ++ "\n"

end Pages

end Help
end CommandLine
end LineKeeper
