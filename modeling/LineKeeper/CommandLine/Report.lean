import LineKeeper.CommandLine.Help
import LineKeeper.CommandLine.UsageError

/-!
# What is written about a command line

On demand, help or the version is written. A fault is named in one line, after
which come what may have been meant, a reminder of the usage, and a hint at the
help. A value that is bad or missing has no reminder of the usage.

**Results.**
* `text_version`: the version is written alone.
-/

namespace LineKeeper
namespace CommandLine
namespace Report

/-- A text between quotes. -/
def quoted (s : String) : String :=
  "'" ++ s ++ "'"

/-- The line that names the fault. -/
def headline : Fault → String
  | .noCommand =>
      quoted programName ++ " requires a subcommand but one was not provided\n  [subcommands: " ++
        ", ".intercalate Level.commandNames ++ "]"
  | .unknownCommand word => "unrecognized subcommand " ++ quoted word
  | .unknownArgument word => "unexpected argument " ++ quoted word ++ " found"
  | .noValue s => "a value is required for " ++ quoted s.display ++ " but none was supplied"
  | .unwantedValue s value =>
      "unexpected value " ++ quoted value ++ " for " ++ quoted s.display ++
        " found; no more were expected"
  | .repeated s => "the argument " ++ quoted s.display ++ " cannot be used multiple times"
  | .badValue item value why =>
      "invalid value " ++ quoted value ++ " for " ++ quoted item.display ++ ": " ++ why.message
  | .notText => "invalid UTF-8 was detected in one or more arguments"
  | .missing items =>
      "the following required arguments were not provided:" ++
        String.join (items.map fun i => "\n  " ++ i.display)
  | .helpAsked _ => ""
  | .versionAsked => ""
  | .nothingGiven => ""

/-- A tip. -/
def tipText : Tip → String
  | .commands [name] => "a similar subcommand exists: " ++ quoted name
  | .commands names => "some similar subcommands exist: " ++ ", ".intercalate (names.map quoted)
  | .switch s => "a similar argument exists: " ++ quoted ("--" ++ s.long)
  | .switchOf v s => quoted (v.name ++ " --" ++ s.long) ++ " exists"
  | .asValue word =>
      "to pass " ++ quoted word ++ " as a value, use " ++ quoted ("-- " ++ word)
  | .withoutTerminator word =>
      "subcommand " ++ quoted word ++ " exists; to use it, remove the '--' before it"

/-- Is the fault one of a value? -/
def isValueFault : Fault → Bool
  | .noValue _ => true
  | .badValue .. => true
  | _ => false

/-- The switches among items, as they are written. -/
def shownSwitches (items : List Item) : List String :=
  items.filterMap fun
    | .switch s => some s.display
    | .operand _ => none

/-- The usage with just some items, or the whole usage for none. -/
def usage (level : Level) (items : List Item) : String :=
  if items.isEmpty then level.usage
  else
    " ".intercalate ([level.path] ++ shownSwitches items ++
      (level.operand?.map Operand.display).toList ++
      if level = .outer then ["<COMMAND>"] else [])

/-- The hint at the help, where a level has one. -/
def hint : Level → String
  | .help => "\n"
  | _ => "\n\nFor more information, try '--help'.\n"

/-- The report of a fault. -/
def faultText (e : UsageError) : String :=
  let tips := if e.tips.isEmpty then "" else
    "\n" ++ String.join (e.tips.map fun t => "\n  tip: " ++ tipText t)
  let reminder := if isValueFault e.fault then "" else "\n\nUsage: " ++ usage e.level e.used
  "error: " ++ headline e.fault ++ tips ++ reminder ++ hint e.level

/-- What is written. -/
def text (env : Environment) (e : UsageError) : String :=
  match e.fault with
  | .helpAsked long => Help.page env e.level long
  | .versionAsked => Help.version
  | .nothingGiven => Help.page env e.level false
  | _ => faultText e

theorem text_version (env : Environment) (level : Level) :
    text env (.plain level .versionAsked) = Help.version := rfl

end Report
end CommandLine
end LineKeeper
