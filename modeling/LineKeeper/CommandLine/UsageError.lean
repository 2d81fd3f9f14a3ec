import LineKeeper.CommandLine.Grammar
import LineKeeper.LineArg
import LineKeeper.Text.Decimal
import LineKeeper.Wire.Error

/-!
# When a command line says nothing to do

A command line may ask for help or for the version, and it may have a fault. In
both cases there is nothing else to do than to write about it; which of the two
it is decides where, and how the program ends.
-/

namespace LineKeeper
namespace CommandLine

/-- Why a value cannot be read. -/
inductive ValueFault
  | number (e : Text.DecimalError)
  | line (e : LineArgError)
  | request (e : WireError)
deriving DecidableEq, Repr

namespace ValueFault

/-- The text of the fault. -/
def message : ValueFault → String
  | number e => e.message
  | line e => e.message
  | request e => e.message

end ValueFault

/-- What a command line asks for or lacks. -/
inductive Fault
  | helpAsked (long : Bool)
  | versionAsked
  | nothingGiven
  | noCommand
  | unknownCommand (word : String)
  | unknownArgument (word : String)
  | noValue (s : Switch)
  | unwantedValue (s : Switch) (value : String)
  | repeated (s : Switch)
  | badValue (item : Item) (value : String) (why : ValueFault)
  | notText
  | missing (items : List Item)
deriving DecidableEq, Repr

namespace Fault

/-- Is it a fault indeed? Help and the version are given on demand. -/
def isFault : Fault → Bool
  | helpAsked _ => false
  | versionAsked => false
  | _ => true

end Fault

/-- What may have been meant. -/
inductive Tip
  | commands (names : List String)
  | switch (s : Switch)
  | switchOf (v : Verb) (s : Switch)
  | asValue (word : String)
  | withoutTerminator (word : String)
deriving DecidableEq, Repr

/-- A fault, the level where it was found, the items that the reminder of the usage names (none:
the whole usage), and what may have been meant. -/
structure UsageError where
  level : Level
  fault : Fault
  used : List Item
  tips : List Tip
deriving DecidableEq, Repr

namespace UsageError

/-- A fault without more. -/
def plain (level : Level) (fault : Fault) : UsageError :=
  ⟨level, fault, [], []⟩

end UsageError
end CommandLine
end LineKeeper
