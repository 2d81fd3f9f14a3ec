import LineKeeper.Host

/-!
# The program

Runs its command line on a machine that has no chips and no files yet, for the user
whose environment it finds, and ends as the run does.
-/

namespace LineKeeper
namespace Main

/-- The variables of the environment that mean something. -/
def meaningful : List String :=
  [Environment.homeName, LogFilter.variableName] ++
    CommandLine.Level.globals.filterMap CommandLine.Switch.variableName?

/-- The environment, as far as it means something. -/
def environment : IO Environment :=
  meaningful.foldlM (fun env name => do
    match ← IO.getEnv name with
    | some value => return env.set name (Text.Utf8.encode value)
    | none => return env) Environment.empty

/-- Who runs the program. -/
def caller : IO Caller := do
  let env ← environment
  let directory ← IO.getEnv "PWD"
  let uid ← IO.getEnv "UID"
  return {
    environment := env
    directory := Path.ofString (directory.getD "/")
    uid := ((uid.bind String.toNat?).map UInt32.ofNat).getD 0
    listedHome := some (Path.ofString "/root") }

end Main
end LineKeeper

/-- Runs the program. -/
def main (args : List String) : IO UInt32 := do
  let caller ← LineKeeper.Main.caller
  let host := LineKeeper.Host.fresh LineKeeper.Chips.none LineKeeper.FileTree.empty
  let (finished, _) := host.run caller (args.map LineKeeper.Text.Utf8.encode)
  IO.print finished.output
  IO.eprint finished.errors
  return UInt32.ofNat finished.code
