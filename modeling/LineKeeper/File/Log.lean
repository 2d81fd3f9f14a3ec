import LineKeeper.File.Tree

/-!
# Log files

A detached server writes what it reports to a log file. The path of the file is
made absolute where it is named, because the server runs elsewhere.

**Two openings.** The one who starts a server opens the file once to see that it
can be written (`LogFile.prepare`); the server opens it again (`LogFile.init`),
and looks for a tilde once more. Logs are not rotated.

**Results.**
* `isAbsolute_path_new`: with an absolute working directory the path is absolute.
* `prepare_rotating`: a log that is to be rotated is refused, and nothing changes.
-/

namespace LineKeeper

/-- Where a detached server writes what it reports. -/
structure LogFile where
  path : Path
  rotate : Bool
deriving DecidableEq, Repr

/-- Why a log file cannot be used. -/
inductive LogFileError
  | noRotation
  | directory (f : Failure)
  | cannotOpen (path : Path) (f : Failure)
deriving DecidableEq, Repr

namespace LogFileError

/-- The text of the error. -/
def message : LogFileError → String
  | noRotation => "Log rotation needs gpioctl built with the `log-rotation` feature"
  | directory f => "Failed to create log directory: " ++ f.message
  | cannotOpen path f => "Failed to open log file " ++ path.display ++ ": " ++ f.message

end LogFileError

namespace LogFile

/-- The log file that a path means. -/
def new (home : Option Path) (cwd path : Path) : LogFile :=
  ⟨cwd.join (path.expand home), false⟩

/-- Says whether the log is to be rotated. -/
def rotating (l : LogFile) (rotate : Bool) : LogFile :=
  { l with rotate := rotate }

/-- Opens the file at a path, and makes the directories above it. -/
def openAt (t : FileTree) (path : Path) : Except LogFileError (List (List UInt8)) × FileTree :=
  let (made, t) :=
    match path.parent? with
    | some above => t.makeDirectories above (above.length + 1)
    | none => (.ok (), t)
  match made with
  | .error f => (.error (.directory f), t)
  | .ok () =>
      match t.openFile path with
      | .error f => (.error (.cannotOpen path f), t)
      | .ok (place, t) => (.ok place, t)

/-- Checks that the file can be written. -/
def prepare (l : LogFile) (t : FileTree) : Except LogFileError Unit × FileTree :=
  if l.rotate then (.error .noRotation, t)
  else
    let (opened, t) := openAt t l.path
    (opened.map fun _ => (), t)

/-- Opens the file in the server, and returns its place. -/
def init (l : LogFile) (home : Option Path) (t : FileTree) :
    Except LogFileError (List (List UInt8)) × FileTree :=
  if l.rotate then (.error .noRotation, t)
  else openAt t (l.path.expand home)

theorem isAbsolute_path_new {home : Option Path} {cwd path : Path}
    (h : cwd.isAbsolute = true) : (new home cwd path).path.isAbsolute = true := by
  simp only [new, Path.join]
  split
  · assumption
  · cases cwd with
    | nil => simp [Path.isAbsolute] at h
    | cons b cwd =>
        simp only [Path.isAbsolute, List.head?_cons] at h
        split <;> simpa [Path.isAbsolute] using h

theorem prepare_rotating (l : LogFile) (t : FileTree) :
    (l.rotating true).prepare t = (.error .noRotation, t) := rfl

end LogFile
end LineKeeper
