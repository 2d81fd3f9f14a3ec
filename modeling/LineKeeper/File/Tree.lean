import LineKeeper.Failure
import LineKeeper.File.Path

/-!
# A tree of files

A `FileTree` holds directories and files, each under the names that lead to it
from the root.

**Walking.** A path is walked part by part. A full stop stays, two of them go one
directory up, and every other part has to be the name of a directory; only the
last part may be missing.

**Results.**
* `makeDirectory_root`: the root cannot be made.
* `lookup_root`: the root is a directory.
-/

namespace LineKeeper

/-- What stands under a name. -/
inductive FileNode
  | directory
  | file (content : String)
deriving DecidableEq, Repr

/-- Directories and files, by the names that lead to them from the root. -/
structure FileTree where
  entries : List (List (List UInt8) × FileNode)
deriving DecidableEq, Repr

namespace FileTree

/-- Most bytes of a name. -/
def maxName : Nat := 255

/-- A path of this length or more is too long. -/
def pathLimit : Nat := 4096

/-- A tree with nothing in it. -/
def empty : FileTree := ⟨[]⟩

/-- What stands at a place. -/
def lookup (t : FileTree) (place : List (List UInt8)) : Option FileNode :=
  if place = [] then some .directory
  else (t.entries.find? (·.1 = place)).map (·.2)

/-- Puts something at a place. -/
def put (t : FileTree) (place : List (List UInt8)) (node : FileNode) : FileTree :=
  ⟨t.entries.filter (·.1 ≠ place) ++ [(place, node)]⟩

theorem lookup_root (t : FileTree) : t.lookup [] = some .directory := rfl

/-- The part that stays in a directory. -/
def here : List UInt8 := [Path.dot]

/-- The part that goes up. -/
def up : List UInt8 := [Path.dot, Path.dot]

/-- Walks through directories. -/
def walk (t : FileTree) (place : List (List UInt8)) :
    List (List UInt8) → Except Errno (List (List UInt8))
  | [] => .ok place
  | part :: parts =>
      if part = here then t.walk place parts
      else if part = up then t.walk place.dropLast parts
      else if maxName < part.length then .error Errno.nameTooLong
      else
        match t.lookup (place ++ [part]) with
        | some .directory => t.walk (place ++ [part]) parts
        | some (.file _) => .error Errno.notDirectory
        | none => .error Errno.noEntry

/-- Checks what no path may have. -/
def checkPath (p : Path) : Except Failure Unit :=
  if p.contains 0 then .error (.other "file name contained an unexpected NUL byte")
  else if pathLimit ≤ p.length then .error (.system Errno.nameTooLong)
  else if p.isEmpty then .error (.system Errno.noEntry)
  else .ok ()

/-- Walks to the directory of a path's last part, and returns it with that part. The root has no
last part. -/
def locate (t : FileTree) (p : Path) :
    Except Failure (List (List UInt8) × Option (List UInt8)) := do
  checkPath p
  match t.walk [] p.parts.dropLast with
  | .ok place => return (place, p.parts.getLast?)
  | .error e => throw (.system e)

/-- Is the path that of a directory? -/
def isDirectory (t : FileTree) (p : Path) : Bool :=
  match checkPath p, t.walk [] p.parts with
  | .ok (), .ok _ => true
  | _, _ => false

/-- Makes a directory. -/
def makeDirectory (t : FileTree) (p : Path) : Except Failure FileTree := do
  match ← t.locate p with
  | (_, none) => throw (.system Errno.fileExists)
  | (place, some part) =>
      if part = here ∨ part = up then throw (.system Errno.fileExists)
      else if maxName < part.length then throw (.system Errno.nameTooLong)
      else
        match t.lookup (place ++ [part]) with
        | some _ => throw (.system Errno.fileExists)
        | none => return t.put (place ++ [part]) .directory

/-- Makes a directory and those above it, as far as they are missing. The tree is returned also if
this fails half way. The number bounds how far up to go. -/
def makeDirectories (t : FileTree) (p : Path) : Nat → Except Failure Unit × FileTree
  | 0 => (.error (.system Errno.noEntry), t)
  | n + 1 =>
      if p.isEmpty then (.ok (), t)
      else
        match t.makeDirectory p with
        | .ok t => (.ok (), t)
        | .error e =>
            if e = .system Errno.noEntry then
              match p.parent? with
              | none => (.error (.other "failed to create whole tree"), t)
              | some above =>
                  match t.makeDirectories above n with
                  | (.error e, t) => (.error e, t)
                  | (.ok (), t) =>
                      match t.makeDirectory p with
                      | .ok t => (.ok (), t)
                      | .error e => if t.isDirectory p then (.ok (), t) else (.error e, t)
            else if t.isDirectory p then (.ok (), t)
            else (.error e, t)

/-- Opens a file to append to it; a missing one is made. The place of the file is returned. -/
def openFile (t : FileTree) (p : Path) : Except Failure (List (List UInt8) × FileTree) := do
  match ← t.locate p with
  | (_, none) => throw (.system Errno.isDirectory)
  | (place, some part) =>
      if part = here ∨ part = up ∨ p.endsInSlash then throw (.system Errno.isDirectory)
      else if maxName < part.length then throw (.system Errno.nameTooLong)
      else
        match t.lookup (place ++ [part]) with
        | some .directory => throw (.system Errno.isDirectory)
        | some (.file _) => return (place ++ [part], t)
        | none => return (place ++ [part], t.put (place ++ [part]) (.file ""))

/-- Adds text to the file at a place. -/
def append (t : FileTree) (place : List (List UInt8)) (text : String) : FileTree :=
  match t.lookup place with
  | some (.file content) =>
      ⟨t.entries.map fun e => if e.1 = place then (place, .file (content ++ text)) else e⟩
  | _ => t

/-- What stands below a directory: for each entry the names that lead to it from there. -/
def below (t : FileTree) (p : Path) : List (List (List UInt8) × FileNode) :=
  let top := p.parts
  (t.entries.filter fun e => top.isPrefixOf e.1 && top.length < e.1.length).map fun e =>
    (e.1.drop top.length, e.2)

theorem makeDirectory_root (t : FileTree) :
    t.makeDirectory [Path.slash] = .error (.system Errno.fileExists) := rfl

end FileTree
end LineKeeper
