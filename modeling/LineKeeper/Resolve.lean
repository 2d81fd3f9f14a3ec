import LineKeeper.Device
import LineKeeper.Text.Decimal

/-!
# From identifiers to lines

A line can be named by its offset, if a chip was chosen, or by its name. All
lines of one request have to be on one chip, and none may be named twice.

**Identifiers.** While a chip is chosen and names are not forced, an identifier
that reads as a number of 32 bits is an offset on that chip; every other one is
a name, and the first line with that name, in the order of chips and offsets, is
meant. In strict lookups the name has to be the only one.

**Errors.** The first identifier that cannot be located is reported; then lines
on several chips; then the first identifier whose line was named before.

**Results.**
* `resolveIn_nil`: a request without lines is refused first of all.
* `locate_offset`, `locate_name`: which of the two readings an identifier has.
-/

namespace LineKeeper

/-- How lines are looked up. -/
structure Lookup where
  chip : Option String
  byName : Bool
  strict : Bool
deriving DecidableEq, Repr

/-- The lines of one chip, as far as names are concerned. -/
structure ChipLines where
  path : String
  names : List (Option String)
deriving DecidableEq, Repr

/-- A line of a chip; the chip is given by its place in the inventory and its path. -/
structure Location where
  chip : Nat
  path : String
  offset : UInt32
deriving DecidableEq, Repr

/-- Lines of one chip, in the order in which they were named. -/
structure Resolved where
  chipPath : String
  offsets : List UInt32
deriving DecidableEq, Repr

/-- Why identifiers cannot be turned into lines. -/
inductive ResolveError
  | noLines
  | noChip (offset : UInt32)
  | outOfRange (offset : UInt32) (path : String)
  | notFound (id : String)
  | notUnique (id : String)
  | severalChips
  | repeated (id : String)
  | chipNotFound (path : String) (errno : Errno)
  | cannotList (errno : Errno)
  | cannotOpen (errno : Errno)
  | cannotRead (offset : Nat) (path : String) (errno : Errno)
deriving DecidableEq, Repr

namespace ResolveError

/-- The text of the error. -/
def message : ResolveError → String
  | noLines => "At least one line must be specified"
  | noChip offset => "no GPIO chip to resolve offset " ++ toString offset ++ " on"
  | outOfRange offset path =>
      "offset " ++ toString offset ++ " is out of range on chip '" ++ path ++ "'"
  | notFound id => "cannot find line '" ++ id ++ "'"
  | notUnique id => "line '" ++ id ++ "' is not unique"
  | severalChips => "Can only manipulate lines from one chip at a time"
  | repeated id => "line '" ++ id ++ "' was specified more than once"
  | chipNotFound path errno => "cannot find GPIO chip '" ++ path ++ "': " ++ errno.describe
  | cannotList errno =>
      "Failed to enumerate GPIO chips: " ++ errno.describe ++ ": " ++ errno.describe
  | cannotOpen errno => "Failed to open GPIO chip: " ++ errno.describe
  | cannotRead offset path errno =>
      "Failed to read line " ++ toString offset ++ " info on '" ++ path ++ "': " ++ errno.describe

end ResolveError

namespace Resolve

/-- The directory of devices. -/
def deviceDirectory : String := "/dev/"

/-- The device that a chip identifier means: a path if it has a slash, a chip's number if it has
only digits, and a device's name otherwise. -/
def chipPath (id : String) : String :=
  if id.toList.contains '/' then id
  else if id.toList.all fun c => decide ('0' ≤ c ∧ c ≤ '9') then
    deviceDirectory ++ "gpiochip" ++ id
  else deviceDirectory ++ id

/-- The lines with a name, in the order of chips and offsets. -/
def occurrences (chips : List ChipLines) (name : String) : List Location :=
  chips.zipIdx.flatMap fun (chip, i) =>
    (chip.names.zipIdx.filter fun (n, _) => n = some name).map fun (_, o) =>
      ⟨i, chip.path, UInt32.ofNat o⟩

/-- The line with a name. -/
def findByName (chips : List ChipLines) (name : String) (strict : Bool) :
    Except ResolveError Location :=
  match occurrences chips name with
  | [] => .error (.notFound name)
  | [line] => .ok line
  | line :: _ :: _ => if strict then .error (.notUnique name) else .ok line

/-- The line at an offset of the first chip. -/
def findByOffset (chips : List ChipLines) (offset : UInt32) : Except ResolveError Location :=
  match chips with
  | [] => .error (.noChip offset)
  | chip :: _ =>
      if offset.toNat < chip.names.length then .ok ⟨0, chip.path, offset⟩
      else .error (.outOfRange offset chip.path)

/-- The offset that an identifier means, if it means one. -/
def offset? (opts : Lookup) (id : String) : Option UInt32 :=
  if opts.chip.isSome && !opts.byName then (Text.Decimal.readUInt32 id).toOption else none

/-- The line that an identifier means. -/
def locate (chips : List ChipLines) (opts : Lookup) (id : String) :
    Except ResolveError Location :=
  match offset? opts id with
  | some offset => findByOffset chips offset
  | none => findByName chips id opts.strict

/-- The lines that identifiers mean; the first that means none is reported. -/
def locateAll (chips : List ChipLines) (opts : Lookup) :
    List String → Except ResolveError (List (String × Location))
  | [] => .ok []
  | id :: ids => do
      let line ← locate chips opts id
      let lines ← locateAll chips opts ids
      return (id, line) :: lines

/-- The first identifier whose offset is among `seen` or was named before. -/
def firstRepeated? (seen : List UInt32) : List (String × Location) → Option String
  | [] => none
  | (id, line) :: lines =>
      if line.offset ∈ seen then some id else firstRepeated? (line.offset :: seen) lines

/-- Turns identifiers into lines of one chip of an inventory. -/
def resolveIn (chips : List ChipLines) (opts : Lookup) (ids : List String) :
    Except ResolveError Resolved :=
  match locateAll chips opts ids with
  | .error e => .error e
  | .ok [] => .error .noLines
  | .ok ((id, line) :: lines) =>
      if lines.any fun l => l.2.chip ≠ line.chip then .error .severalChips
      else
        match firstRepeated? [] ((id, line) :: lines) with
        | some again => .error (.repeated again)
        | none => .ok ⟨line.path, ((id, line) :: lines).map (·.2.offset)⟩

theorem resolveIn_nil (chips : List ChipLines) (opts : Lookup) :
    resolveIn chips opts [] = .error .noLines := rfl

theorem locate_offset {chips : List ChipLines} {opts : Lookup} {id : String} {offset : UInt32}
    (h : offset? opts id = some offset) : locate chips opts id = findByOffset chips offset := by
  simp [locate, h]

theorem locate_name {chips : List ChipLines} {opts : Lookup} {id : String}
    (h : offset? opts id = none) : locate chips opts id = findByName chips id opts.strict := by
  simp [locate, h]

section Reading

/-- The names of a chip's lines from `offset` on, as far as `count` of them. -/
def readNames (chip : Chip) (offset : Nat) : Nat → Except ResolveError (List (Option String))
  | 0 => .ok []
  | count + 1 =>
      match chip.lineName offset with
      | .error e => .error (.cannotRead offset chip.path e)
      | .ok name => do
          let names ← readNames chip (offset + 1) count
          return name :: names

/-- The names of all lines of an opened chip. -/
def readLines (chip : Chip) : Except ResolveError ChipLines := do
  let names ← readNames chip 0 chip.size
  return ⟨chip.path, names⟩

/-- Does `part` stand anywhere in the text? -/
def occursIn (part : List Char) : List Char → Bool
  | [] => part.isEmpty
  | c :: cs => part.isPrefixOf (c :: cs) || occursIn part cs

/-- Is this a chip that a listing of the device directory shows? -/
def isListed (path : String) : Bool :=
  let name := path.toList.drop deviceDirectory.length
  deviceDirectory.toList.isPrefixOf path.toList && !name.isEmpty && !name.contains '/' &&
    occursIn "gpiochip".toList path.toList

/-- Opens and reads chips in order. -/
def readAll (chips : Chips) : List String → Except ResolveError (List ChipLines)
  | [] => .ok []
  | path :: paths =>
      match chips.openChip path with
      | .error e => .error (.cannotOpen e)
      | .ok chip => do
          let lines ← readLines chip
          let more ← readAll chips paths
          return lines :: more

/-- The chips to look lines up on: the chosen one, or all that are listed. -/
def inventory (chips : Chips) (opts : Lookup) : Except ResolveError (List ChipLines) :=
  match opts.chip with
  | some id =>
      match chips.openChip (chipPath id) with
      | .error e => .error (.chipNotFound (chipPath id) e)
      | .ok chip => do
          let lines ← readLines chip
          return [lines]
  | none =>
      match chips.listErrno with
      | some e => .error (.cannotList e)
      | none => readAll chips ((chips.list.map (·.path)).filter isListed)

/-- Turns identifiers into lines of one chip of this machine. -/
def resolve (chips : Chips) (opts : Lookup) (ids : List String) :
    Except ResolveError Resolved := do
  let lines ← inventory chips opts
  resolveIn lines opts ids

end Reading

end Resolve
end LineKeeper
