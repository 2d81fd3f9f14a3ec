import LineKeeper.ChipError
import LineKeeper.LineSpec

/-!
# The GPIO chips of a machine

**What there is.** A `Chip` has a path and lines, numbered from zero, each with
a name or none. Opening a chip, asking for its size, asking for a line's name
and requesting lines can each fail with an error number.

**Requesting lines.** A request is granted only if none of its lines is in use;
it then holds exactly these lines, under a handle of its own, until the handle
is closed. Offsets beyond the chip are refused before the device is asked. What
reaches the device is kept in the journal.

**The library.** `tryOpen`, `tryOpenFor`, `tryAsk` and `attempt` fail with the errors of the
chip library; `openChip`, `openFor`, `ask` and `request` do the same, and report the
numbers of these errors.

**Results.**
* `request_eq_attempt`: a request is an attempt, with the numbers of the errors.
* `request_snd_of_error`: a refused request leaves the held lines and the
  handles as they were.
* `grants_request_of_ok`: a granted request holds exactly its lines.
* `grants_release`: closing a handle frees exactly its lines.
-/

namespace LineKeeper

/-- A chip, and how asking it can fail. -/
structure Chip where
  path : String
  names : List (Option String)
  openErrno : Option Errno
  infoErrno : Option Errno
  lineErrnos : List (Nat × Errno)
  requestErrno : Option Errno
  busy : List UInt32
deriving DecidableEq, Repr

/-- The chips of a machine. Listing the directory of devices can fail as well. -/
structure Chips where
  list : List Chip
  listErrno : Option Errno
deriving DecidableEq, Repr

namespace Chip

/-- The number of lines. -/
def size (chip : Chip) : Nat :=
  chip.names.length

/-- The name of a line. An empty name is none. -/
def lineName (chip : Chip) (offset : Nat) : Except Errno (Option String) :=
  match chip.lineErrnos.find? (·.1 = offset) with
  | some (_, e) => .error e.ofDeviceCall
  | none => .ok ((chip.names[offset]?.join).filter (· ≠ ""))

end Chip

namespace Chips

/-- A machine without chips. -/
def none : Chips := ⟨[], Option.none⟩

/-- Opens the chip at a path and asks for its size, through the library. A path with a NUL is no
path. -/
def tryOpen (chips : Chips) (path : String) : Except ChipError Chip :=
  if path.toList.contains '\x00' then
    .error (.notOpened (.other "file name contained an unexpected NUL byte"))
  else
    match chips.list.find? (·.path = path) with
    | Option.none => .error (.notOpened (.system Errno.noEntry))
    | some chip =>
        match chip.openErrno, chip.infoErrno with
        | some e, _ => .error (.notOpened (.system e))
        | Option.none, some e => .error (.callFailed e)
        | Option.none, Option.none => .ok chip

/-- Opens the chip at a path and asks for its size. -/
def openChip (chips : Chips) (path : String) : Except Errno Chip :=
  ChipError.reported (chips.tryOpen path)

/-- How a chip is opened, with the numbers of the errors. -/
theorem openChip_eq (chips : Chips) (path : String) :
    chips.openChip path =
      if path.toList.contains '\x00' then .error Errno.inputOutput
      else
        match chips.list.find? (·.path = path) with
        | Option.none => .error Errno.noEntry
        | some chip =>
            match chip.openErrno, chip.infoErrno with
            | some e, _ => .error e
            | Option.none, some e => .error e.ofDeviceCall
            | Option.none, Option.none => .ok chip := by
  rw [openChip, tryOpen]
  split
  · rfl
  · split
    · rfl
    · next chip _ => cases chip.openErrno <;> cases chip.infoErrno <;> rfl

end Chips

/-- What a device is asked for. -/
structure LineRequest where
  chip : String
  offsets : List UInt32
  levels : List Bool
  activeLow : Bool
  output : Bool
  consumer : List UInt8
deriving DecidableEq, Repr

namespace LineRequest

/-- The label used when the client gave none. -/
def defaultConsumer : String := "gpioctl"

/-- Bytes of a label that reach the device: its field also holds a terminator. -/
def consumerWidth : Nat := 31

/-- What is asked for when a client's request is carried out. -/
def ofSpec (spec : LineSpec) : LineRequest where
  chip := spec.chipPath.text
  offsets := spec.offsets.list
  levels := spec.levels
  activeLow := spec.activeLow
  output := spec.output
  consumer :=
    let label := if spec.consumer.text = "" then defaultConsumer else spec.consumer.text
    (Text.Utf8.encode label).take consumerWidth

/-- The flags of a request: 1 for inputs, 2 for outputs, and 4 for active-low. -/
def flags (r : LineRequest) : Nat :=
  (if r.output then 2 else 1) + (if r.activeLow then 4 else 0)

end LineRequest

/-- A call that reached the device. -/
inductive DeviceCall
  | refused (r : LineRequest) (errno : Errno)
  | granted (r : LineRequest) (handle : Nat)
  | released (handle : Nat)
deriving DecidableEq, Repr

/-- Lines held under a handle. -/
structure Grant where
  handle : Nat
  chip : String
  offsets : List UInt32
deriving DecidableEq, Repr

/-- The chips, the lines held on them by one process, how many handles were ever given out, and
what reached the device so far. -/
structure Device where
  chips : Chips
  grants : List Grant
  issued : Nat
  journal : List DeviceCall
deriving DecidableEq, Repr

namespace Device

/-- The chips of a machine, with no line held. -/
def ofChips (chips : Chips) : Device :=
  ⟨chips, [], 0, []⟩

/-- Is the line held under some handle? -/
def isHeld (d : Device) (chip : String) (offset : UInt32) : Bool :=
  d.grants.any fun g => g.chip = chip && g.offsets.contains offset

/-- The checks that the library makes before the device is asked: the chip can be opened, and it
has all the lines. -/
def tryOpenFor (d : Device) (spec : LineSpec) : Except ChipError Chip :=
  match d.chips.tryOpen spec.chipPath.text with
  | .error e => .error e
  | .ok chip =>
      if spec.offsets.list.all fun o => decide (o.toNat < chip.size) then .ok chip
      else .error .badArgument

/-- The checks made before the device is asked. -/
def openFor (d : Device) (spec : LineSpec) : Except Errno Chip :=
  ChipError.reported (d.tryOpenFor spec)

/-- Why the device refuses a request, if it does: the chip may refuse all of them, and a line may
be in use. -/
def refusal? (d : Device) (chip : Chip) (r : LineRequest) : Option Errno :=
  match chip.requestErrno with
  | some e => some e
  | none =>
      if r.offsets.any fun o => chip.busy.contains o || d.isHeld r.chip o then some Errno.busy
      else none

/-- Asks the device for lines of an opened chip, through the library. -/
def tryAsk (d : Device) (chip : Chip) (r : LineRequest) : Except ChipError Nat × Device :=
  match d.refusal? chip r with
  | some e => (.error (.callFailed e), { d with journal := d.journal ++ [.refused r e] })
  | none =>
      let handle := d.issued + 1
      (.ok handle, { d with
        grants := d.grants ++ [⟨handle, r.chip, r.offsets⟩]
        issued := handle
        journal := d.journal ++ [.granted r handle] })

/-- Asks the device for lines of an opened chip. -/
def ask (d : Device) (chip : Chip) (r : LineRequest) : Except Errno Nat × Device :=
  let (outcome, device) := d.tryAsk chip r
  (ChipError.reported outcome, device)

/-- Carries out a client's request, through the library. -/
def attempt (d : Device) (spec : LineSpec) : Except ChipError Nat × Device :=
  match d.tryOpenFor spec with
  | .error e => (.error e, d)
  | .ok chip => d.tryAsk chip (LineRequest.ofSpec spec)

/-- Carries out a client's request. -/
def request (d : Device) (spec : LineSpec) : Except Errno Nat × Device :=
  match d.openFor spec with
  | .error e => (.error e, d)
  | .ok chip => d.ask chip (LineRequest.ofSpec spec)

/-- Closes a handle. -/
def release (d : Device) (handle : Nat) : Device :=
  { d with
    grants := d.grants.filter (·.handle ≠ handle)
    journal := d.journal ++ [.released handle] }

/-- The checks before the device is asked, with the numbers of their errors. -/
theorem openFor_eq (d : Device) (spec : LineSpec) :
    d.openFor spec =
      match d.chips.openChip spec.chipPath.text with
      | .error e => .error e
      | .ok chip =>
          if spec.offsets.list.all fun o => decide (o.toNat < chip.size) then .ok chip
          else .error Errno.invalidArgument := by
  rw [openFor, tryOpenFor, Chips.openChip]
  cases d.chips.tryOpen spec.chipPath.text with
  | error e => rfl
  | ok chip =>
      simp only [ChipError.reported_ok]
      split <;> rfl

theorem ask_eq (d : Device) (chip : Chip) (r : LineRequest) :
    d.ask chip r =
      match d.refusal? chip r with
      | some e => (.error e.ofDeviceCall, { d with journal := d.journal ++ [.refused r e] })
      | none =>
          (.ok (d.issued + 1), { d with
            grants := d.grants ++ [⟨d.issued + 1, r.chip, r.offsets⟩]
            issued := d.issued + 1
            journal := d.journal ++ [.granted r (d.issued + 1)] }) := by
  rw [ask, tryAsk]
  cases d.refusal? chip r <;> rfl

/-- What a request gives is what it gives through the library, with the numbers of its errors. -/
theorem request_eq_attempt (d : Device) (spec : LineSpec) :
    d.request spec = (ChipError.reported (d.attempt spec).1, (d.attempt spec).2) := by
  rw [request, attempt, openFor]
  cases d.tryOpenFor spec <;> rfl

theorem request_snd_of_error {d : Device} {spec : LineSpec} {e : Errno}
    (h : (d.request spec).1 = .error e) :
    (d.request spec).2.grants = d.grants ∧ (d.request spec).2.issued = d.issued := by
  revert h
  simp only [request]
  split
  · intro _; exact ⟨rfl, rfl⟩
  · rw [ask_eq]
    split
    · intro _; exact ⟨rfl, rfl⟩
    · intro h; cases h

theorem grants_request_of_ok {d : Device} {spec : LineSpec} {handle : Nat}
    (h : (d.request spec).1 = .ok handle) :
    (d.request spec).2.grants =
      d.grants ++ [⟨handle, spec.chipPath.text, spec.offsets.list⟩] := by
  revert h
  simp only [request]
  split
  · intro h; cases h
  · rw [ask_eq]
    split
    · intro h; cases h
    · intro h; cases h; rfl

theorem grants_release (d : Device) (handle : Nat) :
    (d.release handle).grants = d.grants.filter (·.handle ≠ handle) := rfl

end Device
end LineKeeper
