import LineKeeper.Failure

/-!
# Errors of the chip library

Chips are opened and asked through a library, which has errors of its own. Most of
them have a cause: the failure to open a device, or the number of a device call that
failed. Arguments that the library refuses by itself are errors without a cause.

**The number.** Only an error number goes back to who asked. It is the number of the
cause, if the cause has one.
-/

namespace LineKeeper

/-- What an error of the chip library comes from. -/
inductive ChipCause
  | failure (f : Failure)
  | call (errno : Errno)
  | other (text : String)
deriving DecidableEq, Repr

/-- An error of the chip library. -/
structure ChipError where
  cause : Option ChipCause
deriving DecidableEq, Repr

/-- The number of a cause. A cause without a number counts as an input/output error. -/
def ChipCause.errno : ChipCause → Errno
  | failure f => f.errno?.getD Errno.inputOutput
  | call errno => errno
  | other _ => Errno.inputOutput

namespace ChipError

/-- The device cannot be opened. -/
def notOpened (f : Failure) : ChipError :=
  ⟨some (.failure f)⟩

/-- A device call failed with a number of the kernel. -/
def callFailed (errno : Errno) : ChipError :=
  ⟨some (.call errno.ofDeviceCall)⟩

/-- The library refuses the arguments. -/
def badArgument : ChipError :=
  ⟨none⟩

/-- The error number that an error of the library is reported with. -/
def errno (e : ChipError) : Errno :=
  match e.cause with
  | some cause => cause.errno
  | none => Errno.invalidArgument

/-- An outcome as it is reported. -/
def reported {α : Type} (outcome : Except ChipError α) : Except Errno α :=
  outcome.mapError errno

@[simp] theorem reported_ok {α : Type} (a : α) : reported (.ok a) = .ok a := rfl

@[simp] theorem reported_error {α : Type} (e : ChipError) :
    reported (.error e : Except ChipError α) = .error e.errno := rfl

end ChipError
end LineKeeper
