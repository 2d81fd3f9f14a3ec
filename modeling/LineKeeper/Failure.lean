import LineKeeper.Errno
import LineKeeper.Wire.Error

/-!
# Failed input and output

A `Failure` is the reason why bytes could not be sent, received or understood.
Some failures come from the operating system and carry its error number; the
others arise above it.
-/

namespace LineKeeper

/-- Why an input or output operation failed. -/
inductive Failure
  | system (errno : Errno)
  | endOfStream
  | sinkFull
  | malformed (e : WireError)
  | socketNameTooLong
  | zeroTimeout
  | timedOut
  | other (text : String)
deriving DecidableEq, Repr

namespace Failure

/-- The text of a failure. -/
def message : Failure → String
  | system errno => errno.describe
  | endOfStream => "failed to fill whole buffer"
  | sinkFull => "failed to write whole buffer"
  | malformed e => e.message
  | socketNameTooLong => "abstract socket name must be shorter than SUN_LEN"
  | zeroTimeout => "cannot set a 0 duration timeout"
  | timedOut => Errno.describe 11
  | other text => text

/-- The error number, for failures that come from the operating system. -/
def errno? : Failure → Option Errno
  | system errno => some errno
  | timedOut => some 11
  | _ => none

end Failure
end LineKeeper
