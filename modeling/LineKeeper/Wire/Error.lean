/-!
# Why a message cannot be built or read

The causes are the rules of the wire format, each with the data that its text
names. `WireError.message` is the only place that knows the wording.
-/

namespace LineKeeper

/-- The text fields of a message. -/
inductive Field
  | chipPath
  | consumer
  | requestId
deriving DecidableEq, Repr

namespace Field

/-- Bytes set aside for the field. -/
def width : Field → Nat
  | chipPath => 128
  | consumer => 32
  | requestId => 32

/-- What the field is called in an error. -/
def label : Field → String
  | chipPath => "chip path"
  | consumer => "consumer"
  | requestId => "request identifier"

end Field

/-- Most lines that one request can name. -/
def maxLines : Nat := 64

/-- Bytes of every message. -/
def frameSize : Nat := 489

/-- A rule of the wire format that was broken. -/
inductive WireError
  | truncated (actual : Nat)
  | unknownKind (tag : UInt32)
  | noLines
  | tooManyLines (count : Nat)
  | duplicateOffset (offset : UInt32)
  | valueCount (expected actual : Nat)
  | invalidValue (value : UInt8)
  | invalidFlags (flags : UInt8)
  | fieldTooLong (field : Field)
  | invalidString (field : Field)
deriving DecidableEq, Repr

namespace WireError

/-- A byte in base sixteen with two digits. -/
def hexByte (b : UInt8) : String :=
  let digits := Nat.toDigits 16 b.toNat
  "0x" ++ String.ofList (List.replicate (2 - digits.length) '0' ++ digits)

/-- The text of a broken rule. -/
def message : WireError → String
  | truncated actual =>
      "message truncated: expected " ++ toString frameSize ++ " bytes, got " ++ toString actual
  | unknownKind tag => "unknown message type " ++ toString tag
  | noLines => "at least one line must be specified"
  | tooManyLines count =>
      "can only handle up to " ++ toString maxLines ++ " lines, got " ++ toString count
  | duplicateOffset offset => "line offset " ++ toString offset ++ " specified more than once"
  | valueCount expected actual =>
      "expected " ++ toString expected ++ " output values, got " ++ toString actual
  | invalidValue value => "invalid output value " ++ toString value ++ ", must be 0 or 1"
  | invalidFlags flags => "unknown request flags " ++ hexByte flags
  | fieldTooLong field => field.label ++ " exceeds " ++ toString field.width ++ " bytes"
  | invalidString field => field.label ++ " is not a valid string"

end WireError
end LineKeeper
