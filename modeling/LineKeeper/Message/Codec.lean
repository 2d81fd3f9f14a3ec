import LineKeeper.Message

/-!
# The wire format of messages

Every message takes `frameSize` bytes: a word for its kind, the fields of that
kind, and zeros.

| kind | fields |
|---|---|
| ERROR | the error number |
| REQ_OK, RELEASE | the identifier |
| REQUEST | chip path, consumer, count, 64 offsets, 64 values, flags |
| the others | none |

**Reading.** `Message.decode` checks the rules in a fixed order, so the error it
gives is that of the first rule broken.

**Results.**
* `body_length`: how many bytes of a frame carry meaning.
* `encode_length`: every message fills exactly one frame.
* `decode_of_length_ne`: a frame of another size is refused with its size.
-/

namespace LineKeeper

namespace LineSpec

/-- The count of lines as a word. -/
def count (spec : LineSpec) : UInt32 :=
  UInt32.ofNat spec.offsets.list.length

/-- The 64 offset slots; those that are not used hold zero. -/
def offsetSlots (spec : LineSpec) : List UInt32 :=
  spec.offsets.list ++ List.replicate (maxLines - spec.offsets.list.length) 0

/-- The 64 value slots; those that are not used hold zero. -/
def valueSlots (spec : LineSpec) : List UInt8 :=
  spec.values ++ List.replicate (maxLines - spec.values.length) 0

/-- The fields of a request, in order. -/
def fields (spec : LineSpec) : List (List UInt8) :=
  [spec.chipPath.padded, spec.consumer.padded, Wire.encodeWord spec.count,
    spec.offsetSlots.flatMap Wire.encodeWord, spec.valueSlots, [spec.flags]]

/-- The request with these parts. Its offsets are checked before its values. -/
def ofParts (chipPath : FieldText .chipPath) (consumer : FieldText .consumer)
    (offsets : List UInt32) (values : List UInt8) (flags : UInt8) :
    Except WireError LineSpec := do
  let lines ← Offsets.ofList offsets
  match h : checkValues lines.list.length values with
  | .error e => .error e
  | .ok levels =>
      .ok {
        chipPath := chipPath
        consumer := consumer
        offsets := lines
        levels := levels
        activeLow := flags &&& 1 != 0
        output := flags &&& 2 != 0
        levels_length := length_of_checkValues h }

/-- Reads the fields of a request. -/
def read : Wire.Reader LineSpec := do
  let chipPath ← Wire.Reader.fieldText .chipPath
  let consumer ← Wire.Reader.fieldText .consumer
  let count ← Wire.Reader.word
  if maxLines < count.toNat then Wire.Reader.refuse (.tooManyLines count.toNat)
  else do
    let offsets ← Wire.Reader.words maxLines
    let values ← Wire.Reader.bytes maxLines
    let flags ← Wire.Reader.byte
    if flags &&& 0xFC != 0 then Wire.Reader.refuse (.invalidFlags flags)
    else
      Wire.Reader.ofExcept
        (ofParts chipPath consumer (offsets.take count.toNat) (values.take count.toNat) flags)

theorem offsetSlots_length (spec : LineSpec) : spec.offsetSlots.length = maxLines := by
  have := spec.offsets.atMost
  simp only [offsetSlots, List.length_append, List.length_replicate]
  omega

theorem valueSlots_length (spec : LineSpec) : spec.valueSlots.length = maxLines := by
  have := spec.offsets.atMost
  simp only [valueSlots, List.length_append, List.length_replicate, values_length]
  omega

theorem length_flatMap_encodeWord (ws : List UInt32) :
    (ws.flatMap Wire.encodeWord).length = 4 * ws.length := by
  induction ws with
  | nil => rfl
  | cons w ws ih => simp only [List.flatMap_cons, List.length_append, ih,
      Wire.encodeWord_length, List.length_cons]; omega

theorem fields_length (spec : LineSpec) : spec.fields.flatten.length = 485 := by
  simp only [fields, List.length_flatten, List.map_cons, List.map_nil, List.sum_cons,
    List.sum_nil, FieldText.padded_length, Wire.encodeWord_length, length_flatMap_encodeWord,
    offsetSlots_length, valueSlots_length, List.length_cons, List.length_nil]
  rfl

end LineSpec

namespace Kind

/-- Significant bytes of a message of this kind: its tag and its fields. -/
def bodySize : Kind → Nat
  | .request => 489
  | .reqOk => 36
  | .release => 36
  | .error => 8
  | _ => 4

end Kind

namespace Message

/-- The fields of a message, in order. -/
def fields : Message → List (List UInt8)
  | .ok => []
  | .ping => []
  | .stop => []
  | .error errno => [Wire.encodeWord errno.toUInt32]
  | .request spec => spec.fields
  | .reqOk id => [id.toField.padded]
  | .release id => [id.toField.padded]

/-- The significant bytes of a message: its tag and its fields. -/
def body (m : Message) : List UInt8 :=
  Wire.encodeWord m.kind.tag ++ m.fields.flatten

/-- The frame of a message. -/
def encode (m : Message) : List UInt8 :=
  m.body ++ List.replicate (frameSize - m.body.length) 0

/-- Reads the fields of a message of this kind. -/
def readFields : Kind → Wire.Reader Message
  | .ok => pure .ok
  | .ping => pure .ping
  | .stop => pure .stop
  | .error => do
      let w ← Wire.Reader.word
      pure (.error w.toInt32)
  | .request => do
      let spec ← LineSpec.read
      pure (.request spec)
  | .reqOk => do
      let id ← RequestId.read
      pure (.reqOk id)
  | .release => do
      let id ← RequestId.read
      pure (.release id)

/-- Reads a message from the front of a frame. -/
def read : Wire.Reader Message := do
  let tag ← Wire.Reader.word
  let kind ← Wire.Reader.ofExcept (Kind.ofTag tag)
  readFields kind

/-- Reads the message in a frame. Bytes after its fields mean nothing. -/
def decode (frame : List UInt8) : Except WireError Message :=
  if frame.length = frameSize then
    match read frame with
    | .ok (m, _) => .ok m
    | .error (.refused e) => .error e
    | .error .overrun => .error (.truncated frame.length)
  else .error (.truncated frame.length)

theorem body_length (m : Message) : m.body.length = m.kind.bodySize := by
  cases m <;>
    simp [body, fields, kind, Kind.bodySize, LineSpec.fields_length, FieldText.padded_length,
      Field.width, - List.length_flatten]

theorem body_length_le (m : Message) : m.body.length ≤ frameSize := by
  rw [body_length]
  cases m.kind <;> decide

theorem encode_length (m : Message) : m.encode.length = frameSize := by
  have := m.body_length_le
  simp only [encode, List.length_append, List.length_replicate]
  omega

theorem decode_of_length_ne {frame : List UInt8} (h : frame.length ≠ frameSize) :
    decode frame = .error (.truncated frame.length) := by
  simp [decode, h]

end Message
end LineKeeper
