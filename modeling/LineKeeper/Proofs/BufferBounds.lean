import LineKeeper.Proofs.Cursors

/-!
# Frames stay inside their buffers

`Message.writeFrame` puts a message into a buffer of `frameSize` zeros, field by field, and
`Message.scanFrame` takes the message out of bytes that somebody else made.  Neither asks whether
there is room for a field or whether a text is longer than its field, and slots are cut off by a
count that stands in the bytes.  That this never goes wrong is what the bounds in the types of the
messages, the size of a frame and the check of the count are for.

**Results.**
* `LineSpec.writes_write`, `Message.writes_write`: what is written is the body of the message.
* `Message.scans_scan`: what is scanned are the fields where they stand.
* `Message.stays_in_bounds`: no message and no bytes lead outside a buffer or below zero, and
  both do what `Message.encode` and `Message.decode` do.
-/

namespace LineKeeper

open Wire

section Writing

open Wire.Writer

namespace LineSpec

/-- Puts the fields of a request, slot by slot. -/
def write (spec : LineSpec) : Writer Unit := do
  text spec.chipPath.bytes Field.chipPath.width
  text spec.consumer.bytes Field.consumer.width
  word spec.count
  (List.range maxLines).forM fun slot => word (spec.offsets.list.getD slot 0)
  (List.range maxLines).forM fun slot => byte (spec.values.getD slot 0)
  byte spec.flags

/-- Slots are filled from a list, and with a default once the list has ended. -/
theorem map_getD_range {α : Type} (xs : List α) (d : α) {n : Nat} (h : xs.length ≤ n) :
    (List.range n).map (fun slot => xs.getD slot d) =
      xs ++ List.replicate (n - xs.length) d := by
  apply List.ext_getElem
  · rw [List.length_map, List.length_range, List.length_append, List.length_replicate]
    omega
  · intro slot hslot _
    rw [List.getElem_map, List.getElem_range, List.getElem_append]
    split
    · next hin => exact (List.getElem_eq_getD d).symm
    · next hout =>
      rw [List.getElem_replicate, List.getD_eq_getElem?_getD, List.getElem?_eq_none (by omega),
        Option.getD_none]

theorem writes_offsets (spec : LineSpec) :
    Writes ((List.range maxLines).forM fun slot => word (spec.offsets.list.getD slot 0))
      (spec.offsetSlots.flatMap encodeWord) := by
  rw [offsetSlots, ← map_getD_range _ _ spec.offsets.atMost, List.flatMap_map]
  exact writes_forM (fun slot => writes_word _) _

theorem writes_values (spec : LineSpec) :
    Writes ((List.range maxLines).forM fun slot => byte (spec.values.getD slot 0))
      spec.valueSlots := by
  have hfew : spec.values.length ≤ maxLines := by
    rw [values_length]
    exact spec.offsets.atMost
  have hslots : spec.valueSlots =
      (List.range maxLines).flatMap fun slot => [spec.values.getD slot 0] := by
    rw [valueSlots, ← map_getD_range _ _ hfew, List.map_eq_flatMap]
  rw [hslots]
  exact writes_forM (fun slot => writes_byte _) _

theorem writes_write (spec : LineSpec) : Writes spec.write spec.fields.flatten := by
  have hbytes : spec.fields.flatten = spec.chipPath.padded ++ (spec.consumer.padded ++
      (encodeWord spec.count ++ (spec.offsetSlots.flatMap encodeWord ++
        (spec.valueSlots ++ [spec.flags])))) := by
    simp only [fields, List.flatten_cons, List.flatten_nil, List.append_nil]
  rw [hbytes]
  exact (writes_text spec.chipPath).bind <| (writes_text spec.consumer).bind <|
    (writes_word spec.count).bind <| spec.writes_offsets.bind <| spec.writes_values.bind <|
    writes_byte spec.flags

end LineSpec

namespace Message

/-- Puts a message, tag first. -/
def write (m : Message) : Writer Unit := do
  word m.kind.tag
  match m with
  | .ok => pure ()
  | .ping => pure ()
  | .stop => pure ()
  | .error errno => bytes (encodeWord errno.toUInt32)
  | .request spec => spec.write
  | .reqOk id => text id.bytes Field.requestId.width
  | .release id => text id.bytes Field.requestId.width

/-- Puts a message into a buffer of zeros. -/
def writeFrame (m : Message) : Except Misuse Cursor := do
  let (_, c) ← m.write ⟨List.replicate frameSize 0, 0⟩
  return c

theorem writes_write (m : Message) : Writes m.write m.body := by
  refine (writes_word m.kind.tag).bind ?_
  cases m with
  | ok => exact writes_pure
  | ping => exact writes_pure
  | stop => exact writes_pure
  | error errno =>
      rw [fields, List.flatten_singleton]
      exact writes_bytes _
  | request spec => exact spec.writes_write
  | reqOk id =>
      rw [fields, List.flatten_singleton]
      exact writes_text id.toField
  | release id =>
      rw [fields, List.flatten_singleton]
      exact writes_text id.toField

/-- **Writing.** A message fills its frame up to the end of its fields. -/
theorem writeFrame_eq (m : Message) : m.writeFrame = .ok ⟨m.encode, m.kind.bodySize⟩ := by
  -- nothing was written before, and there is room for the whole frame
  have hwrite := m.writes_write [] frameSize m.body_length_le
  rw [List.nil_append, List.nil_append, List.length_nil, ← encode, body_length] at hwrite
  rw [writeFrame, hwrite]
  rfl

end Message

end Writing

section Scanning

open Wire.Scanner

/-- Takes the fields of a request. The slots that count are cut off from the others. -/
def LineSpec.scan : Scanner LineSpec := do
  let chipPath ← text .chipPath
  let consumer ← text .consumer
  let count ← word
  if maxLines < count.toNat then checked (.error (.tooManyLines count.toNat))
  else do
    let offsets ← times word maxLines
    let values ← times byte maxLines
    let flags ← byte
    if flags &&& 0xFC != 0 then checked (.error (.invalidFlags flags))
    else do
      let offsets ← sliced (window offsets 0 count.toNat)
      let values ← sliced (window values 0 count.toNat)
      checked (LineSpec.ofParts chipPath consumer offsets values flags)

/-- Takes an identifier. -/
def RequestId.scan : Scanner RequestId := do
  let t ← Scanner.text .requestId
  checked (RequestId.ofString t.text)

namespace Message

/-- Takes the fields of a message of this kind. -/
def scanFields : Kind → Scanner Message
  | .ok => pure .ok
  | .ping => pure .ping
  | .stop => pure .stop
  | .error => do
      let w ← word
      pure (.error w.toInt32)
  | .request => do
      let spec ← LineSpec.scan
      pure (.request spec)
  | .reqOk => do
      let id ← RequestId.scan
      pure (.reqOk id)
  | .release => do
      let id ← RequestId.scan
      pure (.release id)

/-- Takes a message, tag first. -/
def scan : Scanner Message := do
  let tag ← word
  let kind ← checked (Kind.ofTag tag)
  scanFields kind

/-- Takes the message out of a buffer that somebody else filled. -/
def scanFrame (frame : List UInt8) : Except Halt Message :=
  if frame.length = frameSize then do
    let (m, _) ← scan ⟨frame, 0⟩
    return m
  else .error (.refused (.truncated frame.length))

end Message

variable {frame : List UInt8}

/-- A count that was checked cuts no more slots off than there are. -/
theorem scans_slots {α : Type} {i count : Nat} (f : Nat → α) (h : count ≤ maxLines) :
    Scans frame (sliced (window ((List.range maxLines).map f) 0 count)) i i
      (.ok ((List.range count).map f)) := by
  rw [← take_map_range f h]
  exact scans_sliced (Nat.zero_le count) (by rwa [List.length_map, List.length_range])

/-- The fields of a request are scanned where they are checked. -/
theorem LineSpec.scans_scan (h : frame.length = frameSize) :
    Scans frame LineSpec.scan 4 489 (LineSpec.check frame) := by
  have hlen : frame.length = 489 := h
  have hchip : Scans frame (text .chipPath) 4 132 _ := scans_text (by rw [hlen]; decide)
  have hlabel : Scans frame (text .consumer) 132 164 _ := scans_text (by rw [hlen]; decide)
  have hcount : Scans frame word 164 168 _ := scans_word (by omega)
  have hwords : Scans frame (times word maxLines) 168 424 _ := scans_words (by rw [hlen]; decide)
  have hbytes : Scans frame (times byte maxLines) 424 488 _ := scans_bytes (by rw [hlen]; decide)
  have hflags : Scans frame byte 488 489 _ := scans_byte (by omega)
  refine hchip.bind fun chipPath => hlabel.bind fun consumer => hcount.next <|
    Yields.ite (fun _ => scans_refused _) fun hfew => hwords.next <| hbytes.next <|
    hflags.next <| Yields.ite (fun _ => scans_refused _) fun _ => ?_
  -- the slots are cut off only behind the check of the count
  have hcount : countAt frame ≤ maxLines := Nat.not_lt.mp hfew
  exact (scans_slots _ hcount).next <| (scans_slots _ hcount).next <| scans_checked _

theorem RequestId.scans_scan (h : frame.length = frameSize) :
    Scans frame RequestId.scan 4 36 (RequestId.check frame) := by
  have hlen : frame.length = 489 := h
  have hfield : Scans frame (Scanner.text .requestId) 4 36 _ := scans_text (by rw [hlen]; decide)
  exact hfield.bind fun t => scans_checked _

namespace Message

theorem scans_scanFields (h : frame.length = frameSize) (kind : Kind) :
    Scans frame (scanFields kind) 4 kind.bodySize (checkFields frame kind) := by
  have hlen : frame.length = 489 := h
  cases kind with
  | ok => exact scans_pure _
  | ping => exact scans_pure _
  | stop => exact scans_pure _
  | error =>
      have hword : Scans frame word 4 8 _ := scans_word (by omega)
      exact hword.next (scans_pure _)
  | request => exact (LineSpec.scans_scan h).bind fun spec => scans_pure _
  | reqOk => exact (RequestId.scans_scan h).bind fun id => scans_pure _
  | release => exact (RequestId.scans_scan h).bind fun id => scans_pure _

theorem scans_scan (h : frame.length = frameSize) :
    ∃ j, Scans frame scan 0 j (check frame) := by
  have htag : Scans frame word 0 4 (.ok (tagAt frame)) := scans_word (by rw [h]; decide)
  obtain ⟨j, hfields⟩ := (scans_checked (Kind.ofTag (tagAt frame))).bind_exists
    (p := Cursor.mk frame) (scans_scanFields h)
  exact ⟨j, htag.next hfields⟩

/-- **Scanning.** Whatever the bytes are, they are read as a message or break a rule. -/
theorem scanFrame_eq (frame : List UInt8) : scanFrame frame = (decode frame).mapError .refused := by
  by_cases h : frame.length = frameSize
  · obtain ⟨j, hscan⟩ := scans_scan h
    rw [scanFrame, if_pos h, decode_eq_check h, hscan]
    cases check frame <;> rfl
  · rw [scanFrame, if_neg h, decode_of_length_ne h]
    rfl

end Message

end Scanning

/-- **Bounds.** Every message is written into its buffer without leaving it, up to the end of the
fields of its kind. Whatever a buffer holds and however long it is, it is scanned without leaving
it, and with the outcome that decoding has. -/
theorem Message.stays_in_bounds :
    (∀ m : Message, m.writeFrame = .ok ⟨m.encode, m.kind.bodySize⟩) ∧
      (∀ (frame : List UInt8) (u : Misuse), scanFrame frame ≠ .error (.misuse u)) ∧
      ∀ frame : List UInt8, scanFrame frame = (decode frame).mapError .refused := by
  refine ⟨writeFrame_eq, fun frame u hmisuse => ?_, scanFrame_eq⟩
  rw [scanFrame_eq] at hmisuse
  cases hdecode : decode frame with
  | ok m => rw [hdecode] at hmisuse; cases hmisuse
  | error e => rw [hdecode] at hmisuse; cases hmisuse

end LineKeeper
