import LineKeeper.Proofs.FrameLayout

/-!
# Which bytes of a frame decide the message

The bytes of a frame that carry meaning are the tag, and then, for a request, both
texts, the count, as many offsets and values as the count says, and the flags; for
an error its number; and for the others the identifier or nothing. All other bytes
are ignored.

**Results.**
* `decode_eq_ok_iff_keepAt`: a frame is read as a message exactly if its
  significant bytes are those of the message as it is written.
* `decode_significantBytes`: what follows for a frame that was read, together with
  the limits that the message keeps.
-/

namespace LineKeeper
namespace Chunk

/-- Does the byte at a position belong to a chunk, and not to the spare bytes behind one? -/
def covers : List Chunk → Nat → Bool
  | [], _ => false
  | c :: cs, i =>
      if i < c.bytes.length then true
      else if i < c.bytes.length + c.spare then false
      else covers cs (i - (c.bytes.length + c.spare))

/-- Sets all bytes to zero but those at the positions `p`. -/
def keepAt (p : Nat → Bool) (frame : List UInt8) : List UInt8 :=
  frame.mapIdx fun i b => if p i then b else 0

theorem keepAt_append (p : Nat → Bool) (xs ys : List UInt8) :
    keepAt p (xs ++ ys) = keepAt p xs ++ keepAt (fun i => p (i + xs.length)) ys := by
  rw [keepAt, List.mapIdx_append]
  rfl

theorem getElem?_keepAt (p : Nat → Bool) (frame : List UInt8) (i : Nat) :
    (keepAt p frame)[i]? = frame[i]?.map fun b => if p i then b else 0 := by
  rw [keepAt, List.getElem?_mapIdx]

theorem keepAt_of_true {p : Nat → Bool} {xs : List UInt8}
    (h : ∀ i, i < xs.length → p i = true) : keepAt p xs = xs := by
  apply List.ext_getElem?
  intro i
  rw [getElem?_keepAt]
  by_cases hi : i < xs.length
  · simp [h i hi]
  · rw [List.getElem?_eq_none (Nat.le_of_not_lt hi), Option.map_none]

theorem keepAt_of_false {p : Nat → Bool} {xs : List UInt8}
    (h : ∀ i, i < xs.length → p i = false) : keepAt p xs = List.replicate xs.length 0 := by
  apply List.ext_getElem?
  intro i
  rw [getElem?_keepAt, List.getElem?_replicate]
  by_cases hi : i < xs.length
  · simp [h i hi, hi]
  · rw [List.getElem?_eq_none (Nat.le_of_not_lt hi), Option.map_none, if_neg hi]

/-- Two frames agree at the positions `p` exactly if nothing else tells them apart when all other
bytes are zeros. -/
theorem keepAt_eq_keepAt_iff {p : Nat → Bool} {xs ys : List UInt8} (hlen : xs.length = ys.length) :
    keepAt p xs = keepAt p ys ↔ ∀ i, p i = true → xs[i]? = ys[i]? := by
  constructor
  · intro h i hi
    have := congrArg (·[i]?) h
    simpa only [getElem?_keepAt, hi, if_true, Option.map_id'] using this
  · intro h
    apply List.ext_getElem?
    intro i
    rw [getElem?_keepAt, getElem?_keepAt]
    cases hi : p i with
    | true => rw [h i hi]
    | false =>
        by_cases hx : i < xs.length
        · simp [hx, hlen ▸ hx]
        · rw [List.getElem?_eq_none (Nat.le_of_not_lt hx),
            List.getElem?_eq_none (Nat.le_of_not_lt (hlen ▸ hx))]

/-- Over the first chunk and its spare bytes, what is kept is what stands in the chunk. -/
theorem keepAt_covers_cons {c : Chunk} {cs : List Chunk} {xs spare rest : List UInt8}
    (hxs : xs.length = c.bytes.length) (hspare : spare.length = c.spare) :
    keepAt (covers (c :: cs)) (xs ++ (spare ++ rest)) =
      xs ++ (List.replicate c.spare 0 ++ keepAt (covers cs) rest) := by
  have hfirst : keepAt (covers (c :: cs)) xs = xs := by
    apply keepAt_of_true
    intro i hi
    rw [covers, if_pos (by omega)]
  have hsecond : keepAt (fun i => covers (c :: cs) (i + xs.length)) spare =
      List.replicate c.spare 0 := by
    rw [keepAt_of_false, hspare]
    intro i hi
    rw [covers, if_neg (by omega), if_pos (by omega)]
  have hthird : (fun i => covers (c :: cs) (i + spare.length + xs.length)) = covers cs := by
    funext i
    rw [covers, if_neg (by omega), if_neg (by omega)]
    congr 1
    omega
  rw [keepAt_append, keepAt_append, hfirst, hsecond, hthird]

/-- A frame consists of chunks exactly if they stand where they belong. -/
theorem fits_iff_keepAt {cs : List Chunk} {frame : List UInt8} :
    Fits cs frame ↔ frame.length = size cs ∧ keepAt (covers cs) frame = blank cs := by
  induction cs generalizing frame with
  | nil =>
      constructor
      · intro h
        cases h
        exact ⟨rfl, rfl⟩
      · rintro ⟨hlen, _⟩
        cases List.eq_nil_of_length_eq_zero hlen
        exact .nil
  | cons c cs ih =>
      have hblank : blank (c :: cs) = c.bytes ++ (List.replicate c.spare 0 ++ blank cs) := by
        rw [blank, List.flatMap_cons, List.append_assoc]
        rfl
      constructor
      · intro h
        refine ⟨h.length_eq, ?_⟩
        cases h with
        | cons hspare hfits => rw [keepAt_covers_cons rfl hspare, (ih.mp hfits).2, hblank]
      · rintro ⟨hlen, hkeep⟩
        rw [size_cons] at hlen
        -- cut the frame where the first chunk and its spare bytes end
        obtain ⟨xs, spare, rest, hxs, hspare, rfl⟩ : ∃ xs spare rest : List UInt8,
            xs.length = c.bytes.length ∧ spare.length = c.spare ∧
              frame = xs ++ (spare ++ rest) := by
          refine ⟨frame.take c.bytes.length, (frame.drop c.bytes.length).take c.spare,
            (frame.drop c.bytes.length).drop c.spare, ?_, ?_, ?_⟩
          · rw [List.length_take]
            omega
          · rw [List.length_take, List.length_drop]
            omega
          · rw [List.take_append_drop, List.take_append_drop]
        rw [keepAt_covers_cons hxs hspare, hblank] at hkeep
        obtain ⟨rfl, hrest⟩ := List.append_inj hkeep hxs
        have htail : keepAt (covers cs) rest = blank cs := List.append_cancel_left hrest
        simp only [List.length_append] at hlen
        exact .cons hspare (ih.mpr ⟨by omega, htail⟩)

end Chunk

namespace Message

/-- Does the byte at position `i` of the frame of a message carry meaning? In a request the slots
for offsets begin at byte 168 and those for values at byte 424, and the flags are the last byte. -/
def isSignificant : Message → Nat → Bool
  | .request spec, i =>
      decide (i < 168 + 4 * spec.offsets.list.length) ||
        (decide (424 ≤ i) && decide (i < 424 + spec.offsets.list.length)) || decide (i = 488)
  | m, i => decide (i < m.kind.bodySize)

/-- The significant bytes are those that the chunks cover. -/
theorem covers_chunks (m : Message) : Chunk.covers m.chunks = m.isSignificant := by
  funext i
  cases m with
  | request spec =>
      have := spec.offsets.atMost
      simp only [chunks, LineSpec.chunks, Chunk.covers, isSignificant, FieldText.padded_length,
        Wire.encodeWord_length, LineSpec.length_flatMap_encodeWord, LineSpec.values_length,
        List.length_cons, List.length_nil, Field.width, maxLines, Nat.add_zero] at *
      rw [Bool.eq_iff_iff]
      simp only [Bool.or_eq_true, Bool.and_eq_true, decide_eq_true_eq]
      split_ifs
      all_goals simp only [true_iff, false_iff]
      all_goals omega
  | _ =>
      simp only [chunks, Chunk.covers, isSignificant, body_length, ite_self]
      split_ifs with hi
      · exact (decide_eq_true hi).symm
      · exact (decide_eq_false hi).symm

/-- **Significant bytes.** A frame is read as a message exactly if it is the frame of that message
up to bytes that carry no meaning. -/
theorem decode_eq_ok_iff_keepAt {frame : List UInt8} {m : Message} :
    decode frame = .ok m ↔
      frame.length = frameSize ∧ Chunk.keepAt m.isSignificant frame = m.encode := by
  rw [decode_eq_ok_iff, Chunk.fits_iff_keepAt, size_chunks, covers_chunks, encode_eq_blank]

end Message

section Limits

/-- The limits on a text: it takes no more bytes than its field has, it holds no NUL, and the bytes
are its UTF-8 form. -/
structure FieldText.WithinLimits {f : Field} (t : FieldText f) : Prop where
  fits : t.bytes.length ≤ f.width
  nul_free : (0 : UInt8) ∉ t.bytes
  utf8 : Text.Utf8.decode? t.bytes = some t.text

/-- The limits on an identifier: one to 32 visible ASCII characters. -/
structure RequestId.WithinLimits (id : RequestId) : Prop where
  atLeast : 1 ≤ id.bytes.length
  atMost : id.bytes.length ≤ 32
  graphic : ∀ b ∈ id.bytes, 0x21 ≤ b ∧ b ≤ 0x7E

/-- The limits on a request: one to 64 lines, none twice, and a value of zero or one for each. -/
structure LineSpec.WithinLimits (spec : LineSpec) : Prop where
  chipPath : spec.chipPath.WithinLimits
  consumer : spec.consumer.WithinLimits
  atLeast : 1 ≤ spec.offsets.list.length
  atMost : spec.offsets.list.length ≤ 64
  distinct : spec.offsets.list.Nodup
  values_length : spec.values.length = spec.offsets.list.length
  values_bit : ∀ v ∈ spec.values, v = 0 ∨ v = 1

/-- The limits on what a message carries. -/
def Message.WithinLimits : Message → Prop
  | .request spec => spec.WithinLimits
  | .reqOk id => id.WithinLimits
  | .release id => id.WithinLimits
  | _ => True

theorem FieldText.withinLimits {f : Field} (t : FieldText f) : t.WithinLimits :=
  ⟨t.fits, t.nul_free, Text.Utf8.decode?_encode t.text⟩

theorem RequestId.withinLimits (id : RequestId) : id.WithinLimits where
  atLeast := List.length_pos_iff.mpr id.nonempty
  atMost := id.fits
  graphic := by
    intro b hb
    have := List.all_eq_true.mp id.graphic b hb
    simpa [isGraphic] using this

theorem LineSpec.withinLimits (spec : LineSpec) : spec.WithinLimits where
  chipPath := spec.chipPath.withinLimits
  consumer := spec.consumer.withinLimits
  atLeast := List.length_pos_iff.mpr spec.offsets.nonempty
  atMost := spec.offsets.atMost
  distinct := spec.offsets.nodup
  values_length := spec.values_length
  values_bit := by
    intro v hv
    obtain ⟨level, _, rfl⟩ := List.mem_map.mp hv
    cases level
    · exact .inl rfl
    · exact .inr rfl

theorem Message.withinLimits (m : Message) : m.WithinLimits := by
  cases m with
  | request spec => exact spec.withinLimits
  | reqOk id => exact id.withinLimits
  | release id => exact id.withinLimits
  | _ => trivial

end Limits

namespace Message

/-- **What a frame that was read says.** Written again, the message is the frame with every other
byte set to zero; the message is within its limits; and exactly the frames that agree on the
significant bytes are read as the same message. -/
theorem decode_significantBytes {frame : List UInt8} {m : Message} (h : decode frame = .ok m) :
    m.encode = Chunk.keepAt m.isSignificant frame ∧ m.WithinLimits ∧
      ∀ other : List UInt8, decode other = .ok m ↔
        other.length = frameSize ∧ ∀ i, m.isSignificant i = true → other[i]? = frame[i]? := by
  obtain ⟨hlen, hkeep⟩ := decode_eq_ok_iff_keepAt.mp h
  refine ⟨hkeep.symm, m.withinLimits, fun other => ?_⟩
  rw [decode_eq_ok_iff_keepAt, ← hkeep]
  constructor
  · rintro ⟨hother, hsame⟩
    exact ⟨hother, (Chunk.keepAt_eq_keepAt_iff (hother.trans hlen.symm)).mp hsame⟩
  · rintro ⟨hother, hagree⟩
    exact ⟨hother, (Chunk.keepAt_eq_keepAt_iff (hother.trans hlen.symm)).mpr hagree⟩

/-- Two outputs, active when low, without a label; one of the offsets is the largest word. -/
def twoOutputs : LineSpec where
  chipPath := ⟨"/dev/gpioé", by decide, by decide⟩
  consumer := FieldText.empty
  offsets := ⟨[7, 4294967295], by decide, by decide, by decide⟩
  levels := [true, false]
  activeLow := true
  output := true
  levels_length := rfl

/-- A frame of `twoOutputs` in which the slots that are not used do not hold zeros. -/
def untidyFrame : List UInt8 :=
  [0, 0, 0, 4] ++ twoOutputs.chipPath.padded ++ List.replicate 32 0 ++ [0, 0, 0, 2] ++
    [0, 0, 0, 7, 255, 255, 255, 255] ++ List.replicate 248 9 ++ [1, 0] ++ List.replicate 62 200 ++ [3]

theorem decode_untidyFrame :
    decode untidyFrame = .ok (.request twoOutputs) ∧
      (Message.request twoOutputs).encode =
          Chunk.keepAt (Message.request twoOutputs).isSignificant untidyFrame ∧
        (Message.request twoOutputs).WithinLimits ∧
        ∀ other : List UInt8, decode other = .ok (.request twoOutputs) ↔
          other.length = frameSize ∧
            ∀ i, (Message.request twoOutputs).isSignificant i = true →
              other[i]? = untidyFrame[i]? := by
  have hread : decode untidyFrame = .ok (.request twoOutputs) := by decide +kernel
  exact ⟨hread, decode_significantBytes hread⟩

end Message
end LineKeeper
