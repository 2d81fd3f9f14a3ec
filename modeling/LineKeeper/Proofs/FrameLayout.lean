import LineKeeper.Proofs.Readers
import Mathlib.Algebra.GroupWithZero.Nat
import Mathlib.Data.List.Basic

/-!
# Which frames hold a message

The frame of a message is a row of chunks: bytes that carry meaning, each followed
by a number of spare bytes that carry none. Those of a request depend on its count
of lines, because slots that are not used are spare.

**Results.**
* `decode_eq_ok_iff`: a frame is read as a message exactly if it consists of the
  chunks of that message, whatever the spare bytes are.
* `decode_encode`: writing fills the spare bytes with zeros, so what was written
  is read back, and no two messages are written alike.
-/

namespace LineKeeper

/-- Bytes that carry meaning, and the number of bytes behind them that carry none. -/
structure Chunk where
  bytes : List UInt8
  spare : Nat
deriving DecidableEq, Repr

namespace Chunk

/-- The frame consists of the chunks in order; their spare bytes may be any. -/
inductive Fits : List Chunk → List UInt8 → Prop
  | nil : Fits [] []
  | cons {c : Chunk} {cs : List Chunk} {spare frame : List UInt8} :
      spare.length = c.spare →
      Fits cs frame →
      Fits (c :: cs) (c.bytes ++ (spare ++ frame))

/-- The frame of the chunks whose spare bytes are zeros. -/
def blank (cs : List Chunk) : List UInt8 :=
  cs.flatMap fun c => c.bytes ++ List.replicate c.spare 0

/-- The number of bytes that the chunks take. -/
def size (cs : List Chunk) : Nat :=
  (cs.map fun c => c.bytes.length + c.spare).sum

@[simp] theorem size_nil : size [] = 0 := rfl

@[simp] theorem size_cons (c : Chunk) (cs : List Chunk) :
    size (c :: cs) = c.bytes.length + c.spare + size cs := rfl

theorem fits_blank (cs : List Chunk) : Fits cs (blank cs) := by
  induction cs with
  | nil => exact .nil
  | cons c cs ih =>
      rw [blank, List.flatMap_cons, List.append_assoc]
      exact .cons (List.length_replicate) ih

theorem Fits.length_eq {cs : List Chunk} {frame : List UInt8} (h : Fits cs frame) :
    frame.length = size cs := by
  induction h with
  | nil => rfl
  | cons hspare _ ih =>
      rw [List.length_append, List.length_append, hspare, ih, size_cons]
      omega

/-- A last chunk leaves open what follows it. -/
theorem fits_singleton {c : Chunk} {frame : List UInt8} :
    Fits [c] frame ↔ ∃ spare, spare.length = c.spare ∧ frame = c.bytes ++ spare := by
  constructor
  · intro h
    cases h with
    | cons hspare hrest =>
      cases hrest
      exact ⟨_, hspare, by rw [List.append_nil]⟩
  · rintro ⟨spare, hspare, rfl⟩
    have h := Fits.cons hspare .nil
    rwa [List.append_nil] at h

/-- A chunk without spare bytes stands right before the next one. -/
theorem fits_cons_of_spare_zero {bytes : List UInt8} {cs : List Chunk} {frame : List UInt8} :
    Fits (⟨bytes, 0⟩ :: cs) frame ↔ ∃ rest, Fits cs rest ∧ frame = bytes ++ rest := by
  constructor
  · intro h
    cases h with
    | @cons _ _ spare rest hspare hrest =>
      cases List.eq_nil_of_length_eq_zero hspare
      exact ⟨rest, hrest, rfl⟩
  · rintro ⟨rest, hrest, rfl⟩
    exact @Fits.cons ⟨bytes, 0⟩ cs [] rest rfl hrest

end Chunk

namespace LineSpec

open Wire.Reader

/-- A byte without meaningless bits is one of the four bytes of flags. -/
theorem cases_of_and_eq_zero {b : UInt8} (h : b &&& 0xFC = 0) :
    b = 0 ∨ b = 1 ∨ b = 2 ∨ b = 3 := by
  have hall : ∀ n : Fin 256, UInt8.ofNat n.val &&& 0xFC = 0 →
      UInt8.ofNat n.val = 0 ∨ UInt8.ofNat n.val = 1 ∨ UInt8.ofNat n.val = 2 ∨
        UInt8.ofNat n.val = 3 := by
    decide +kernel
  have := hall ⟨b.toNat, b.toNat_lt⟩
  simp only [UInt8.ofNat_toNat] at this
  exact this h

/-- A byte of flags stands for the two settings that are read from it, and for no others. -/
theorem flags_eq_iff {spec : LineSpec} {b : UInt8} :
    spec.flags = b ↔
      b &&& 0xFC = 0 ∧ spec.activeLow = (b &&& 1 != 0) ∧ spec.output = (b &&& 2 != 0) := by
  constructor
  · rintro rfl
    rw [flags]
    cases spec.activeLow <;> cases spec.output <;> decide
  · rintro ⟨hb, hlow, hout⟩
    rw [flags, hlow, hout]
    rcases cases_of_and_eq_zero hb with rfl | rfl | rfl | rfl <;> decide

/-- Bytes that fill whole slots are words. -/
theorem exists_words {n : Nat} {bs : List UInt8} (h : bs.length = 4 * n) :
    ∃ ws : List UInt32, ws.length = n ∧ bs = ws.flatMap Wire.encodeWord := by
  induction n generalizing bs with
  | zero => exact ⟨[], rfl, List.eq_nil_of_length_eq_zero h⟩
  | succ n ih =>
      match bs, h with
      | a :: b :: c :: d :: bs, h =>
        have htail : bs.length = 4 * n := by
          simp only [List.length_cons] at h
          omega
        obtain ⟨ws, hlen, rfl⟩ := ih htail
        refine ⟨Wire.wordOf a b c d :: ws, by rw [List.length_cons, hlen], ?_⟩
        rw [List.flatMap_cons, Wire.encodeWord_wordOf]
        rfl

/-- A request is made of exactly the parts that it is checked from. -/
theorem ofParts_eq_ok_iff {chipPath : FieldText .chipPath} {consumer : FieldText .consumer}
    {os : List UInt32} {vs : List UInt8} {b : UInt8} {spec : LineSpec} :
    ofParts chipPath consumer os vs b = .ok spec ↔
      spec.chipPath = chipPath ∧ spec.consumer = consumer ∧ spec.offsets.list = os ∧
        spec.values = vs ∧ spec.activeLow = (b &&& 1 != 0) ∧ spec.output = (b &&& 2 != 0) := by
  constructor
  · intro h
    simp only [ofParts, bind, Except.bind] at h
    split at h
    · cases h
    · next lines hlines =>
      split at h
      · cases h
      · next levels hlevels =>
        cases h
        exact ⟨rfl, rfl, Offsets.ofList_eq_ok_iff.mp hlines,
          (checkValues_eq_ok_iff.mp hlevels).2, rfl, rfl⟩
  · rintro ⟨rfl, rfl, rfl, rfl, hlow, hout⟩
    have hvalues : checkValues spec.offsets.list.length spec.values = .ok spec.levels :=
      checkValues_eq_ok_iff.mpr ⟨spec.levels_length, rfl⟩
    simp only [ofParts, bind, Except.bind, Offsets.ofList_list]
    split
    · next e he => rw [hvalues] at he; cases he
    · next levels hlevels =>
      rw [hvalues] at hlevels
      cases hlevels
      rw [← hlow, ← hout]

/-- The chunks of the fields of a request: slots beyond the count are spare. -/
def chunks (spec : LineSpec) : List Chunk :=
  let unused := maxLines - spec.offsets.list.length
  [⟨spec.chipPath.padded, 0⟩, ⟨spec.consumer.padded, 0⟩, ⟨Wire.encodeWord spec.count, 0⟩,
    ⟨spec.offsets.list.flatMap Wire.encodeWord, 4 * unused⟩, ⟨spec.values, unused⟩,
    ⟨[spec.flags], 0⟩]

theorem size_chunks (spec : LineSpec) : Chunk.size spec.chunks = 485 := by
  have := spec.offsets.atMost
  simp only [chunks, Chunk.size_cons, Chunk.size_nil, FieldText.padded_length,
    Wire.encodeWord_length, length_flatMap_encodeWord, values_length, List.length_cons,
    List.length_nil, Field.width, maxLines] at *
  omega

/-- The count of a request is the number of its lines. -/
theorem count_toNat (spec : LineSpec) : spec.count.toNat = spec.offsets.list.length := by
  have := spec.offsets.atMost
  simp only [count, UInt32.toNat_ofNat', maxLines] at *
  omega

theorem flatMap_replicate_zero (n : Nat) :
    (List.replicate n 0).flatMap Wire.encodeWord = List.replicate (4 * n) 0 := by
  induction n with
  | zero => rfl
  | succ n ih =>
      rw [List.replicate_succ, List.flatMap_cons, ih, Nat.mul_succ, Nat.add_comm (4 * n),
        List.replicate_add]
      rfl

/-- The fields of a request, with any words and bytes in the slots that are not used. -/
theorem fits_chunks_iff {spec : LineSpec} {front : List UInt8} :
    Chunk.Fits spec.chunks front ↔ ∃ spareWords spareBytes : List UInt8,
      spareWords.length = 4 * (maxLines - spec.offsets.list.length) ∧
      spareBytes.length = maxLines - spec.offsets.list.length ∧
      front = spec.chipPath.padded ++ (spec.consumer.padded ++ (Wire.encodeWord spec.count ++
        (spec.offsets.list.flatMap Wire.encodeWord ++ (spareWords ++
          (spec.values ++ (spareBytes ++ [spec.flags])))))) := by
  constructor
  · intro h
    obtain ⟨_, hconsumer, rfl⟩ := Chunk.fits_cons_of_spare_zero.mp h
    obtain ⟨_, hcount, rfl⟩ := Chunk.fits_cons_of_spare_zero.mp hconsumer
    obtain ⟨_, hoffsets, rfl⟩ := Chunk.fits_cons_of_spare_zero.mp hcount
    cases hoffsets with
    | @cons _ _ spareWords _ hspareWords hvalues =>
      cases hvalues with
      | @cons _ _ spareBytes _ hspareBytes hflags =>
        obtain ⟨_, hnil, rfl⟩ := Chunk.fits_cons_of_spare_zero.mp hflags
        cases hnil
        exact ⟨spareWords, spareBytes, hspareWords, hspareBytes, rfl⟩
  · rintro ⟨spareWords, spareBytes, hspareWords, hspareBytes, rfl⟩
    have hflags : Chunk.Fits [⟨[spec.flags], 0⟩] [spec.flags] :=
      Chunk.fits_cons_of_spare_zero.mpr ⟨[], .nil, rfl⟩
    have hvalues := @Chunk.Fits.cons ⟨spec.values, _⟩ _ _ _ hspareBytes hflags
    have hoffsets :=
      @Chunk.Fits.cons ⟨spec.offsets.list.flatMap Wire.encodeWord, _⟩ _ _ _ hspareWords hvalues
    exact Chunk.fits_cons_of_spare_zero.mpr ⟨_, Chunk.fits_cons_of_spare_zero.mpr ⟨_,
      Chunk.fits_cons_of_spare_zero.mpr ⟨_, hoffsets, rfl⟩, rfl⟩, rfl⟩

/-- When the first slots hold the offsets and the values of a request, the slots beyond the count
are spare. -/
theorem spare_of_slots {spec : LineSpec} {count : UInt32} {ws : List UInt32} {vs : List UInt8}
    (hws : ws.length = maxLines) (hvs : vs.length = maxLines) (hcount : ¬ maxLines < count.toNat)
    (hoffsets : spec.offsets.list = ws.take count.toNat)
    (hvalues : spec.values = vs.take count.toNat) :
    spec.count = count ∧ ∃ spareWords spareBytes : List UInt8,
      spareWords.length = 4 * (maxLines - spec.offsets.list.length) ∧
      spareBytes.length = maxLines - spec.offsets.list.length ∧
      spec.offsets.list.flatMap Wire.encodeWord ++ spareWords = ws.flatMap Wire.encodeWord ∧
      spec.values ++ spareBytes = vs := by
  have hlen : spec.offsets.list.length = count.toNat := by
    rw [hoffsets, List.length_take, hws]
    omega
  constructor
  · apply UInt32.toNat_inj.mp
    rw [count_toNat, hlen]
  · refine ⟨(ws.drop count.toNat).flatMap Wire.encodeWord, vs.drop count.toNat, ?_, ?_, ?_, ?_⟩
    · rw [length_flatMap_encodeWord, List.length_drop, hws, hlen]
    · rw [List.length_drop, hvs, hlen]
    · rw [hoffsets, ← List.flatMap_append, List.take_append_drop]
    · rw [hvalues, List.take_append_drop]

/-- The fields of a request lie in a frame as its chunks do. -/
theorem takes_read : Takes read fun spec front => Chunk.Fits spec.chunks front := by
  refine (takes_bind (takes_fieldText _) fun chipPath => takes_bind (takes_fieldText _) fun consumer =>
    takes_bind takes_word fun count => takes_ite (takes_refuse _) <|
    takes_bind (takes_words _) fun ws => takes_bind (takes_bytes _) fun vs =>
    takes_bind takes_byte fun b => takes_ite (takes_refuse _) (takes_ofExcept _)).congr
    fun spec front => ?_
  rw [fits_chunks_iff]
  constructor
  · rintro ⟨chipPath, _, _, rfl, ⟨consumer, _, _, rfl, ⟨count, _, _, rfl, hread, rfl⟩, rfl⟩, rfl⟩
    split at hread
    · exact hread.elim
    · next hcount =>
      obtain ⟨ws, _, _, ⟨hws, rfl⟩, ⟨_, vs, _, ⟨hvs, rfl⟩, ⟨b, _, _, rfl, hflags, rfl⟩, rfl⟩, rfl⟩ :=
        hread
      split at hflags
      · exact hflags.elim
      · next hb =>
        obtain ⟨hparts, rfl⟩ := hflags
        obtain ⟨rfl, rfl, hoffsets, hvalues, hlow, hout⟩ := ofParts_eq_ok_iff.mp hparts
        obtain ⟨rfl, spareWords, spareBytes, hspareWords, hspareBytes, hwords, hbytes⟩ :=
          spare_of_slots hws hvs hcount hoffsets hvalues
        obtain rfl : spec.flags = b := flags_eq_iff.mpr ⟨by simpa using hb, hlow, hout⟩
        refine ⟨spareWords, spareBytes, hspareWords, hspareBytes, ?_⟩
        rw [← List.append_assoc (spec.offsets.list.flatMap _), hwords,
          ← List.append_assoc spec.values, hbytes, List.append_nil]
  · rintro ⟨spareWords, spareBytes, hspareWords, hspareBytes, rfl⟩
    have hatMost := spec.offsets.atMost
    obtain ⟨ws, hws, rfl⟩ := exists_words hspareWords
    obtain ⟨hb, hlow, hout⟩ := flags_eq_iff.mp (rfl : spec.flags = spec.flags)
    have hcount : ¬ maxLines < spec.count.toNat := by
      rw [count_toNat]
      omega
    have hoffsets : (spec.offsets.list ++ ws).take spec.count.toNat = spec.offsets.list := by
      rw [count_toNat, List.take_left]
    have hvalues : (spec.values ++ spareBytes).take spec.count.toNat = spec.values := by
      rw [count_toNat, ← values_length, List.take_left]
    refine ⟨_, _, _, rfl, ⟨_, _, _, rfl, ⟨spec.count, _, _, rfl, ?_, rfl⟩, rfl⟩, rfl⟩
    rw [if_neg hcount]
    refine ⟨spec.offsets.list ++ ws, _, _, ⟨?_, rfl⟩, ⟨spec.values ++ spareBytes, _, _, ⟨?_, rfl⟩,
      ⟨spec.flags, _, [], rfl, ?_, rfl⟩, rfl⟩, ?_⟩
    · rw [List.length_append, hws]
      omega
    · rw [List.length_append, hspareBytes, values_length]
      omega
    · rw [if_neg (by simpa using hb), hoffsets, hvalues]
      exact ⟨ofParts_eq_ok_iff.mpr ⟨rfl, rfl, rfl, rfl, hlow, hout⟩, rfl⟩
    · rw [List.flatMap_append, List.append_assoc, List.append_assoc, List.append_nil]

end LineSpec

namespace Message

open Wire.Reader

/-- The chunks of the frame of a message. -/
def chunks : Message → List Chunk
  | .request spec => ⟨Wire.encodeWord Kind.request.tag, 0⟩ :: spec.chunks
  | m => [⟨m.body, frameSize - m.body.length⟩]

/-- What the fields of a message take of a frame. -/
def FieldsFit : Message → List UInt8 → Prop
  | .request spec, front => Chunk.Fits spec.chunks front
  | m, front => front = m.fields.flatten

theorem takes_readFields (kind : Kind) :
    Takes (readFields kind) fun m front => m.kind = kind ∧ m.FieldsFit front := by
  cases kind with
  | ok =>
      refine (takes_pure Message.ok).congr fun m front => ?_
      cases m <;> simp [Message.kind, FieldsFit, fields]
  | ping =>
      refine (takes_pure Message.ping).congr fun m front => ?_
      cases m <;> simp [Message.kind, FieldsFit, fields]
  | stop =>
      refine (takes_pure Message.stop).congr fun m front => ?_
      cases m <;> simp [Message.kind, FieldsFit, fields]
  | error =>
      refine (takes_map takes_word fun w => Message.error w.toInt32).congr fun m front => ?_
      constructor
      · rintro ⟨w, rfl, rfl⟩
        exact ⟨rfl, by simp [FieldsFit, fields]⟩
      · rintro ⟨hkind, hfields⟩
        cases m <;> simp only [Message.kind, reduceCtorEq] at hkind
        next errno => exact ⟨errno.toUInt32, rfl, by simpa [FieldsFit, fields] using hfields⟩
  | request =>
      refine (takes_map LineSpec.takes_read Message.request).congr fun m front => ?_
      cases m <;> simp [Message.kind, FieldsFit]
  | reqOk =>
      refine (takes_map takes_requestId Message.reqOk).congr fun m front => ?_
      cases m <;> simp [Message.kind, FieldsFit, fields]
  | release =>
      refine (takes_map takes_requestId Message.release).congr fun m front => ?_
      cases m <;> simp [Message.kind, FieldsFit, fields]

/-- A message takes its tag and its fields off a frame. -/
theorem takes_message :
    Takes read fun m front => ∃ fs, m.FieldsFit fs ∧ front = Wire.encodeWord m.kind.tag ++ fs := by
  refine (takes_bind takes_word fun tag => takes_bind (takes_ofExcept (Kind.ofTag tag)) fun kind =>
    takes_readFields kind).congr fun m front => ?_
  constructor
  · rintro ⟨tag, _, fs, rfl, ⟨kind, _, _, ⟨htag, rfl⟩, ⟨rfl, hfields⟩, rfl⟩, rfl⟩
    refine ⟨fs, hfields, ?_⟩
    rw [Kind.ofTag] at htag
    split at htag
    · next kind hkind =>
      cases htag
      rw [Kind.tag_of_ofTag? hkind]
    · cases htag
  · rintro ⟨fs, hfields, rfl⟩
    have htag : Kind.ofTag m.kind.tag = .ok m.kind := by
      rw [Kind.ofTag, Kind.ofTag?_tag]
    exact ⟨m.kind.tag, _, fs, rfl, ⟨m.kind, [], fs, ⟨htag, rfl⟩, ⟨rfl, hfields⟩, rfl⟩, rfl⟩

theorem size_chunks (m : Message) : Chunk.size m.chunks = frameSize := by
  have := m.body_length_le
  cases m with
  | request spec =>
      rw [chunks, Chunk.size_cons, LineSpec.size_chunks]
      rfl
  | _ =>
      show (body _).length + (frameSize - (body _).length) + 0 = frameSize
      omega

/-- In a frame of full length, the chunks are the tag, the fields, and whatever follows. -/
theorem fits_chunks_iff {m : Message} {frame : List UInt8} (hlen : frame.length = frameSize) :
    Chunk.Fits m.chunks frame ↔
      ∃ fs rest, m.FieldsFit fs ∧ frame = Wire.encodeWord m.kind.tag ++ fs ++ rest := by
  cases m with
  | request spec =>
      rw [chunks, Chunk.fits_cons_of_spare_zero]
      constructor
      · rintro ⟨fs, hfits, rfl⟩
        exact ⟨fs, [], hfits, (List.append_nil _).symm⟩
      · rintro ⟨fs, rest, hfits, rfl⟩
        have hfs := hfits.length_eq
        rw [LineSpec.size_chunks] at hfs
        have hrest : rest.length = 0 := by
          simp only [List.length_append, Wire.encodeWord_length, hfs, frameSize] at hlen
          omega
        cases List.eq_nil_of_length_eq_zero hrest
        exact ⟨fs, hfits, List.append_nil _⟩
  | _ =>
      show Chunk.Fits [⟨body _, frameSize - (body _).length⟩] frame ↔ _
      rw [Chunk.fits_singleton]
      constructor
      · rintro ⟨spare, _, rfl⟩
        exact ⟨_, spare, rfl, rfl⟩
      · rintro ⟨fs, rest, rfl, rfl⟩
        refine ⟨rest, ?_, rfl⟩
        show rest.length = frameSize - (body _).length
        rw [← hlen, body, List.length_append, Nat.add_sub_cancel_left]

/-- **Reading a frame.** A frame is read as a message exactly if it consists of the chunks of that
message; what stands in the spare bytes does not matter. -/
theorem decode_eq_ok_iff {frame : List UInt8} {m : Message} :
    decode frame = .ok m ↔ Chunk.Fits m.chunks frame := by
  constructor
  · intro h
    simp only [decode] at h
    split at h
    · next hlen =>
      split at h
      · next _ rest hread =>
        cases h
        obtain ⟨_, ⟨fs, hfields, rfl⟩, rfl⟩ := (takes_message frame m rest).mp hread
        exact (fits_chunks_iff hlen).mpr ⟨fs, rest, hfields, rfl⟩
      · cases h
      · cases h
    · cases h
  · intro h
    have hlen : frame.length = frameSize := by rw [h.length_eq, size_chunks]
    obtain ⟨fs, rest, hfields, hframe⟩ := (fits_chunks_iff hlen).mp h
    have hread : read frame = .ok (m, rest) :=
      (takes_message frame m rest).mpr ⟨_, ⟨fs, hfields, rfl⟩, hframe⟩
    simp only [decode, if_pos hlen, hread]

/-- Writing leaves zeros in the spare bytes. -/
theorem encode_eq_blank (m : Message) : m.encode = Chunk.blank m.chunks := by
  cases m with
  | request spec =>
      have hbody : (body (.request spec)).length = frameSize := body_length _
      rw [encode, hbody, Nat.sub_self, List.replicate_zero, List.append_nil]
      simp only [body, fields, LineSpec.fields, LineSpec.offsetSlots, LineSpec.valueSlots,
        LineSpec.values_length, List.flatMap_append, LineSpec.flatMap_replicate_zero, chunks,
        LineSpec.chunks, Chunk.blank, List.flatMap_cons, List.flatMap_nil, List.flatten_cons,
        List.flatten_nil, List.replicate_zero, List.append_assoc, List.append_nil]
      rfl
  | _ =>
      show body _ ++ _ = (body _ ++ _) ++ []
      rw [List.append_nil]

theorem decode_encode (m : Message) : decode m.encode = .ok m := by
  rw [decode_eq_ok_iff, encode_eq_blank]
  exact Chunk.fits_blank m.chunks

/-- **Round trip.** Every message fills one frame, and that frame is read back as the same message;
so no two messages share a frame. -/
theorem encode_roundTrip :
    (∀ m : Message, m.encode.length = frameSize ∧ decode m.encode = .ok m) ∧
      Function.Injective encode := by
  constructor
  · intro m
    exact ⟨m.encode_length, m.decode_encode⟩
  · intro m m' h
    have hm := m.decode_encode
    rw [h, m'.decode_encode] at hm
    cases hm
    rfl

end Message
end LineKeeper
