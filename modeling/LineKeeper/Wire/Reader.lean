import LineKeeper.Wire.Field

/-!
# Reading a frame from its front

A `Reader α` takes bytes off the front of a frame. It can break a rule of the
format, and it can ask for more bytes than there are; the second outcome is
kept apart from the first, so that it can be shown never to happen.

Words are written with the most significant byte first.

**Results.**
* `word_encodeWord`: a word is read back, and the bytes after it are left alone.
* `bytes_append`, `fieldText_append`: the same for plain bytes and text fields.
-/

namespace LineKeeper
namespace Wire

section Words

/-- The four bytes of a word. -/
def encodeWord (w : UInt32) : List UInt8 :=
  [UInt8.ofNat (w.toNat / 16777216), UInt8.ofNat (w.toNat / 65536),
    UInt8.ofNat (w.toNat / 256), UInt8.ofNat w.toNat]

/-- The word that four bytes make. -/
def wordOf (a b c d : UInt8) : UInt32 :=
  UInt32.ofNat (((a.toNat * 256 + b.toNat) * 256 + c.toNat) * 256 + d.toNat)

@[simp] theorem encodeWord_length (w : UInt32) : (encodeWord w).length = 4 := rfl

theorem wordOf_encodeWord (w : UInt32) :
    wordOf (UInt8.ofNat (w.toNat / 16777216)) (UInt8.ofNat (w.toNat / 65536))
      (UInt8.ofNat (w.toNat / 256)) (UInt8.ofNat w.toNat) = w := by
  have hw : w.toNat < 4294967296 := w.toNat_lt
  apply UInt32.toNat_inj.mp
  simp only [wordOf, UInt8.toNat_ofNat', UInt32.toNat_ofNat', Nat.reducePow]
  omega

theorem encodeWord_wordOf (a b c d : UInt8) : encodeWord (wordOf a b c d) = [a, b, c, d] := by
  have ha := a.toNat_lt
  have hb := b.toNat_lt
  have hc := c.toNat_lt
  have hd := d.toNat_lt
  simp only [encodeWord, wordOf, UInt32.toNat_ofNat', Nat.reducePow, List.cons.injEq, and_true]
  refine ⟨?_, ?_, ?_, ?_⟩ <;> (apply UInt8.toNat_inj.mp; simp only [UInt8.toNat_ofNat', Nat.reducePow]; omega)

end Words

/-- How reading can end without a value. -/
inductive ReadFault
  | overrun
  | refused (e : WireError)
deriving DecidableEq, Repr

/-- Reads from the front of a frame and returns what is left of it. -/
abbrev Reader (α : Type) := StateT (List UInt8) (Except ReadFault) α

namespace Reader

/-- Ends the reading because a rule is broken. -/
def refuse {α : Type} (e : WireError) : Reader α :=
  fun _ => .error (.refused e)

/-- Goes on with a checked value, or ends the reading. -/
def ofExcept {α : Type} : Except WireError α → Reader α
  | .ok a => pure a
  | .error e => refuse e

/-- The next `n` bytes. -/
def bytes (n : Nat) : Reader (List UInt8) :=
  fun frame =>
    if n ≤ frame.length then .ok (frame.take n, frame.drop n) else .error .overrun

/-- The next byte. -/
def byte : Reader UInt8
  | [] => .error .overrun
  | b :: frame => .ok (b, frame)

/-- The next word. -/
def word : Reader UInt32
  | a :: b :: c :: d :: frame => .ok (wordOf a b c d, frame)
  | _ => .error .overrun

/-- The next `n` words. -/
def words : Nat → Reader (List UInt32)
  | 0 => pure []
  | n + 1 => do
      let w ← word
      let ws ← words n
      pure (w :: ws)

/-- The next text field. -/
def fieldText (f : Field) : Reader (FieldText f) := do
  let raw ← bytes f.width
  ofExcept (FieldText.ofPadded f raw)

theorem bytes_append {front : List UInt8} {n : Nat} (h : front.length = n) (rest : List UInt8) :
    bytes n (front ++ rest) = .ok (front, rest) := by
  subst h
  simp [bytes]

@[simp] theorem word_encodeWord (w : UInt32) (rest : List UInt8) :
    word (encodeWord w ++ rest) = .ok (w, rest) := by
  simp only [encodeWord, List.cons_append, List.nil_append, word, wordOf_encodeWord]

end Reader
end Wire

namespace FieldText

variable {f : Field}

theorem takeWhile_padded (t : FieldText f) : t.padded.takeWhile (· != 0) = t.bytes := by
  have hall : ∀ b ∈ t.bytes, (b != 0) = true := by
    intro b hb
    have : b ≠ 0 := fun h => t.nul_free (h ▸ hb)
    simpa using this
  rw [padded, List.takeWhile_append_of_pos hall, List.takeWhile_replicate]
  simp

theorem dropWhile_padded (t : FieldText f) :
    t.padded.dropWhile (· != 0) = List.replicate (f.width - t.bytes.length) 0 := by
  have hall : ∀ b ∈ t.bytes, (b != 0) = true := by
    intro b hb
    have : b ≠ 0 := fun h => t.nul_free (h ▸ hb)
    simpa using this
  rw [padded, List.dropWhile_append_of_pos hall, List.dropWhile_replicate]
  simp

theorem ofPadded_padded (t : FieldText f) : ofPadded f t.padded = .ok t := by
  simp only [ofPadded, takeWhile_padded, dropWhile_padded, bytes, Text.Utf8.decode?_encode,
    ofString_text]
  simp

end FieldText

namespace Wire
namespace Reader

theorem fieldText_append {f : Field} (t : FieldText f) (rest : List UInt8) :
    fieldText f (t.padded ++ rest) = .ok (t, rest) := by
  simp only [fieldText, bind, StateT.bind, Except.bind, bytes_append t.padded_length,
    FieldText.ofPadded_padded]
  rfl

end Reader
end Wire
end LineKeeper
