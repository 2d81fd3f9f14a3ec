/-!
# Text and its bytes

A text is a `String`; on the wire and in paths it is the list of bytes of its
UTF-8 form.

**Reading.** `decode?` accepts exactly the byte lists that are the UTF-8 form of
a text. `lossy` reads every byte list: where no character can be read, the
longest piece that could have begun one is replaced by U+FFFD.

**Results.**
* `decode?_encode`, `encode_of_decode?`: the strict reading and the writing are
  inverse to each other.
* `encode_ascii`: an ASCII character takes one byte.
* `lossy_encode`: nothing is replaced in the bytes of a text.
-/

namespace LineKeeper
namespace Text

namespace Utf8

/-- The bytes of a text. -/
def encode (s : String) : List UInt8 :=
  s.toByteArray.data.toList

/-- The text with these bytes, if there is one. -/
def decode? (bs : List UInt8) : Option String :=
  String.fromUTF8? ⟨bs.toArray⟩

theorem decode?_encode (s : String) : decode? (encode s) = some s := by
  have h : (⟨s.toByteArray.data.toList.toArray⟩ : ByteArray) = s.toByteArray := by
    rw [Array.toArray_toList]
  simp only [decode?, encode, h, String.fromUTF8?]
  rw [dif_pos s.isValidUTF8]
  rfl

theorem encode_of_decode? {bs : List UInt8} {s : String} (h : decode? bs = some s) :
    encode s = bs := by
  simp only [decode?, String.fromUTF8?] at h
  split at h
  · cases h; rfl
  · cases h

theorem encode_injective {s t : String} (h : encode s = encode t) : s = t := by
  have := decode?_encode s
  rw [h, decode?_encode t] at this
  exact (Option.some.inj this).symm

theorem encode_append (s t : String) : encode (s ++ t) = encode s ++ encode t := by
  simp [encode, String.toByteArray_append]

theorem encode_ofList (cs : List Char) :
    encode (String.ofList cs) = cs.flatMap String.utf8EncodeChar := by
  simp [encode, String.toByteArray_ofList, List.utf8Encode]

theorem utf8EncodeChar_ascii {c : Char} (h : c.toNat ≤ 127) :
    String.utf8EncodeChar c = [UInt8.ofNat c.toNat] := by
  have h' : c.val.toNat ≤ 127 := h
  simp only [String.utf8EncodeChar, h', if_true, Char.toNat]

/-- A text of ASCII characters takes one byte for each. -/
theorem encode_ascii {cs : List Char} (h : ∀ c ∈ cs, c.toNat ≤ 127) :
    encode (String.ofList cs) = cs.map fun c => UInt8.ofNat c.toNat := by
  rw [encode_ofList]
  induction cs with
  | nil => rfl
  | cons c cs ih =>
      rw [List.flatMap_cons, utf8EncodeChar_ascii (h c (by simp)), List.map_cons,
        ih (fun d hd => h d (by simp [hd]))]
      rfl

section Lossy

/-- A byte that continues a character. -/
def isContinuation (b : UInt8) : Bool :=
  0x80 ≤ b && b ≤ 0xBF

/-- May `b` follow the leading byte `lead` of a character of three or more bytes? -/
def follows (lead b : UInt8) : Bool :=
  if lead == 0xE0 then 0xA0 ≤ b && b ≤ 0xBF
  else if lead == 0xED then 0x80 ≤ b && b ≤ 0x9F
  else if 0xE1 ≤ lead && lead ≤ 0xEF then isContinuation b
  else if lead == 0xF0 then 0x90 ≤ b && b ≤ 0xBF
  else if 0xF1 ≤ lead && lead ≤ 0xF3 then isContinuation b
  else if lead == 0xF4 then 0x80 ≤ b && b ≤ 0x8F
  else false

/-- Length of the unreadable piece at the front: the longest start of a character, and at least
one byte. -/
def brokenLength : List UInt8 → Nat
  | lead :: b :: c :: _ =>
      if follows lead b then if 0xF0 ≤ lead && isContinuation c then 3 else 2 else 1
  | [lead, b] => if follows lead b then 2 else 1
  | _ => 1

/-- The character at the front of the bytes, if they begin with one. -/
def front? (bs : List UInt8) : Option Char :=
  ByteArray.utf8DecodeChar? ⟨(bs.take 4).toArray⟩ 0

/-- Reads characters and replaces unreadable pieces. -/
def replaceBroken : List UInt8 → List Char
  | [] => []
  | b :: bs =>
      match front? (b :: bs) with
      | some c => c :: replaceBroken ((b :: bs).drop c.utf8Size)
      | none => '\uFFFD' :: replaceBroken ((b :: bs).drop (max 1 (brokenLength (b :: bs))))
termination_by bs => bs.length
decreasing_by
  · have h : 0 < c.utf8Size := Char.utf8Size_pos c
    simp only [List.length_drop, List.length_cons]; omega
  · simp only [List.length_drop, List.length_cons]; omega

/-- The text that a reader sees who replaces what is not UTF-8. -/
def lossy (bs : List UInt8) : String :=
  match decode? bs with
  | some s => s
  | none => String.ofList (replaceBroken bs)

theorem lossy_encode (s : String) : lossy (encode s) = s := by
  simp [lossy, decode?_encode]

end Lossy

end Utf8

end Text
end LineKeeper
