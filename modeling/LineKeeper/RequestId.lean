import LineKeeper.Wire.Reader

/-!
# Identifiers of held requests

The server names each granted request with a `RequestId`: one to 32 visible
ASCII characters. Identifiers are ordered by their bytes, so `req-10` comes
before `req-2`.

**Results.**
* `ofString_eq_ok_iff`: which texts are identifiers.
* `ofString_numberedText`: a name made from a counter is an identifier.
* `ofString_error`: a refused text is too long for its field or no valid string.
-/

namespace LineKeeper

/-- Is the byte a visible ASCII character? -/
def isGraphic (b : UInt8) : Bool :=
  0x21 ≤ b && b ≤ 0x7E

/-- The name of a held request. -/
structure RequestId where
  text : String
  nonempty : Text.Utf8.encode text ≠ []
  fits : (Text.Utf8.encode text).length ≤ Field.requestId.width
  graphic : (Text.Utf8.encode text).all isGraphic = true
deriving DecidableEq

namespace RequestId

theorem ext_text {a b : RequestId} (h : a.text = b.text) : a = b := by
  cases a; cases b; cases h; rfl

/-- The bytes of the identifier. -/
def bytes (id : RequestId) : List UInt8 :=
  Text.Utf8.encode id.text

/-- Checks a text: first its length, then its characters. -/
def ofString (s : String) : Except WireError RequestId :=
  if hfits : (Text.Utf8.encode s).length ≤ Field.requestId.width then
    if h : Text.Utf8.encode s ≠ [] ∧ (Text.Utf8.encode s).all isGraphic = true then
      .ok ⟨s, h.1, hfits, h.2⟩
    else .error (.invalidString .requestId)
  else .error (.fieldTooLong .requestId)

theorem ofString_text (id : RequestId) : ofString id.text = .ok id := by
  simp only [ofString, id.fits, id.nonempty, id.graphic, dif_pos, ne_eq, not_false_eq_true,
    and_self]

theorem text_of_ofString {s : String} {id : RequestId} (h : ofString s = .ok id) :
    id.text = s := by
  simp only [ofString] at h
  split at h
  · split at h
    · cases h; rfl
    · cases h
  · cases h

theorem ofString_eq_ok_iff {s : String} :
    (∃ id, ofString s = .ok id) ↔
      Text.Utf8.encode s ≠ [] ∧ (Text.Utf8.encode s).length ≤ 32 ∧
        (Text.Utf8.encode s).all isGraphic = true := by
  constructor
  · rintro ⟨id, h⟩
    rw [← text_of_ofString h]
    exact ⟨id.nonempty, id.fits, id.graphic⟩
  · rintro ⟨hne, hfits, hall⟩
    have hfits' : (Text.Utf8.encode s).length ≤ Field.requestId.width := hfits
    exact ⟨⟨s, hne, hfits', hall⟩, by simp [ofString, hfits', hne, hall]⟩

theorem ofString_error {s : String} {e : WireError} (h : ofString s = .error e) :
    e = .fieldTooLong .requestId ∨ e = .invalidString .requestId := by
  simp only [ofString] at h
  split at h
  · split at h
    · cases h
    · cases h; exact .inr rfl
  · cases h; exact .inl rfl

theorem nul_free (id : RequestId) : (0 : UInt8) ∉ Text.Utf8.encode id.text := by
  intro h
  have := List.all_eq_true.mp id.graphic 0 h
  exact absurd this (by decide)

section Numbered

/-- The bytes of a number in decimal are digits. -/
theorem encode_toString (n : Nat) :
    Text.Utf8.encode (toString n) = (Nat.toDigits 10 n).map fun c => UInt8.ofNat c.toNat := by
  rw [Nat.toString_eq_repr, Nat.repr_eq_ofList_toDigits, Text.Utf8.encode_ascii]
  intro c hc
  have h := Nat.isDigit_of_mem_toDigits (by decide) (by decide) hc
  have h9 : c.toNat ≤ 57 := by
    simp only [Char.isDigit, Bool.and_eq_true, decide_eq_true_eq] at h
    exact h.2
  omega

theorem isGraphic_of_mem_encode_toString {n : Nat} {b : UInt8}
    (hb : b ∈ Text.Utf8.encode (toString n)) : isGraphic b = true := by
  rw [encode_toString, List.mem_map] at hb
  obtain ⟨c, hc, rfl⟩ := hb
  have h := Nat.isDigit_of_mem_toDigits (by decide) (by decide) hc
  have h0 : 48 ≤ c.toNat ∧ c.toNat ≤ 57 := by
    simp only [Char.isDigit, Bool.and_eq_true, decide_eq_true_eq] at h
    exact ⟨h.1, h.2⟩
  simp only [isGraphic, Bool.and_eq_true, decide_eq_true_eq, UInt8.le_iff_toNat_le,
    UInt8.toNat_ofNat', Nat.reducePow, UInt8.reduceToNat]
  omega

/-- The text of the `n`th identifier. -/
def numberedText (n : UInt64) : String :=
  "req-" ++ toString n.toNat

theorem encode_numberedText (n : UInt64) :
    Text.Utf8.encode (numberedText n) =
      [114, 101, 113, 45] ++ Text.Utf8.encode (toString n.toNat) := by
  rw [numberedText, Text.Utf8.encode_append]
  rfl

/-- The `n`th identifier. Four characters and the digits of a 64-bit number always fit. -/
def numbered (n : UInt64) : RequestId where
  text := numberedText n
  nonempty := by rw [encode_numberedText]; simp
  fits := by
    have hn : n.toNat < 10 ^ 20 := Nat.lt_trans n.toNat_lt (by decide)
    have hd : (Nat.toDigits 10 n.toNat).length ≤ 20 :=
      (Nat.length_toDigits_le_iff (by decide) (by decide)).mpr hn
    rw [encode_numberedText, List.length_append, encode_toString, List.length_map]
    simp only [List.length_cons, List.length_nil, Field.width]
    omega
  graphic := by
    rw [encode_numberedText, List.all_append, Bool.and_eq_true]
    exact ⟨by decide, List.all_eq_true.mpr fun b hb => isGraphic_of_mem_encode_toString hb⟩

theorem ofString_numberedText (n : UInt64) : ofString (numberedText n) = .ok (numbered n) :=
  ofString_text (numbered n)

end Numbered

/-- The identifier as a text field. -/
def toField (id : RequestId) : FieldText .requestId :=
  ⟨id.text, id.fits, id.nul_free⟩

/-- Does `a` come before `b` in the order of their bytes? -/
def before (a b : RequestId) : Bool :=
  decide (a.bytes < b.bytes)

/-- Reads an identifier field. -/
def read : Wire.Reader RequestId := do
  let t ← Wire.Reader.fieldText .requestId
  Wire.Reader.ofExcept (ofString t.text)

theorem read_append (id : RequestId) (rest : List UInt8) :
    read (id.toField.padded ++ rest) = .ok (id, rest) := by
  simp only [read, bind, StateT.bind, Except.bind, Wire.Reader.fieldText_append]
  rw [show id.toField.text = id.text from rfl, ofString_text]
  rfl

end RequestId
end LineKeeper
