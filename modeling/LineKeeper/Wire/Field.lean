import LineKeeper.Text.Utf8
import LineKeeper.Wire.Error

/-!
# Text fields of fixed width

A `FieldText f` is a text that fits the field `f`: its UTF-8 form has at most
`f.width` bytes, none of them zero. So the zero bytes that fill a field up can
be told from the text.

**Results.**
* `ofString_eq_ok_iff`: a text is accepted exactly if it keeps both rules.
* `padded_length`: a filled field has the field's width.
-/

namespace LineKeeper

/-- A text that fits the field `f`. -/
structure FieldText (f : Field) where
  text : String
  fits : (Text.Utf8.encode text).length ≤ f.width
  nul_free : (0 : UInt8) ∉ Text.Utf8.encode text
deriving DecidableEq

namespace FieldText

variable {f : Field}

theorem ext_text {a b : FieldText f} (h : a.text = b.text) : a = b := by
  cases a; cases b; cases h; rfl

/-- The bytes of the text. -/
def bytes (t : FieldText f) : List UInt8 :=
  Text.Utf8.encode t.text

/-- The field without text. -/
def empty : FieldText f :=
  ⟨"", Nat.zero_le f.width, by decide⟩

/-- Checks a text for a field: first its length, then that it is free of NUL. -/
def ofString (f : Field) (s : String) : Except WireError (FieldText f) :=
  if hfits : (Text.Utf8.encode s).length ≤ f.width then
    if hnul : (0 : UInt8) ∉ Text.Utf8.encode s then .ok ⟨s, hfits, hnul⟩
    else .error (.invalidString f)
  else .error (.fieldTooLong f)

theorem ofString_text (t : FieldText f) : ofString f t.text = .ok t := by
  simp [ofString, t.fits, t.nul_free]

theorem text_of_ofString {s : String} {t : FieldText f} (h : ofString f s = .ok t) :
    t.text = s := by
  simp only [ofString] at h
  split at h
  · split at h
    · cases h; rfl
    · cases h
  · cases h

theorem ofString_eq_ok_iff {s : String} :
    (∃ t, ofString f s = .ok t) ↔
      (Text.Utf8.encode s).length ≤ f.width ∧ (0 : UInt8) ∉ Text.Utf8.encode s := by
  constructor
  · rintro ⟨t, h⟩
    rw [← text_of_ofString h]
    exact ⟨t.fits, t.nul_free⟩
  · rintro ⟨hfits, hnul⟩
    exact ⟨⟨s, hfits, hnul⟩, by simp [ofString, hfits, hnul]⟩

/-- The field as it stands in a message: the text, filled up with zeros. -/
def padded (t : FieldText f) : List UInt8 :=
  t.bytes ++ List.replicate (f.width - t.bytes.length) 0

theorem padded_length (t : FieldText f) : t.padded.length = f.width := by
  have := t.fits
  simp only [padded, bytes, List.length_append, List.length_replicate]
  omega

/-- Reads a filled field: the bytes before the first zero are the text, and only zeros may follow
it. -/
def ofPadded (f : Field) (raw : List UInt8) : Except WireError (FieldText f) :=
  if (raw.dropWhile (· != 0)).all (· == 0) then
    match Text.Utf8.decode? (raw.takeWhile (· != 0)) with
    | some s => ofString f s
    | none => .error (.invalidString f)
  else .error (.invalidString f)

end FieldText
end LineKeeper
