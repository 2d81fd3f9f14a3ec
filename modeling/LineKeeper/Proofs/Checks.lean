import LineKeeper.Proofs.Readers
import LineKeeper.Proofs.Paths

/-!
# What checks accept and refuse

A check gives a value of a type that carries a limit, or says which limit is broken.
Checks are made in a row, and the first that fails decides.

**Results.**
* `bind_eq_ok_iff`, `bind_eq_error_iff`: how checks in a row succeed and fail.
* `FieldText.ofString_eq_ok`, `FieldText.ofString_eq_error_iff`: the check of a text.
* `Offsets.ofList_eq_error_iff`, `Offsets.exists_ofList_iff`: the check of offsets that
  are known to differ.
-/

namespace LineKeeper

section Chains

variable {ε α β : Type} {x : Except ε α} {f : α → Except ε β} {e : ε}

/-- Two checks in a row give a value exactly if both do. -/
theorem bind_eq_ok_iff {b : β} : x >>= f = .ok b ↔ ∃ a, x = .ok a ∧ f a = .ok b := by
  cases x <;> simp [bind, Except.bind]

/-- Two checks in a row fail with the error of the first, or with that of the second. -/
theorem bind_eq_error_iff : x >>= f = .error e ↔ x = .error e ∨ ∃ a, x = .ok a ∧ f a = .error e := by
  cases x <;> simp [bind, Except.bind]

theorem pure_ne_error {a : α} : (pure a : Except ε α) ≠ .error e := by
  intro h
  cases h

end Chains

namespace FieldText

variable {f : Field} {s : String} {t : FieldText f} {e : WireError}

theorem ofString_eq_ok : ofString f s = .ok t ↔ t.text = s := by
  constructor
  · exact text_of_ofString
  · rintro rfl
    exact ofString_text t

/-- A text is refused for its length first, and then for a NUL in it. -/
theorem ofString_eq_error_iff :
    ofString f s = .error e ↔
      (f.width < (Text.Utf8.encode s).length ∧ e = .fieldTooLong f) ∨
        ((Text.Utf8.encode s).length ≤ f.width ∧ '\x00' ∈ s.toList ∧ e = .invalidString f) := by
  have hnul : (0 : UInt8) ∈ Text.Utf8.encode s ↔ '\x00' ∈ s.toList :=
    Text.Utf8.mem_encode_iff (d := '\x00') (by decide)
  rw [← hnul, ofString]
  by_cases hfits : (Text.Utf8.encode s).length ≤ f.width
  · by_cases hzero : (0 : UInt8) ∈ Text.Utf8.encode s
    · simp [hfits, hzero, Nat.not_lt_of_le hfits, eq_comm]
    · simp [hfits, hzero, Nat.not_lt_of_le hfits]
  · simp [hfits, Nat.lt_of_not_le hfits, eq_comm]

end FieldText

namespace Offsets

variable {os : List UInt32} {e : WireError}

/-- Offsets that are there, and differ, are refused only if they are too many. -/
theorem ofList_eq_error_iff (hne : os ≠ []) (hnodup : os.Nodup) :
    ofList os = .error e ↔ maxLines < os.length ∧ e = .tooManyLines os.length := by
  by_cases hle : os.length ≤ maxLines
  · have hok : ofList os = .ok ⟨os, hne, hle, hnodup⟩ := ofList_eq_ok_iff.mpr rfl
    simp [hok, Nat.not_lt_of_le hle]
  · simp [ofList, hne, hle, Nat.lt_of_not_le hle, eq_comm]

/-- Offsets that are there, and differ, are accepted exactly if they are not too many. -/
theorem exists_ofList_iff (hne : os ≠ []) (hnodup : os.Nodup) :
    (∃ lines, ofList os = .ok lines) ↔ os.length ≤ maxLines := by
  simp only [ofList_eq_ok_iff]
  exact ⟨fun ⟨lines, h⟩ => h ▸ lines.atMost, fun hle => ⟨⟨os, hne, hle, hnodup⟩, rfl⟩⟩

end Offsets

end LineKeeper
