/-!
# Unsigned numbers in decimal

A number is one or more decimal digits after an optional plus sign, and has to
stay below a bound. Digits are read from the left, so of two faults the one
further left is reported; on one digit, not being a digit comes before being
too large.

**Results.**
* `read_digit_lt`: a digit's value is below ten.
* `lt_of_read`: what is read is below the bound.
-/

namespace LineKeeper
namespace Text

/-- Why a text is no number. -/
inductive DecimalError
  | empty
  | invalidDigit
  | tooLarge
deriving DecidableEq, Repr

namespace DecimalError

/-- The text shown for the fault. -/
def message : DecimalError → String
  | empty => "cannot parse integer from empty string"
  | invalidDigit => "invalid digit found in string"
  | tooLarge => "number too large to fit in target type"

end DecimalError

namespace Decimal

/-- The value of a decimal digit. -/
def digit? (c : Char) : Option Nat :=
  if '0' ≤ c ∧ c ≤ '9' then some (c.toNat - 48) else none

/-- Reads digits after those that make `acc`. -/
def readDigits (bound : Nat) (acc : Nat) : List Char → Except DecimalError Nat
  | [] => .ok acc
  | c :: cs =>
      match digit? c with
      | none => .error .invalidDigit
      | some d =>
          if 10 * acc + d < bound then readDigits bound (10 * acc + d) cs
          else .error .tooLarge

/-- Reads a number below `bound`. -/
def readChars (bound : Nat) : List Char → Except DecimalError Nat
  | [] => .error .empty
  | ['+'] => .error .invalidDigit
  | '+' :: cs => readDigits bound 0 cs
  | cs => readDigits bound 0 cs

/-- Reads a number below `bound`. -/
def read (bound : Nat) (s : String) : Except DecimalError Nat :=
  readChars bound s.toList

/-- Reads a number of 32 bits. -/
def readUInt32 (s : String) : Except DecimalError UInt32 :=
  (read UInt32.size s).map UInt32.ofNat

/-- Reads a number of 64 bits. -/
def readUInt64 (s : String) : Except DecimalError UInt64 :=
  (read UInt64.size s).map UInt64.ofNat

theorem read_digit_lt {c : Char} {d : Nat} (h : digit? c = some d) : d < 10 := by
  simp only [digit?] at h
  split at h
  · next hc =>
    have h9 : c.toNat ≤ 57 := hc.2
    cases h; omega
  · cases h

theorem lt_of_readDigits {bound acc n : Nat} {cs : List Char} (hacc : acc < bound)
    (h : readDigits bound acc cs = .ok n) : n < bound := by
  induction cs generalizing acc with
  | nil => cases h; exact hacc
  | cons c cs ih =>
      simp only [readDigits] at h
      split at h
      · cases h
      · split at h
        · next hlt => exact ih hlt h
        · cases h

theorem lt_of_read {bound n : Nat} {s : String} (hb : 0 < bound) (h : read bound s = .ok n) :
    n < bound := by
  simp only [read] at h
  generalize s.toList = cs at h
  unfold readChars at h
  split at h
  · cases h
  · cases h
  · exact lt_of_readDigits hb h
  · exact lt_of_readDigits hb h

end Decimal
end Text
end LineKeeper
