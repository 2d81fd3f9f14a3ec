import LineKeeper.Text.Decimal
import Mathlib.Data.Nat.Digits.Defs

/-!
# Which texts are numbers

A text spells a number if it has digits, at least one, and before them nothing or a plus
sign.  Leading zeros make no difference, so one number is spelled in many ways.

Reading goes through the digits from the left and stops at the first that makes the number
too large.  That is no loss: once it is too large, more digits do not make it smaller.

**Result.** `readUInt32_eq_ok_iff`: the words of 32 bits are read from the texts that spell
a number below `2 ^ 32`, and from no others.
-/

namespace LineKeeper
namespace Text
namespace Decimal

variable {bound acc n : Nat} {c : Char} {cs : List Char} {s : String}

section Digits

/-- The number that a digit stands for. -/
def digitValue (c : Char) : Nat :=
  c.toNat - '0'.toNat

/-- The number that digits stand for, of which the last counts single. -/
def valueOf (cs : List Char) : Nat :=
  Nat.ofDigits 10 (cs.reverse.map digitValue)

theorem valueOf_cons (c : Char) (cs : List Char) :
    valueOf (c :: cs) = 10 ^ cs.length * digitValue c + valueOf cs := by
  simp only [valueOf, List.reverse_cons, List.map_append, List.map_cons, List.map_nil,
    Nat.ofDigits_append, Nat.ofDigits_singleton, List.length_map, List.length_reverse]
  omega

theorem isDigit_iff : c.isDigit = true ↔ '0' ≤ c ∧ c ≤ '9' := by
  simp only [Char.isDigit, Bool.and_eq_true, decide_eq_true_eq]
  exact Iff.rfl

theorem digit?_eq_some_iff {d : Nat} : digit? c = some d ↔ c.isDigit = true ∧ d = digitValue c := by
  rw [isDigit_iff, digit?]
  split
  · next hdigit =>
    simp only [hdigit, and_self, true_and, Option.some.injEq]
    exact eq_comm
  · next hother => simp [hother]

/-- Digits are read as far as the number that they make with those before them stays below the
bound. -/
theorem readDigits_eq_ok_iff (hacc : acc < bound) :
    readDigits bound acc cs = .ok n ↔
      (∀ c ∈ cs, c.isDigit = true) ∧ n = 10 ^ cs.length * acc + valueOf cs ∧ n < bound := by
  induction cs generalizing acc with
  | nil =>
      simp only [readDigits, Except.ok.injEq]
      constructor
      · rintro rfl
        exact ⟨by simp, by simp [valueOf], hacc⟩
      · rintro ⟨-, rfl, -⟩
        simp [valueOf]
  | cons c cs ih =>
      have hsum : 10 ^ (c :: cs).length * acc + valueOf (c :: cs) =
          10 ^ cs.length * (10 * acc + digitValue c) + valueOf cs := by
        rw [valueOf_cons, List.length_cons]
        ring
      rw [hsum, List.forall_mem_cons, readDigits]
      cases hdigit : digit? c with
      | none =>
          have hother : ¬ c.isDigit = true := fun h =>
            Option.some_ne_none _ ((digit?_eq_some_iff.mpr ⟨h, rfl⟩).symm.trans hdigit)
          simp [hother]
      | some d =>
          obtain ⟨hc, rfl⟩ := digit?_eq_some_iff.mp hdigit
          simp only [hc, true_and]
          split
          · next hlt => exact ih hlt
          · next hge =>
            -- the digits that follow only make the number larger
            have hgrows : 10 * acc + digitValue c ≤
                10 ^ cs.length * (10 * acc + digitValue c) :=
              Nat.le_mul_of_pos_left _ (Nat.pow_pos (by decide))
            simp only [reduceCtorEq, false_iff, not_and]
            rintro - rfl
            omega

end Digits

section Numerals

/-- The text is a number in decimal: one or more digits after an optional plus sign. -/
inductive Spells : List Char → Nat → Prop
  | plain (cs : List Char) (hsome : cs ≠ []) (hdigits : ∀ c ∈ cs, c.isDigit = true) :
      Spells cs (valueOf cs)
  | signed (cs : List Char) (hsome : cs ≠ []) (hdigits : ∀ c ∈ cs, c.isDigit = true) :
      Spells ('+' :: cs) (valueOf cs)

theorem readChars_eq_ok_iff (hbound : 0 < bound) :
    readChars bound cs = .ok n ↔ Spells cs n ∧ n < bound := by
  have hread : ∀ ds : List Char, readDigits bound 0 ds = .ok n ↔
      (∀ c ∈ ds, c.isDigit = true) ∧ n = valueOf ds ∧ n < bound := by
    intro ds
    rw [readDigits_eq_ok_iff hbound, Nat.mul_zero, Nat.zero_add]
  have hplus : ¬ '+'.isDigit = true := by decide
  constructor
  · intro h
    unfold readChars at h
    split at h
    · cases h
    · cases h
    · next ds hne =>
      obtain ⟨hdigits, rfl, hlt⟩ := (hread ds).mp h
      exact ⟨.signed ds (fun hnil => hne hnil) hdigits, hlt⟩
    · next ds hnil _ _ =>
      obtain ⟨hdigits, rfl, hlt⟩ := (hread _).mp h
      exact ⟨.plain _ hnil hdigits, hlt⟩
  · rintro ⟨hspells, hlt⟩
    cases hspells with
    | plain _ hsome hdigits =>
        obtain ⟨c, ds, rfl⟩ := List.exists_cons_of_ne_nil hsome
        have hc : c ≠ '+' := by
          rintro rfl
          exact hplus (hdigits _ List.mem_cons_self)
        have hsame : readChars bound (c :: ds) = readDigits bound 0 (c :: ds) := by
          unfold readChars
          split <;> simp_all
        rw [hsame]
        exact (hread _).mpr ⟨hdigits, rfl, hlt⟩
    | signed ds hsome hdigits =>
        obtain ⟨d, ds, rfl⟩ := List.exists_cons_of_ne_nil hsome
        exact (hread _).mpr ⟨hdigits, rfl, hlt⟩

/-- **Reading a word.** A word of 32 bits is read from every text that spells it, and from no other
text. -/
theorem readUInt32_eq_ok_iff {w : UInt32} : readUInt32 s = .ok w ↔ Spells s.toList w.toNat := by
  have hread : ∀ n, read UInt32.size s = .ok n ↔ Spells s.toList n ∧ n < UInt32.size := fun n =>
    readChars_eq_ok_iff (by decide)
  constructor
  · intro h
    cases hn : read UInt32.size s with
    | error e =>
        rw [readUInt32, hn] at h
        cases h
    | ok n =>
        rw [readUInt32, hn] at h
        cases h
        obtain ⟨hspells, hlt⟩ := (hread n).mp hn
        rwa [UInt32.toNat_ofNat_of_lt' hlt]
  · intro h
    rw [readUInt32, (hread _).mpr ⟨h, w.toNat_lt⟩]
    exact congrArg _ (UInt32.ofNat_toNat)

end Numerals

end Decimal
end Text
end LineKeeper
