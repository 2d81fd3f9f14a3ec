import LineKeeper.Text.Utf8

/-!
# Words of the command line

A word is a list of bytes. What it looks like says what it may be: two hyphens
alone end the switches, two hyphens begin a long name, one hyphen begins letters,
and everything else, a lone hyphen too, is plain.

**Results.**
* `splitEquals_append`: the first equals sign divides name and value.
* `ofBytes_plain`: a word that does not begin with a hyphen is plain.
-/

namespace LineKeeper
namespace CommandLine

/-- What a word looks like. -/
inductive Word
  | terminator
  | long (name : List UInt8) (value : Option (List UInt8))
  | letters (bytes : List UInt8)
  | plain
deriving DecidableEq, Repr

namespace Word

/-- The byte of a hyphen. -/
def hyphen : UInt8 := 0x2D

/-- The byte of an equals sign. -/
def equals : UInt8 := 0x3D

/-- The bytes before the first equals sign, and the bytes after it if there is one. -/
def splitEquals : List UInt8 → List UInt8 × Option (List UInt8)
  | [] => ([], none)
  | b :: bs =>
      if b = equals then ([], some bs)
      else ((b :: (splitEquals bs).1), (splitEquals bs).2)

/-- What the bytes look like. -/
def ofBytes : List UInt8 → Word
  | [] => plain
  | [_] => plain
  | a :: b :: bs =>
      if a ≠ hyphen then plain
      else if b ≠ hyphen then letters (b :: bs)
      else if bs.isEmpty then terminator
      else long (splitEquals bs).1 (splitEquals bs).2

/-- Does the word begin like a switch? -/
def isSwitch : Word → Bool
  | long _ _ => true
  | letters _ => true
  | _ => false

theorem splitEquals_append {name : List UInt8} (h : equals ∉ name) (value : List UInt8) :
    splitEquals (name ++ equals :: value) = (name, some value) := by
  induction name with
  | nil => simp [splitEquals]
  | cons b name ih =>
      have hb : b ≠ equals := fun he => h (he ▸ List.mem_cons_self)
      have hn : equals ∉ name := fun hm => h (List.mem_cons_of_mem _ hm)
      simp [splitEquals, hb, ih hn]

theorem ofBytes_plain {b : UInt8} (h : b ≠ hyphen) (bs : List UInt8) :
    ofBytes (b :: bs) = plain := by
  cases bs <;> simp [ofBytes, h]

end Word

end CommandLine
end LineKeeper
