/-!
# Likeness of words

Two words are alike if they share enough characters in about the same order:
characters match if they are equal and not too far apart, each at most once, and
the likeness is the mean of three shares, namely the matches in the first word, the
matches in the second, and the matches that keep their order.

**Results.**
* `length_mark`: marking a character keeps the word's length.
* `likeness_nil`: the empty word is like no other.
-/

namespace LineKeeper
namespace Text

/-- A share, as a numerator over a denominator. -/
structure Likeness where
  num : Nat
  den : Nat
deriving DecidableEq, Repr

namespace Likeness

/-- Is the share no larger than another one? -/
def le (a b : Likeness) : Bool :=
  a.num * b.den ≤ b.num * a.den

/-- Words are alike from seven tenths on. -/
def isAlike (a : Likeness) : Bool :=
  7 * a.den ≤ 10 * a.num

end Likeness

namespace Similar

/-- Marks the first unmarked `c` that stands at a place from `lo` on and before `hi`. The word
begins at the place `j`. -/
def mark (c : Char) (lo hi : Nat) : Nat → List (Char × Bool) → Option (List (Char × Bool))
  | _, [] => none
  | j, (d, marked) :: ds =>
      if lo ≤ j && j < hi && d = c && !marked then some ((d, true) :: ds)
      else (mark c lo hi (j + 1) ds).map ((d, marked) :: ·)

/-- Matches the characters of a word, which begins at the place `i`, with those of another one.
The ones that found a match are returned, in order, with the other word and its marks. -/
def matching (range : Nat) : Nat → List Char → List (Char × Bool) → List Char × List (Char × Bool)
  | _, [], ds => ([], ds)
  | i, c :: cs, ds =>
      match mark c (i - range) (i + range + 1) 0 ds with
      | none => matching range (i + 1) cs ds
      | some ds =>
          let (found, ds) := matching range (i + 1) cs ds
          (c :: found, ds)

/-- How far apart matching characters may be. -/
def range (a b : List Char) : Nat :=
  max a.length b.length / 2 - 1

/-- The likeness of two words. -/
def likeness (a b : List Char) : Likeness :=
  let (found, marks) := matching (range a b) 0 a (b.map (·, false))
  let kept := (marks.filter (·.2)).map (·.1)
  let moved := ((found.zip kept).filter fun p => p.1 ≠ p.2).length / 2
  let m := found.length
  if m = 0 then ⟨0, 1⟩
  else
    ⟨m * m * b.length + m * m * a.length + (m - moved) * a.length * b.length,
      3 * a.length * b.length * m⟩

/-- Puts a word behind those that are no more alike. -/
def place (l : Likeness) (word : String) : List (Likeness × String) → List (Likeness × String)
  | [] => [(l, word)]
  | (k, other) :: rest =>
      if k.le l then (k, other) :: place l word rest else (l, word) :: (k, other) :: rest

/-- The words that are like a given one; the most similar one is last. -/
def among (word : String) (candidates : List String) : List String :=
  let ranked := candidates.foldl (fun found c =>
    let l := likeness word.toList c.toList
    if l.isAlike then place l c found else found) []
  ranked.map (·.2)

theorem length_mark {c : Char} {lo hi j : Nat} {ds es : List (Char × Bool)}
    (h : mark c lo hi j ds = some es) : es.length = ds.length := by
  induction ds generalizing j es with
  | nil => simp [mark] at h
  | cons d ds ih =>
      obtain ⟨d, marked⟩ := d
      simp only [mark] at h
      split at h
      · cases h; rfl
      · obtain ⟨fs, hfs, rfl⟩ := Option.map_eq_some_iff.mp h
        simp [ih hfs]

theorem likeness_nil (b : List Char) : likeness [] b = ⟨0, 1⟩ := by
  simp [likeness, matching]

end Similar
end Text
end LineKeeper
