import LineKeeper.Text.Utf8

/-!
# Paths

A path is a list of bytes; its parts are divided by slashes. It need not be the
form of a text: where it is shown or expanded as one, what is not UTF-8 is
replaced.

**The home directory.** A path that is `~`, or begins with `~/`, begins with the
home directory instead.

**Results.**
* `join_of_isAbsolute`: an absolute path stays as it is when it is joined.
* `expand_of_no_tilde`: a text that begins with no tilde is its own expansion.
-/

namespace LineKeeper

/-- A path, by its bytes. -/
abbrev Path := List UInt8

namespace Path

/-- The byte of a slash. -/
def slash : UInt8 := 0x2F

/-- The byte of a full stop. -/
def dot : UInt8 := 0x2E

/-- The path with this text. -/
def ofString (s : String) : Path :=
  Text.Utf8.encode s

/-- The path as it is shown. -/
def display (p : Path) : String :=
  Text.Utf8.lossy p

/-- Does the path begin at the root? -/
def isAbsolute (p : Path) : Bool :=
  p.head? = some slash

/-- The path `p` as seen from the directory `dir`. -/
def join (dir p : Path) : Path :=
  if isAbsolute p then p
  else if dir.isEmpty || dir.getLast? = some slash then dir ++ p
  else dir ++ slash :: p

/-- The parts of a path that is read from `acc` on; empty ones are left out. -/
def partsFrom (acc : List UInt8) : Path → List (List UInt8)
  | [] => if acc.isEmpty then [] else [acc.reverse]
  | b :: p =>
      if b = slash then
        if acc.isEmpty then partsFrom [] p else acc.reverse :: partsFrom [] p
      else partsFrom (b :: acc) p

/-- The parts of a path. -/
def parts (p : Path) : List (List UInt8) :=
  partsFrom [] p

/-- Does the path end in a slash? -/
def endsInSlash (p : Path) : Bool :=
  p.getLast? = some slash

/-- Drops slashes, and parts that are a full stop, from the end of a path, which is given from its
end on. The root stays. -/
def trimReversed : List UInt8 → List UInt8
  | [] => []
  | [b] => [b]
  | a :: b :: rest =>
      if a = slash then trimReversed (b :: rest)
      else if a = dot && b = slash then trimReversed (b :: rest)
      else a :: b :: rest

/-- The path without its last part. The root and the empty path have no parent. -/
def parent? (p : Path) : Option Path :=
  let r := trimReversed p.reverse
  if r = [] || r = [slash] then none
  else some (trimReversed (r.dropWhile (· ≠ slash))).reverse

theorem join_of_isAbsolute {dir p : Path} (h : isAbsolute p = true) : join dir p = p := by
  simp [join, h]

section Home

/-- The text of a path, with the home directory for a leading tilde. Without a home directory that
is text, nothing is replaced. -/
def expandText (home : Option Path) (text : String) : String :=
  match text.toList with
  | '~' :: rest =>
      if rest.isEmpty || rest.head? = some '/' then
        match home.bind Text.Utf8.decode? with
        | some h => h ++ String.ofList rest
        | none => text
      else text
  | _ => text

/-- The path with the home directory for a leading tilde. -/
def expand (home : Option Path) (p : Path) : Path :=
  ofString (expandText home (display p))

theorem expandText_of_no_tilde {home : Option Path} {text : String}
    (h : text.toList.head? ≠ some '~') : expandText home text = text := by
  unfold expandText
  split
  · next heq => rw [heq] at h; exact absurd rfl h
  · rfl

theorem expand_of_no_tilde {home : Option Path} {text : String}
    (h : text.toList.head? ≠ some '~') : expand home (ofString text) = ofString text := by
  simp [expand, display, ofString, Text.Utf8.lossy_encode, expandText_of_no_tilde h]

end Home

end Path
end LineKeeper
