import LineKeeper.Proofs.Positions

/-!
# A buffer and a place in it

A frame can be written into a buffer of fixed length, and read from one, by moving a place along
it.  Every slice is then a claim that its bounds lie in what is sliced, and every step over the
rest of a field is a claim that the field is not shorter than its text.  Here such claims are
checked: what does not hold ends the run with a `Misuse`.

**Invariant.** A writer finds in front of its place what was written before, and behind it only
zeros.

**Results.**
* `Writes.bind`, `writes_forM`: what writers put one after the other.
* `writes_text`: the rest of a text field is stepped over and stays zero.
* `scans_take`, `scans_text`: a place inside the buffer moves to the end of what is taken.
-/

namespace LineKeeper
namespace Wire

variable {α β : Type}

/-- What must never be done to a buffer or to a size. -/
inductive Misuse
  | outside
  | underflow
deriving DecidableEq, Repr

/-- The elements from position `i` up to position `j`. -/
def window (xs : List α) (i j : Nat) : Except Misuse (List α) :=
  if i ≤ j ∧ j ≤ xs.length then .ok ((xs.drop i).take (j - i)) else .error .outside

/-- What is left of a size. -/
def difference (a b : Nat) : Except Misuse Nat :=
  if b ≤ a then .ok (a - b) else .error .underflow

/-- A buffer and a place in it. -/
structure Cursor where
  buffer : List UInt8
  pos : Nat
deriving DecidableEq, Repr

section Zeros

variable (raw : List UInt8)

theorem beq_zero_eq_not_bne_zero : (fun b : UInt8 => b == 0) = fun b => !(b != 0) := by
  funext b
  exact (Bool.not_not (b == 0)).symm

/-- From the first zero on. -/
theorem window_findIdx_length :
    window raw (raw.findIdx (· == 0)) raw.length = .ok (raw.dropWhile (· != 0)) := by
  rw [window, if_pos ⟨List.findIdx_le_length, Nat.le_refl _⟩, ← List.length_drop,
    List.take_length, List.dropWhile_eq_drop_findIdx_not, ← beq_zero_eq_not_bne_zero]

/-- Up to the first zero. -/
theorem window_zero_findIdx :
    window raw 0 (raw.findIdx (· == 0)) = .ok (raw.takeWhile (· != 0)) := by
  rw [window, if_pos ⟨Nat.zero_le _, List.findIdx_le_length⟩, List.drop_zero, Nat.sub_zero,
    List.takeWhile_eq_take_findIdx_not, ← beq_zero_eq_not_bne_zero]

end Zeros

section Writing

/-- Puts bytes into a buffer of fixed length. -/
abbrev Writer := StateT Cursor (Except Misuse)

namespace Writer

/-- Puts bytes at the place and moves it behind them. -/
def bytes (bs : List UInt8) : Writer Unit :=
  fun c =>
    if c.pos + bs.length ≤ c.buffer.length then
      .ok ((), ⟨c.buffer.take c.pos ++ bs ++ c.buffer.drop (c.pos + bs.length),
        c.pos + bs.length⟩)
    else .error .outside

/-- Puts a word. -/
def word (w : UInt32) : Writer Unit :=
  bytes (encodeWord w)

/-- Puts one byte. -/
def byte (b : UInt8) : Writer Unit :=
  bytes [b]

/-- Moves the place and puts nothing. -/
def skip (n : Nat) : Writer Unit :=
  modify fun c => { c with pos := c.pos + n }

/-- Puts a text and steps over the rest of its field. -/
def text (bs : List UInt8) (width : Nat) : Writer Unit := do
  bytes bs
  let rest ← difference width bs.length
  skip rest

/-- Behind anything, and with room for them before the end of the buffer, the writer puts these
bytes. -/
def Writes (w : Writer Unit) (bs : List UInt8) : Prop :=
  ∀ (front : List UInt8) (room : Nat), bs.length ≤ room →
    w ⟨front ++ List.replicate room 0, front.length⟩ =
      .ok ((), ⟨front ++ bs ++ List.replicate (room - bs.length) 0, (front ++ bs).length⟩)

theorem writes_pure : Writes (pure ()) [] := by
  intro front room _
  rw [List.append_nil]
  rfl

theorem Writes.bind {v w : Writer Unit} {bs cs : List UInt8} (hv : Writes v bs)
    (hw : Writes w cs) : Writes (v >>= fun _ => w) (bs ++ cs) := by
  intro front room hroom
  rw [List.length_append] at hroom
  have hfirst := hv front room (by omega)
  have hsecond := hw (front ++ bs) (room - bs.length) (by omega)
  simp only [Bind.bind, StateT.bind, Except.bind, hfirst]
  rw [hsecond, List.append_assoc front, Nat.sub_sub, ← List.length_append]

theorem writes_bytes (bs : List UInt8) : Writes (bytes bs) bs := by
  intro front room hroom
  have hfits : front.length + bs.length ≤ (front ++ List.replicate room (0 : UInt8)).length := by
    rw [List.length_append, List.length_replicate]
    omega
  rw [bytes, if_pos hfits, List.take_left, List.drop_length_add_append, List.drop_replicate,
    List.length_append]

theorem writes_skip (n : Nat) : Writes (skip n) (List.replicate n 0) := by
  intro front room hroom
  rw [List.length_replicate] at hroom
  have hzeros : List.replicate n (0 : UInt8) ++ List.replicate (room - n) 0 =
      List.replicate room 0 := by
    rw [List.replicate_append_replicate, Nat.add_sub_cancel' hroom]
  rw [List.append_assoc, List.length_append, List.length_replicate, hzeros]
  rfl

theorem writes_word (w : UInt32) : Writes (word w) (encodeWord w) :=
  writes_bytes _

theorem writes_byte (b : UInt8) : Writes (byte b) [b] :=
  writes_bytes _

theorem writes_forM {w : α → Writer Unit} {f : α → List UInt8} (h : ∀ a, Writes (w a) (f a))
    (as : List α) : Writes (as.forM w) (as.flatMap f) := by
  induction as with
  | nil => exact writes_pure
  | cons a as ih => exact (h a).bind ih

/-- The rest of the field stays as it is, which is zero. -/
theorem writes_text {f : Field} (t : FieldText f) : Writes (text t.bytes f.width) t.padded := by
  have hfits : t.bytes.length ≤ f.width := t.fits
  have hrest : difference f.width t.bytes.length = .ok (f.width - t.bytes.length) := if_pos hfits
  rw [text, hrest]
  exact (writes_bytes t.bytes).bind (writes_skip _)

/-- Without the bound that `FieldText` carries, the rest of a field would be less than nothing. -/
example : text [1, 2, 3] 2 ⟨List.replicate 4 0, 0⟩ = .error .underflow := rfl

end Writer

end Writing

section Scanning

/-- How taking a frame apart can end without a value. -/
inductive Halt
  | misuse (m : Misuse)
  | refused (e : WireError)
deriving DecidableEq, Repr

/-- Takes a buffer apart from a place on. -/
abbrev Scanner := StateT Cursor (Except Halt)

namespace Scanner

/-- Goes on with what was sliced, or ends the run. -/
def sliced : Except Misuse α → Scanner α
  | .ok a => pure a
  | .error m => fun _ => .error (.misuse m)

/-- Goes on with a checked value, or ends the run. -/
def checked : Except WireError α → Scanner α
  | .ok a => pure a
  | .error e => fun _ => .error (.refused e)

/-- The next `n` bytes. -/
def take (n : Nat) : Scanner (List UInt8) :=
  fun c =>
    match window c.buffer c.pos (c.pos + n) with
    | .ok bs => .ok (bs, { c with pos := c.pos + n })
    | .error m => .error (.misuse m)

/-- The next word. -/
def word : Scanner UInt32 := do
  let bs ← take 4
  match bs with
  | [a, b, c, d] => pure (wordOf a b c d)
  | _ => sliced (.error .outside)

/-- The next byte. -/
def byte : Scanner UInt8 := do
  let bs ← take 1
  match bs[0]? with
  | some b => pure b
  | none => sliced (.error .outside)

/-- The text of a field up to a position, behind which only zeros may follow. -/
def textUpTo (f : Field) (raw : List UInt8) (stop : Nat) : Scanner (FieldText f) := do
  let rest ← sliced (window raw stop raw.length)
  if rest.any (· != 0) then checked (.error (.invalidString f))
  else do
    let front ← sliced (window raw 0 stop)
    match Text.Utf8.decode? front with
    | some s => checked (FieldText.ofString f s)
    | none => checked (.error (.invalidString f))

/-- The next text field. Its text ends at the first zero, or with the field. -/
def text (f : Field) : Scanner (FieldText f) := do
  let raw ← take f.width
  textUpTo f raw ((raw.findIdx? (· == 0)).getD f.width)

variable {frame : List UInt8} {i j n : Nat}

/-- From position `i` of the frame, the scanner gets to position `j` with the value that `x` gives,
or breaks the rule that `x` names. It does not misuse the frame. -/
abbrev Scans (frame : List UInt8) (s : Scanner α) (i j : Nat) (x : Except WireError α) : Prop :=
  Yields .refused s ⟨frame, i⟩ ⟨frame, j⟩ x

theorem scans_pure (a : α) : Scans frame (pure a) i i (.ok a) :=
  rfl

theorem scans_checked (x : Except WireError α) : Scans frame (checked x) i i x := by
  cases x <;> rfl

theorem scans_refused (e : WireError) :
    Scans frame (checked (.error e) : Scanner α) i j (.error e) :=
  rfl

theorem scans_sliced {xs : List α} {a b : Nat} (hab : a ≤ b) (hb : b ≤ xs.length) :
    Scans frame (sliced (window xs a b)) i i (.ok ((xs.drop a).take (b - a))) := by
  rw [window, if_pos ⟨hab, hb⟩]
  rfl

theorem scans_take (h : i + n ≤ frame.length) :
    Scans frame (take n) i (i + n) (.ok (slice frame i n)) := by
  have hwindow : window frame i (i + n) = .ok (slice frame i n) := by
    rw [window, if_pos ⟨Nat.le_add_right i n, h⟩, Nat.add_sub_cancel_left, slice]
  simp only [Scans, Yields, take, hwindow]

/-- Too short a frame is noticed. -/
example : take 4 ⟨[0, 0, 0], 0⟩ = .error (.misuse .outside) := rfl

theorem scans_word (h : i + 4 ≤ frame.length) :
    Scans frame word i (i + 4) (.ok (wordAt frame i)) := by
  have htake := scans_take (n := 4) h
  rw [slice_eq_map h] at htake
  exact htake.next (scans_pure _)

theorem scans_byte (h : i + 1 ≤ frame.length) :
    Scans frame byte i (i + 1) (.ok (byteAt frame i)) := by
  have htake := scans_take (n := 1) h
  rw [slice_eq_map h] at htake
  exact htake.next (scans_pure _)

theorem scans_words (h : i + 4 * n ≤ frame.length) :
    Scans frame (times word n) i (i + 4 * n)
      (.ok ((List.range n).map fun k => wordAt frame (i + 4 * k))) :=
  Yields.times (p := fun k => Cursor.mk frame (i + 4 * k)) fun k hk =>
    scans_word (by omega)

theorem scans_bytes (h : i + n ≤ frame.length) :
    Scans frame (times byte n) i (i + n)
      (.ok ((List.range n).map fun k => byteAt frame (i + k))) :=
  Yields.times (p := fun k => Cursor.mk frame (i + k)) fun k hk =>
    scans_byte (by omega)

/-- To stop at the first zero is to tell the text from what fills its field up. -/
theorem scans_textUpTo {f : Field} (raw : List UInt8) :
    Scans frame (textUpTo f raw (raw.findIdx (· == 0))) i i (FieldText.ofPadded f raw) := by
  have hany : (raw.dropWhile (· != 0)).any (· != 0) = !(raw.dropWhile (· != 0)).all (· == 0) :=
    List.not_all_eq_any_not.symm
  rw [textUpTo, window_findIdx_length, window_zero_findIdx]
  simp only [sliced, pure_bind, hany, FieldText.ofPadded]
  by_cases hzeros : (raw.dropWhile (· != 0)).all (· == 0) = true
  · rw [if_neg (by rw [hzeros]; decide), if_pos hzeros]
    cases Text.Utf8.decode? (raw.takeWhile (· != 0)) with
    | none => exact scans_checked _
    | some s => exact scans_checked _
  · rw [Bool.eq_false_iff.mpr hzeros]
    exact scans_refused _

theorem scans_text {f : Field} (h : i + f.width ≤ frame.length) :
    Scans frame (text f) i (i + f.width) (FieldText.ofPadded f (slice frame i f.width)) := by
  have htake := scans_take h
  have hstop : ((slice frame i f.width).findIdx? (· == 0)).getD f.width =
      (slice frame i f.width).findIdx (· == 0) := by
    rw [List.findIdx_eq_getD_findIdx?, slice_length h]
  refine htake.next ?_
  rw [hstop]
  exact scans_textUpTo _

end Scanner

end Scanning

end Wire
end LineKeeper
