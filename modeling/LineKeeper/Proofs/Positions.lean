import LineKeeper.Message.Codec
import Mathlib.Data.List.Basic

/-!
# What stands where in a frame

A reader takes a frame from its front.  Here the same is said by position: `Reads frame r i j x`
says that the reader `r`, once it has taken `i` bytes of the frame, goes on to position `j` with
what `x` says, or breaks the rule that `x` names.

**Invariant.** The readers of a message never ask for more bytes than there are, as long as the
frame has its full length.  So each of them reads at a position that does not depend on what the
frame holds.

**Results.**
* `Yields.bind`, `Yields.times`: what readers do one after the other, and over and over.
* `LineSpec.reads_read`, `RequestId.reads_read`: where the fields of a request and of an
  identifier stand.
* `Message.decode_eq_check`: reading a frame of full length is to check the fields by position.
-/

namespace LineKeeper
namespace Wire

section Positions

/-- The byte at a position of a frame. -/
def byteAt (frame : List UInt8) (i : Nat) : UInt8 :=
  frame.getD i 0

/-- The word whose first byte stands at a position. -/
def wordAt (frame : List UInt8) (i : Nat) : UInt32 :=
  wordOf (byteAt frame i) (byteAt frame (i + 1)) (byteAt frame (i + 2)) (byteAt frame (i + 3))

/-- The `n` bytes of a frame from a position on. -/
def slice (frame : List UInt8) (i n : Nat) : List UInt8 :=
  (frame.drop i).take n

variable {frame : List UInt8} {i n : Nat}

theorem drop_eq_byteAt_cons (h : i < frame.length) :
    frame.drop i = byteAt frame i :: frame.drop (i + 1) := by
  rw [List.drop_eq_getElem_cons h, byteAt, List.getElem_eq_getD 0]

theorem slice_length (h : i + n ≤ frame.length) : (slice frame i n).length = n := by
  rw [slice, List.length_take, List.length_drop]
  omega

/-- Bytes from a position on, one by one. -/
theorem slice_eq_map (h : i + n ≤ frame.length) :
    slice frame i n = (List.range n).map fun k => byteAt frame (i + k) := by
  apply List.ext_getElem
  · rw [slice_length h, List.length_map, List.length_range]
  · intro k hk _
    rw [List.getElem_map, List.getElem_range, byteAt]
    simp only [slice, List.getElem_take, List.getElem_drop]
    exact List.getElem_eq_getD 0

end Positions

/-- Runs `r` so many times and collects what it gives. -/
def times {m : Type → Type} [Monad m] {α : Type} (r : m α) : Nat → m (List α)
  | 0 => pure []
  | n + 1 => do
      let a ← r
      let as ← times r n
      pure (a :: as)

section Outcomes

variable {σ ε α β : Type} {fail : WireError → ε} {s t u : σ}

/-- From the state `s`, the run `r` gets to the state `t` with the value that `x` gives, or fails
for the rule that `x` names. -/
def Yields (fail : WireError → ε) (r : StateT σ (Except ε) α) (s t : σ)
    (x : Except WireError α) : Prop :=
  r s =
    match x with
    | .ok a => .ok (a, t)
    | .error e => .error (fail e)

namespace Yields

theorem bind {r : StateT σ (Except ε) α} {k : α → StateT σ (Except ε) β} {x : Except WireError α}
    {y : α → Except WireError β} (hr : Yields fail r s t x)
    (hk : ∀ a, Yields fail (k a) t u (y a)) : Yields fail (r >>= k) s u (x >>= y) := by
  simp only [Yields, Bind.bind, StateT.bind, Except.bind] at hr hk ⊢
  rw [hr]
  cases x with
  | error e => rfl
  | ok a => exact hk a

/-- Where a run ends may depend on the value that it goes on with. -/
theorem bind_exists {r : StateT σ (Except ε) α} {k : α → StateT σ (Except ε) β}
    {x : Except WireError α} {y : α → Except WireError β} {p : Nat → σ} {e : α → Nat}
    (hr : Yields fail r s t x) (hk : ∀ a, Yields fail (k a) t (p (e a)) (y a)) :
    ∃ j, Yields fail (r >>= k) s (p j) (x >>= y) := by
  simp only [Yields, Bind.bind, StateT.bind, Except.bind] at hr hk ⊢
  rw [hr]
  cases x with
  | error e => exact ⟨0, rfl⟩
  | ok a => exact ⟨e a, hk a⟩

/-- What runs without a check hands its value on. -/
theorem next {r : StateT σ (Except ε) α} {k : α → StateT σ (Except ε) β} {a : α}
    {y : Except WireError β} (hr : Yields fail r s t (.ok a)) (hk : Yields fail (k a) t u y) :
    Yields fail (r >>= k) s u y := by
  simp only [Yields, Bind.bind, StateT.bind, Except.bind] at hr hk ⊢
  rw [hr]
  exact hk

theorem ite {c : Prop} [Decidable c] {q r : StateT σ (Except ε) α} {x y : Except WireError α}
    (hq : c → Yields fail q s t x) (hr : ¬ c → Yields fail r s t y) :
    Yields fail (if c then q else r) s t (if c then x else y) := by
  by_cases hc : c
  · simpa only [hc, if_true] using hq hc
  · simpa only [hc, if_false] using hr hc

/-- A run that is repeated goes from state to state. -/
theorem times {r : StateT σ (Except ε) α} {p : Nat → σ} {g : Nat → α} {n : Nat}
    (h : ∀ k < n, Yields fail r (p k) (p (k + 1)) (.ok (g k))) :
    Yields fail (times r n) (p 0) (p n) (.ok ((List.range n).map g)) := by
  induction n generalizing p g with
  | zero => rfl
  | succ n ih =>
      -- the runs after the first one start from the states and the values that come next
      have hfirst := h 0 (Nat.zero_lt_succ n)
      have hrest := ih (p := fun k => p (k + 1)) (g := fun k => g (k + 1))
        fun k hk => h (k + 1) (Nat.succ_lt_succ hk)
      rw [List.range_succ_eq_map, List.map_cons, List.map_map]
      exact hfirst.next (hrest.next rfl)

end Yields

end Outcomes

namespace Reader

variable {α : Type} {frame : List UInt8} {i j n : Nat}

/-- From position `i` of the frame, the reader gets to position `j` with the value that `x` gives,
or breaks the rule that `x` names. -/
abbrev Reads (frame : List UInt8) (r : Reader α) (i j : Nat) (x : Except WireError α) : Prop :=
  Yields .refused r (frame.drop i) (frame.drop j) x

theorem reads_pure (a : α) : Reads frame (pure a) i i (.ok a) :=
  rfl

theorem reads_refuse (e : WireError) : Reads frame (refuse e : Reader α) i j (.error e) :=
  rfl

theorem reads_ofExcept (x : Except WireError α) : Reads frame (ofExcept x) i i x := by
  cases x <;> rfl

theorem reads_byte (h : i < frame.length) :
    Reads frame byte i (i + 1) (.ok (byteAt frame i)) := by
  rw [Reads, drop_eq_byteAt_cons h]
  rfl

theorem reads_bytes (h : i + n ≤ frame.length) :
    Reads frame (bytes n) i (i + n) (.ok (slice frame i n)) := by
  have hlen : n ≤ (frame.drop i).length := by
    rw [List.length_drop]
    omega
  simp only [Reads, Yields, bytes, if_pos hlen, List.drop_drop, slice]

theorem reads_word (h : i + 4 ≤ frame.length) :
    Reads frame word i (i + 4) (.ok (wordAt frame i)) := by
  rw [Reads, drop_eq_byteAt_cons (by omega), drop_eq_byteAt_cons (by omega),
    drop_eq_byteAt_cons (by omega), drop_eq_byteAt_cons (by omega)]
  rfl

theorem words_eq_times (n : Nat) : words n = times word n := by
  induction n with
  | zero => rfl
  | succ n ih => rw [words, times, ih]

theorem reads_words (h : i + 4 * n ≤ frame.length) :
    Reads frame (words n) i (i + 4 * n)
      (.ok ((List.range n).map fun k => wordAt frame (i + 4 * k))) := by
  rw [words_eq_times]
  exact Yields.times (p := fun k => frame.drop (i + 4 * k)) fun k hk =>
    reads_word (by omega)

theorem reads_fieldText {f : Field} (h : i + f.width ≤ frame.length) :
    Reads frame (fieldText f) i (i + f.width) (FieldText.ofPadded f (slice frame i f.width)) := by
  have hraw : Reads frame (bytes f.width) i (i + f.width) (.ok (slice frame i f.width)) :=
    reads_bytes h
  rw [fieldText]
  exact hraw.next (reads_ofExcept _)

end Reader
end Wire

open Wire Wire.Reader

section Checks

/-- The word that a frame begins with. -/
def tagAt (frame : List UInt8) : UInt32 :=
  wordAt frame 0

/-- The number of lines that a request says it has. -/
def countAt (frame : List UInt8) : Nat :=
  (wordAt frame 164).toNat

/-- The offset in slot `k` of a request. -/
def offsetAt (frame : List UInt8) (k : Nat) : UInt32 :=
  wordAt frame (168 + 4 * k)

/-- The value in slot `k` of a request. -/
def valueAt (frame : List UInt8) (k : Nat) : UInt8 :=
  byteAt frame (424 + k)

/-- The flags of a request. -/
def flagsAt (frame : List UInt8) : UInt8 :=
  byteAt frame 488

/-- Checks the fields of a request, by position. -/
def LineSpec.check (frame : List UInt8) : Except WireError LineSpec := do
  let chipPath ← FieldText.ofPadded .chipPath (slice frame 4 128)
  let consumer ← FieldText.ofPadded .consumer (slice frame 132 32)
  if maxLines < countAt frame then .error (.tooManyLines (countAt frame))
  else if flagsAt frame &&& 0xFC != 0 then .error (.invalidFlags (flagsAt frame))
  else
    ofParts chipPath consumer ((List.range (countAt frame)).map (offsetAt frame))
      ((List.range (countAt frame)).map (valueAt frame)) (flagsAt frame)

/-- Checks the field of an identifier, by position. -/
def RequestId.check (frame : List UInt8) : Except WireError RequestId := do
  let t ← FieldText.ofPadded .requestId (slice frame 4 32)
  ofString t.text

/-- Checks the fields of a message of a kind, by position. -/
def Message.checkFields (frame : List UInt8) : Kind → Except WireError Message
  | .ok => .ok .ok
  | .ping => .ok .ping
  | .stop => .ok .stop
  | .error => .ok (.error (wordAt frame 4).toInt32)
  | .request => do
      let spec ← LineSpec.check frame
      return .request spec
  | .reqOk => do
      let id ← RequestId.check frame
      return .reqOk id
  | .release => do
      let id ← RequestId.check frame
      return .release id

/-- Checks the tag of a message and its fields, by position. -/
def Message.check (frame : List UInt8) : Except WireError Message := do
  let kind ← Kind.ofTag (tagAt frame)
  checkFields frame kind

variable {frame : List UInt8}

theorem take_map_range {α : Type} (f : Nat → α) {k n : Nat} (h : k ≤ n) :
    ((List.range n).map f).take k = (List.range k).map f := by
  rw [← List.map_take, List.take_range, Nat.min_eq_left h]

/-- The fields of a request stand where they are checked. -/
theorem LineSpec.reads_read (h : frame.length = frameSize) :
    Reads frame LineSpec.read 4 489 (LineSpec.check frame) := by
  have hlen : frame.length = 489 := h
  have hchip : Reads frame (fieldText .chipPath) 4 132 _ := reads_fieldText (by rw [hlen]; decide)
  have hlabel : Reads frame (fieldText .consumer) 132 164 _ := reads_fieldText (by rw [hlen]; decide)
  have hcount : Reads frame word 164 168 _ := reads_word (by omega)
  have hwords : Reads frame (words maxLines) 168 424 _ := reads_words (by rw [hlen]; decide)
  have hbytes : Reads frame (bytes maxLines) 424 488 _ := reads_bytes (by rw [hlen]; decide)
  have hflags : Reads frame byte 488 489 _ := reads_byte (by omega)
  refine hchip.bind fun chipPath => hlabel.bind fun consumer => hcount.next <|
    Yields.ite (fun _ => reads_refuse _) fun hfew => hwords.next <| hbytes.next <| hflags.next <|
    Yields.ite (fun _ => reads_refuse _) fun _ => ?_
  -- the slots that the count covers are read whatever stands in the others
  have hcount : (wordAt frame 164).toNat ≤ maxLines := Nat.not_lt.mp hfew
  rw [take_map_range _ hcount, slice_eq_map (by rw [hlen]; decide), take_map_range _ hcount]
  exact reads_ofExcept _

/-- So does the field of an identifier. -/
theorem RequestId.reads_read (h : frame.length = frameSize) :
    Reads frame RequestId.read 4 36 (RequestId.check frame) := by
  have hlen : frame.length = 489 := h
  have hfield : Reads frame (fieldText .requestId) 4 36 _ := reads_fieldText (by rw [hlen]; decide)
  exact hfield.bind fun t => reads_ofExcept _

namespace Message

theorem reads_readFields (h : frame.length = frameSize) (kind : Kind) :
    Reads frame (readFields kind) 4 kind.bodySize (checkFields frame kind) := by
  have hlen : frame.length = 489 := h
  cases kind with
  | ok => exact reads_pure _
  | ping => exact reads_pure _
  | stop => exact reads_pure _
  | error =>
      have hword : Reads frame word 4 8 _ := reads_word (by omega)
      exact hword.next (reads_pure _)
  | request => exact (LineSpec.reads_read h).bind fun spec => reads_pure _
  | reqOk => exact (RequestId.reads_read h).bind fun id => reads_pure _
  | release => exact (RequestId.reads_read h).bind fun id => reads_pure _

/-- A message is read up to the end of its fields, which depends on its kind. -/
theorem reads_read (h : frame.length = frameSize) : ∃ j, Reads frame read 0 j (check frame) := by
  have htag : Reads frame word 0 4 (.ok (tagAt frame)) := reads_word (by rw [h]; decide)
  obtain ⟨j, hfields⟩ := (reads_ofExcept (Kind.ofTag (tagAt frame))).bind_exists
    (p := frame.drop) (reads_readFields h)
  exact ⟨j, htag.next hfields⟩

/-- **Reading by position.** To read a frame of full length is to check its fields where they
stand. -/
theorem decode_eq_check (h : frame.length = frameSize) : decode frame = check frame := by
  obtain ⟨j, hread⟩ := reads_read h
  simp only [Reads, Yields, List.drop_zero] at hread
  rw [decode, if_pos h, hread]
  cases check frame <;> rfl

end Message

end Checks

end LineKeeper
