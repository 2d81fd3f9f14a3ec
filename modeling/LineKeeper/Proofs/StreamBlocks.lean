import LineKeeper.Message.Stream
import Mathlib.Data.List.Basic

/-!
# Messages read one after another

A stream of bytes is cut into blocks of one frame each, from its first byte on. Reading
messages one after another gives the outcomes of those blocks, and then says that the
stream has ended, as often as it is asked. The pieces in which the bytes arrive and the
interruptions in between do not show.

**Results.**
* `readMessages_of_contents`: what is read, and what is left, depends on the bytes alone.
  A block that does not decode is gone like any other, so exchanging a block for another
  one changes a single outcome.
* `readAll_eq_readMessages`: a reader that gives up after some faults reads the same
  messages up to there.
-/

namespace LineKeeper.Stream

/-- The block at index `i` of bytes that are cut into frames. -/
def block (bytes : List UInt8) (i : Nat) : List UInt8 :=
  (bytes.drop (frameSize * i)).take frameSize

/-- What the message at index `i` should be read as: the block there as it decodes, or the end
of the stream where no whole block is left. -/
def outcome (bytes : List UInt8) (i : Nat) : Except Failure Message :=
  if i < bytes.length / frameSize then
    (Message.decode (block bytes i)).mapError .malformed
  else .error .endOfStream

/-- The bytes with another frame in the place of a block. -/
def exchange (bytes : List UInt8) (i : Nat) (frame : List UInt8) : List UInt8 :=
  bytes.take (frameSize * i) ++ (frame ++ bytes.drop (frameSize * (i + 1)))

/-- Reads messages one after another, whatever becomes of each, and returns what is left of the
source. -/
def readMessages : Nat → Source → List (Except Failure Message) × Source
  | 0, src => ([], src)
  | n + 1, src =>
      let (result, rest) := readMessage src
      let (more, last) := readMessages n rest
      (result :: more, last)

section Blocks

variable {bytes frame : List UInt8} {i j : Nat}

theorem lt_blocks_iff : i < bytes.length / frameSize ↔ frameSize * (i + 1) ≤ bytes.length := by
  rw [frameSize]
  omega

/-- Messages written one behind another take a frame each. -/
theorem length_encodes (ms : List Message) :
    (ms.flatMap Message.encode).length = frameSize * ms.length := by
  induction ms with
  | nil => rfl
  | cons m ms ih =>
      rw [List.flatMap_cons, List.length_append, ih, m.encode_length, List.length_cons,
        Nat.mul_succ, Nat.add_comm]

theorem block_length (h : i < bytes.length / frameSize) : (block bytes i).length = frameSize := by
  rw [lt_blocks_iff] at h
  simp only [block, frameSize, List.length_take, List.length_drop] at *
  omega

theorem block_drop (bytes : List UInt8) (i : Nat) :
    block (bytes.drop frameSize) i = block bytes (i + 1) := by
  rw [block, block, List.drop_drop, Nat.mul_succ, Nat.add_comm]

/-- Behind the first block everything is one index lower. -/
theorem outcome_drop (bytes : List UInt8) (i : Nat) :
    outcome (bytes.drop frameSize) i = outcome bytes (i + 1) := by
  have hblocks : i < (bytes.drop frameSize).length / frameSize ↔
      i + 1 < bytes.length / frameSize := by
    simp only [frameSize, List.length_drop]
    omega
  simp only [outcome, block_drop, hblocks]

theorem exchange_length (h : i < bytes.length / frameSize) (hframe : frame.length = frameSize) :
    (exchange bytes i frame).length = bytes.length := by
  rw [lt_blocks_iff] at h
  simp only [exchange, frameSize, List.length_append, List.length_take, List.length_drop] at *
  omega

/-- The block that was exchanged is the new frame. -/
theorem block_exchange_self (h : i < bytes.length / frameSize) (hframe : frame.length = frameSize) :
    block (exchange bytes i frame) i = frame := by
  rw [lt_blocks_iff] at h
  have hfront : (bytes.take (frameSize * i)).length = frameSize * i := by
    rw [List.length_take, Nat.min_eq_left]
    exact Nat.le_trans (Nat.mul_le_mul_left _ (Nat.le_succ i)) h
  rw [block, exchange, List.drop_append_of_le_length (Nat.le_of_eq hfront.symm),
    List.drop_of_length_le (Nat.le_of_eq hfront), List.nil_append,
    List.take_append_of_le_length (Nat.le_of_eq hframe.symm),
    List.take_of_length_le (Nat.le_of_eq hframe)]

/-- Every other block is the one that was there. -/
theorem block_exchange_of_ne (h : i < bytes.length / frameSize) (hframe : frame.length = frameSize)
    (hne : j ≠ i) : block (exchange bytes i frame) j = block bytes j := by
  rw [lt_blocks_iff] at h
  apply List.ext_getElem?
  intro k
  simp only [block, exchange, List.getElem?_take, List.getElem?_drop, List.getElem?_append,
    List.length_take, frameSize, hframe] at *
  by_cases hk : k < 489
  · rcases Nat.lt_or_gt_of_ne hne with hlt | hgt
    · -- in front of the block that was exchanged
      have : 489 * j + k < min (489 * i) bytes.length := by omega
      simp only [hk, this, if_true]
      rw [if_pos (by omega)]
    · -- behind it
      have hpast : ¬ 489 * j + k < min (489 * i) bytes.length := by omega
      have hbehind : ¬ 489 * j + k - min (489 * i) bytes.length < 489 := by omega
      have hindex : 489 * (i + 1) + (489 * j + k - min (489 * i) bytes.length - 489) =
          489 * j + k := by omega
      simp only [hk, hpast, hbehind, if_true, if_false, hindex]
  · simp only [hk, if_false]

/-- Exchanging a block changes its own outcome and no other. -/
theorem outcome_exchange (h : i < bytes.length / frameSize) (hframe : frame.length = frameSize) :
    outcome (exchange bytes i frame) j =
      if j = i then (Message.decode frame).mapError .malformed else outcome bytes j := by
  by_cases hj : j = i
  · subst hj
    rw [outcome, exchange_length h hframe, if_pos h, block_exchange_self h hframe, if_pos rfl]
  · rw [outcome, exchange_length h hframe, block_exchange_of_ne h hframe hj, if_neg hj, outcome]

end Blocks

section Reading

theorem readMessage_fst (src : Source) : (readMessage src).1 = outcome (contents src) 0 := by
  have hframe : (collect frameSize src).1 = block (contents src) 0 := collect_fst frameSize src
  by_cases h : 0 < (contents src).length / frameSize
  · have hlen : (collect frameSize src).1.length = frameSize := by rw [hframe, block_length h]
    rw [outcome, if_pos h, ← hframe]
    simp only [readMessage, hlen, if_true]
    cases Message.decode (collect frameSize src).1 <;> rfl
  · have hlen : (collect frameSize src).1.length ≠ frameSize := by
      rw [collect_fst, List.length_take]
      rw [lt_blocks_iff] at h
      omega
    rw [outcome, if_neg h]
    simp only [readMessage, hlen, if_false]

/-- A message takes the bytes of one frame, or all there are, whether it decodes or not. -/
theorem contents_readMessage (src : Source) :
    contents (readMessage src).2 = (contents src).drop frameSize := by
  rw [← contents_collect_snd]
  simp only [readMessage]
  split
  · split <;> rfl
  · rfl

theorem readMessages_fst (n : Nat) (src : Source) :
    (readMessages n src).1 = (List.range n).map (outcome (contents src)) := by
  induction n generalizing src with
  | zero => rfl
  | succ n ih =>
      have hrest : outcome (contents (readMessage src).2) =
          outcome (contents src) ∘ Nat.succ := by
        funext i
        rw [contents_readMessage, outcome_drop]
        rfl
      rw [List.range_succ_eq_map, List.map_cons, List.map_map, ← readMessage_fst, ← hrest,
        ← ih (readMessage src).2]
      rfl

theorem contents_readMessages (n : Nat) (src : Source) :
    contents (readMessages n src).2 = (contents src).drop (frameSize * n) := by
  induction n generalizing src with
  | zero => rfl
  | succ n ih =>
      have hstep : (readMessages (n + 1) src).2 = (readMessages n (readMessage src).2).2 := rfl
      rw [hstep, ih, contents_readMessage, List.drop_drop, Nat.mul_succ, Nat.add_comm]

/-- Reading from a source gives the outcomes of the blocks of its bytes, in order, and then the
end of the stream. What is left after `n` messages is what stands behind `n` blocks, whatever
they decoded to, and another frame in the place of a block changes the outcome of that block
only. -/
theorem readMessages_of_contents {bytes : List UInt8} {src : Source}
    (h : contents src = bytes) (n : Nat) :
    (readMessages n src).1 = (List.range n).map (outcome bytes) ∧
      contents (readMessages n src).2 = bytes.drop (frameSize * n) ∧
      ∀ (i : Nat) (frame : List UInt8) (other : Source), i < bytes.length / frameSize →
        frame.length = frameSize → contents other = exchange bytes i frame →
        (readMessages n other).1 =
          (readMessages n src).1.set i ((Message.decode frame).mapError .malformed) := by
  subst h
  refine ⟨readMessages_fst n src, contents_readMessages n src, ?_⟩
  intro i frame other hi hframe hother
  rw [readMessages_fst, readMessages_fst, hother]
  apply List.ext_getElem?
  intro j
  rw [List.getElem?_set, List.getElem?_map, List.getElem?_map, List.length_map]
  by_cases hj : j < n
  · rw [List.getElem?_range hj]
    simp only [Option.map_some, outcome_exchange hi hframe, List.length_range]
    by_cases heq : i = j
    · subst heq
      simp only [if_true, hj]
    · simp only [heq, Ne.symm heq, if_false]
  · rw [List.getElem?_eq_none (by simpa using hj)]
    by_cases heq : i = j
    · subst heq
      simp only [Option.map_none, List.length_range, hj, if_true, if_false]
    · simp only [Option.map_none, heq, if_false]

/-- A frame that does not decode and one that does, with three bytes behind them, in pieces that
keep to neither. -/
def ragged : Source :=
  [.interrupted, .piece (List.replicate 100 255), .piece (List.replicate 389 255 ++
      Message.ping.encode.take 7), .interrupted, .interrupted,
    .piece (Message.ping.encode.drop 7 ++ [1, 2, 3])]

/-- The frame in front costs its own bytes: the message behind it is read, and is read the same
if the frame in front is another one and the bytes arrive one by one. -/
theorem ragged_readMessages :
    (readMessages 4 ragged).1 =
        [.error (.malformed (.unknownKind 0xFFFFFFFF)), .ok .ping, .error .endOfStream,
          .error .endOfStream] ∧
      contents (readMessages 1 ragged).2 = Message.ping.encode ++ [1, 2, 3] ∧
      (readMessages 4 (ofBytes 0 true
          (Message.stop.encode ++ (Message.ping.encode ++ [1, 2, 3])))).1 =
        [.ok .stop, .ok .ping, .error .endOfStream, .error .endOfStream] := by
  have hbytes : contents ragged =
      List.replicate frameSize 255 ++ (Message.ping.encode ++ [1, 2, 3]) := by decide +kernel
  have hread := readMessages_of_contents hbytes
  have hall : (readMessages 4 ragged).1 = [.error (.malformed (.unknownKind 0xFFFFFFFF)),
      .ok .ping, .error .endOfStream, .error .endOfStream] :=
    (hread 4).1.trans (by decide +kernel)
  refine ⟨hall, (hread 1).2.1.trans (by decide +kernel), ?_⟩
  rw [(hread 4).2.2 0 Message.stop.encode _ (by decide +kernel) Message.stop.encode_length
    (by decide +kernel), hall]
  decide +kernel

/-- The first message and those behind it. -/
theorem readMessages_cons {src rest last : Source} {result : Except Failure Message}
    {more : List (Except Failure Message)} (hfirst : readMessage src = (result, rest))
    (hmore : (more, last) = readMessages more.length rest) :
    (result :: more, last) = readMessages (result :: more).length src := by
  simp only [List.length_cons, readMessages, hfirst]
  rw [← hmore]

/-- A reader that stops at the end of the stream or after some faults reads what is read one
after another up to there. -/
theorem readAll_eq_readMessages (faults : Nat) (src : Source) :
    readAll faults src = readMessages (readAll faults src).1.length src := by
  fun_induction readAll faults src with
  | case1 faults src rest hlen _ m hdecode more last hmore ih =>
      rw [hmore] at ih
      exact readMessages_cons (by simp only [readMessage, hlen, hdecode, if_true]; rfl) ih
  | case2 src rest hlen _ e hdecode =>
      exact readMessages_cons (by simp only [readMessage, hlen, hdecode, if_true]; rfl) rfl
  | case3 src rest hlen _ e hdecode faults more last hmore ih =>
      rw [hmore] at ih
      exact readMessages_cons (by simp only [readMessage, hlen, hdecode, if_true]; rfl) ih
  | case4 faults src rest hlen =>
      exact readMessages_cons (by simp only [readMessage, hlen, if_false]; rfl) rfl

end Reading

end LineKeeper.Stream
