import LineKeeper.Failure
import LineKeeper.Message.Codec

/-!
# Messages in a stream of bytes

**Reading.** A `Source` hands bytes out in pieces, and may say that it was
interrupted before any of them. A message is read by collecting one whole frame,
whatever the pieces are. A frame that does not decode is gone, and the next
message starts behind it.

**Writing.** A `Sink` has room for a number of bytes and then takes none. A
message that does not fit leaves behind the part that does; only a message
written in full is flushed.

**Results.**
* `collect_fst`: what is collected does not depend on the pieces.
* `collect_size`: no byte is lost or counted twice.
-/

namespace LineKeeper

/-- The reply that reports a failure. One without an error number counts as an input/output
error. -/
def Message.ofFailure (e : Failure) : Message :=
  .error (e.errno?.getD Errno.inputOutput)

namespace Stream

/-- What one attempt to read can meet. -/
inductive Arrival
  | interrupted
  | piece (bytes : List UInt8)
deriving DecidableEq

/-- The attempts that reading will meet, in order; after them the stream has ended. -/
abbrev Source := List Arrival

/-- The bytes that a source still holds. -/
def contents : Source → List UInt8
  | [] => []
  | .interrupted :: src => contents src
  | .piece bs :: src => bs ++ contents src

/-- A source that hands out `bytes` in pieces of `chunk + 1` bytes, each after an interruption if
`interrupt` says so. -/
def ofBytes (chunk : Nat) (interrupt : Bool) : List UInt8 → Source
  | [] => []
  | b :: bs =>
      (if interrupt then [.interrupted] else []) ++
        .piece (b :: bs.take chunk) :: ofBytes chunk interrupt (bs.drop chunk)
termination_by bs => bs.length
decreasing_by simp only [List.length_drop, List.length_cons]; omega

/-- Collects `n` bytes, or all there are, and returns what is left of the source. -/
def collect : Nat → Source → List UInt8 × Source
  | _, [] => ([], [])
  | n, .interrupted :: src => collect n src
  | n, .piece bs :: src =>
      if bs.length ≤ n then
        let (more, rest) := collect (n - bs.length) src
        (bs ++ more, rest)
      else (bs.take n, .piece (bs.drop n) :: src)

theorem collect_fst (n : Nat) (src : Source) : (collect n src).1 = (contents src).take n := by
  induction src generalizing n with
  | nil => simp [collect, contents]
  | cons a src ih =>
      cases a with
      | interrupted => simp [collect, contents, ih]
      | piece bs =>
          by_cases h : bs.length ≤ n
          · simp [collect, contents, h, ih, List.take_append, List.take_of_length_le h]
          · have hn : n ≤ bs.length := Nat.le_of_lt (Nat.lt_of_not_le h)
            simp [collect, contents, h, List.take_append_of_le_length hn]

theorem contents_collect_snd (n : Nat) (src : Source) :
    contents (collect n src).2 = (contents src).drop n := by
  induction src generalizing n with
  | nil => simp [collect, contents]
  | cons a src ih =>
      cases a with
      | interrupted => simp [collect, contents, ih]
      | piece bs =>
          by_cases h : bs.length ≤ n
          · simp [collect, contents, h, ih, List.drop_append, List.drop_of_length_le h]
          · have hn : n ≤ bs.length := Nat.le_of_lt (Nat.lt_of_not_le h)
            simp [collect, contents, h, List.drop_append_of_le_length hn]

theorem collect_size (n : Nat) (src : Source) :
    (collect n src).1.length + (contents (collect n src).2).length = (contents src).length := by
  rw [collect_fst, contents_collect_snd, ← List.length_append, List.take_append_drop]

/-- Reads one message. -/
def readMessage (src : Source) : Except Failure Message × Source :=
  let (frame, rest) := collect frameSize src
  if frame.length = frameSize then
    match Message.decode frame with
    | .ok m => (.ok m, rest)
    | .error e => (.error (.malformed e), rest)
  else (.error .endOfStream, rest)

theorem contents_collect_lt {src : Source} (h : (collect frameSize src).1.length = frameSize) :
    (contents (collect frameSize src).2).length < (contents src).length := by
  have := collect_size frameSize src
  rw [h] at this
  simp only [frameSize] at *
  omega

/-- Reads messages until the stream ends or `faults + 1` frames did not decode, and returns what
is left of the source. -/
def readAll (faults : Nat) (src : Source) : List (Except Failure Message) × Source :=
  let rest := (collect frameSize src).2
  if h : (collect frameSize src).1.length = frameSize then
    have := contents_collect_lt h
    match Message.decode (collect frameSize src).1 with
    | .ok m =>
        let (more, last) := readAll faults rest
        (.ok m :: more, last)
    | .error e =>
        match faults with
        | 0 => ([.error (.malformed e)], rest)
        | faults + 1 =>
            let (more, last) := readAll faults rest
            (.error (.malformed e) :: more, last)
  else ([.error .endOfStream], rest)
termination_by (contents src).length

/-- A receiver of bytes that has room for some and then takes none. -/
structure Sink where
  room : Nat
  kept : List UInt8
  flushes : Nat
deriving DecidableEq

namespace Sink

/-- A sink that has taken nothing yet. -/
def ofRoom (room : Nat) : Sink :=
  ⟨room, [], 0⟩

/-- Writes one message and, if all of it was taken, flushes. -/
def writeMessage (sink : Sink) (m : Message) : Except Failure Unit × Sink :=
  let frame := m.encode
  if frame.length ≤ sink.room then
    (.ok (), ⟨sink.room - frame.length, sink.kept ++ frame, sink.flushes + 1⟩)
  else
    (.error .sinkFull, ⟨0, sink.kept ++ frame.take sink.room, sink.flushes⟩)

/-- Writes messages in order; each result comes with the number of bytes kept so far. -/
def writeAll (sink : Sink) : List Message → List (Except Failure Unit × Nat) × Sink
  | [] => ([], sink)
  | m :: ms =>
      let (result, next) := sink.writeMessage m
      let (more, last) := next.writeAll ms
      ((result, next.kept.length) :: more, last)

end Sink
end Stream
end LineKeeper
