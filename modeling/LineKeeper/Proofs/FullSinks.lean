import LineKeeper.Proofs.FrameLayout
import LineKeeper.Proofs.StreamBlocks

/-!
# What a full sink has kept

Messages are written to a sink that has room for some bytes and then takes none.  The room
can end at any byte of any message.  A message that does not fit leaves its front behind,
and so spoils the stream for whatever would be read after it; but nothing is read after it,
because the messages behind it are refused as well.

**Pieces.** A sink need not take a message at one go.  `Portions` says how many bytes it
takes of an offer, and `offer` makes offers until everything is taken or nothing more is.
Every piece that is taken leaves less room, so what a sink takes at one go can be said by
its room and the size of the offer alone.

**Results.**
* `offer_eq`: what becomes of the bytes does not depend on the pieces.
* `delivers`: the messages of which the writing succeeded, and no others, are read back.
-/

namespace LineKeeper.Stream

/-- How much a sink takes at one go: at most what it is offered and has room for, and something if
it can. -/
structure Portions where
  share : Nat → Nat → Nat
  le : ∀ room n, share room n ≤ min room n
  pos : ∀ room n, 0 < room → 0 < n → 0 < share room n

/-- At most `n + 1` bytes at one go. -/
def Portions.upTo (n : Nat) : Portions where
  share room k := min (n + 1) (min room k)
  le _ _ := Nat.min_le_right _ _
  pos room k hroom hk := by omega

/-- What happens at a sink. -/
inductive SinkEvent
  | took (piece : List UInt8)
  | refused
  | flushed
deriving DecidableEq

namespace Sink

/-- Offers bytes to a sink, again and again, until all of them are taken or none is. -/
def offer (p : Portions) (sink : Sink) (bytes : List UInt8) :
    Except Failure Unit × List SinkEvent × Sink :=
  if bytes = [] then (.ok (), [], sink)
  else if p.share sink.room bytes.length = 0 then (.error .sinkFull, [.refused], sink)
  else
    let n := p.share sink.room bytes.length
    let (result, events, last) :=
      offer p { sink with room := sink.room - n, kept := sink.kept ++ bytes.take n } (bytes.drop n)
    (result, .took (bytes.take n) :: events, last)
termination_by bytes.length
decreasing_by
  rename_i hne hshare
  have := List.length_pos_of_ne_nil hne
  simp only [List.length_drop]
  omega

/-- Writes one message piece by piece and, if all of it was taken, flushes. -/
def writeMessageBy (p : Portions) (sink : Sink) (m : Message) :
    Except Failure Unit × List SinkEvent × Sink :=
  match sink.offer p m.encode with
  | (.ok (), events, sink) =>
      (.ok (), events ++ [.flushed], { sink with flushes := sink.flushes + 1 })
  | (.error e, events, sink) => (.error e, events, sink)

/-- Writes messages in order; each result comes with what happened at the sink. -/
def writeAllBy (p : Portions) (sink : Sink) :
    List Message → List (Except Failure Unit × List SinkEvent) × Sink
  | [] => ([], sink)
  | m :: ms =>
      let (result, events, next) := sink.writeMessageBy p m
      let (more, last) := next.writeAllBy p ms
      ((result, events) :: more, last)

/-- The result of writing a frame to a sink with some room. -/
def resultFor (room : Nat) : Except Failure Unit :=
  if frameSize ≤ room then .ok () else .error .sinkFull

/-- What happens at a sink with some room when a frame is written: pieces are taken, as far as there
is room, and then the sink is flushed if that is the whole frame, and else refuses the rest. -/
def Writing (room : Nat) (frame : List UInt8) (events : List SinkEvent) : Prop :=
  ∃ pieces : List (List UInt8), (∀ piece ∈ pieces, piece ≠ []) ∧
    pieces.flatten = frame.take room ∧
    events = pieces.map .took ++ [if frame.length ≤ room then .flushed else .refused]

variable {p : Portions} {sink : Sink} {m : Message} {ms : List Message} {i : Nat}

section Offers

/-- However a sink takes what it is offered, it takes what it has room for. -/
theorem offer_eq (p : Portions) (sink : Sink) (bytes : List UInt8) :
    ∃ pieces : List (List UInt8), (∀ piece ∈ pieces, piece ≠ []) ∧
      pieces.flatten = bytes.take sink.room ∧
      sink.offer p bytes =
        (if bytes.length ≤ sink.room then .ok () else .error .sinkFull,
          pieces.map .took ++ (if bytes.length ≤ sink.room then [] else [.refused]),
          ⟨sink.room - bytes.length, sink.kept ++ bytes.take sink.room, sink.flushes⟩) := by
  fun_induction offer p sink bytes with
  | case1 sink => exact ⟨[], by simp, by simp, by simp⟩
  | case2 sink bytes hne hshare =>
      have hroom : sink.room = 0 := by
        by_contra h
        have := p.pos _ _ (Nat.pos_of_ne_zero h) (List.length_pos_of_ne_nil hne)
        omega
      obtain ⟨room, kept, flushes⟩ := sink
      subst hroom
      refine ⟨[], by simp, by simp, ?_⟩
      simp [hne]
  | case3 sink bytes hne hshare n result events last hoffer ih =>
      have hle : n ≤ min sink.room bytes.length := p.le _ _
      obtain ⟨pieces, hpieces, hflatten, heq⟩ := ih
      have hfits : (bytes.drop n).length ≤ sink.room - n ↔ bytes.length ≤ sink.room := by
        simp only [List.length_drop]
        omega
      have htake : bytes.take n ++ (bytes.drop n).take (sink.room - n) = bytes.take sink.room := by
        rw [← List.take_add]
        congr 1
        omega
      refine ⟨bytes.take n :: pieces, ?_, ?_, ?_⟩
      · intro piece hpiece
        rcases List.mem_cons.mp hpiece with rfl | hlater
        · have : 0 < n := Nat.pos_of_ne_zero hshare
          simp only [ne_eq, List.take_eq_nil_iff, not_or]
          exact ⟨by omega, hne⟩
        · exact hpieces piece hlater
      · rw [List.flatten_cons, hflatten]
        exact htake
      · rw [hoffer] at heq
        simp only [hfits, Prod.mk.injEq] at heq
        obtain ⟨rfl, rfl, rfl⟩ := heq
        simp only [List.map_cons, List.cons_append, List.append_assoc, htake, List.length_drop,
          Prod.mk.injEq, true_and, mk.injEq, and_true]
        omega

example : (offer (.upTo 1) (.ofRoom 3) [1, 2, 3, 4]).2.1 = [.took [1, 2], .took [3], .refused] := by
  cbv

end Offers

section Messages

/-- Writing a message in pieces is writing it at one go. -/
theorem writeMessageBy_eq (p : Portions) (sink : Sink) (m : Message) :
    ∃ events, Writing sink.room m.encode events ∧
      sink.writeMessageBy p m = ((sink.writeMessage m).1, events, (sink.writeMessage m).2) := by
  obtain ⟨pieces, hpieces, hflatten, hoffer⟩ := offer_eq p sink m.encode
  refine ⟨_, ⟨pieces, hpieces, hflatten, rfl⟩, ?_⟩
  rw [writeMessageBy, hoffer, writeMessage]
  by_cases hfits : m.encode.length ≤ sink.room
  · simp [hfits, List.take_of_length_le hfits]
  · simp [hfits, Nat.sub_eq_zero_of_le (Nat.le_of_not_le hfits)]

theorem writeMessage_eq (sink : Sink) (m : Message) :
    sink.writeMessage m = (resultFor sink.room,
      ⟨sink.room - frameSize, sink.kept ++ m.encode.take sink.room,
        sink.flushes + if frameSize ≤ sink.room then 1 else 0⟩) := by
  by_cases hfits : frameSize ≤ sink.room
  · simp [writeMessage, resultFor, m.encode_length, hfits, List.take_of_length_le]
  · simp [writeMessage, resultFor, m.encode_length, hfits, Nat.le_of_not_le hfits]

theorem writeAll_fst (sink : Sink) (ms : List Message) :
    (sink.writeAll ms).1.map Prod.fst =
      (List.range ms.length).map fun i => resultFor (sink.room - frameSize * i) := by
  induction ms generalizing sink with
  | nil => rfl
  | cons m ms ih =>
      have hrest : ∀ i, sink.room - frameSize - frameSize * i =
          sink.room - frameSize * (i + 1) := fun i => by simp only [frameSize]; omega
      simp only [writeAll, writeMessage_eq, List.map_cons, ih, hrest, List.length_cons,
        List.range_succ_eq_map, List.map_map, Function.comp_def, Nat.mul_zero, Nat.sub_zero]

/-- A sink keeps of all frames what it has room for. -/
theorem kept_writeAll (sink : Sink) (ms : List Message) :
    (sink.writeAll ms).2.kept = sink.kept ++ (ms.flatMap Message.encode).take sink.room := by
  induction ms generalizing sink with
  | nil => simp [writeAll]
  | cons m ms ih =>
      simp only [writeAll, writeMessage_eq, ih, List.flatMap_cons, List.take_append,
        m.encode_length, List.append_assoc]

theorem flushes_writeAll (sink : Sink) (ms : List Message) :
    (sink.writeAll ms).2.flushes = sink.flushes + min ms.length (sink.room / frameSize) := by
  induction ms generalizing sink with
  | nil => simp [writeAll]
  | cons m ms ih =>
      simp only [writeAll, writeMessage_eq, ih, List.length_cons, frameSize]
      by_cases hfits : 489 ≤ sink.room
      · simp only [hfits, if_true]
        omega
      · simp only [hfits, if_false]
        omega

/-- What happens at the sink as the message at index `i` is written. -/
theorem writeAllBy_eq (p : Portions) (sink : Sink) (ms : List Message) :
    (sink.writeAllBy p ms).1.map Prod.fst = (sink.writeAll ms).1.map Prod.fst ∧
      (sink.writeAllBy p ms).2 = (sink.writeAll ms).2 ∧
      ∀ i m, ms[i]? = some m → ∃ events,
        (sink.writeAllBy p ms).1[i]?.map Prod.snd = some events ∧
          Writing (sink.room - frameSize * i) m.encode events := by
  induction ms generalizing sink with
  | nil => simp [writeAllBy, writeAll]
  | cons m ms ih =>
      obtain ⟨events, hevents, hwrite⟩ := writeMessageBy_eq p sink m
      obtain ⟨hfst, hsnd, hlater⟩ := ih (sink.writeMessage m).2
      simp only [writeAllBy, hwrite, writeAll]
      refine ⟨by simp [hfst], hsnd, ?_⟩
      intro i m' hi
      cases i with
      | zero =>
          cases hi
          exact ⟨events, rfl, hevents⟩
      | succ i =>
          obtain ⟨later, hget, hwriting⟩ := hlater i m' hi
          refine ⟨later, hget, ?_⟩
          have hroom : (sink.writeMessage m).2.room - frameSize * i =
              sink.room - frameSize * (i + 1) := by
            simp only [writeMessage_eq, frameSize]
            omega
          rwa [hroom] at hwriting

end Messages

section Receiving

/-- The messages whose writing is reported to have succeeded. -/
def acknowledged (ms : List Message) (results : List (Except Failure Unit)) : List Message :=
  (ms.zip results).filterMap fun
    | (m, .ok ()) => some m
    | (_, .error _) => none

theorem acknowledged_cons_ok (m : Message) (ms : List Message) (rs : List (Except Failure Unit)) :
    acknowledged (m :: ms) (.ok () :: rs) = m :: acknowledged ms rs := rfl

theorem acknowledged_cons_error (m : Message) (ms : List Message) (e : Failure)
    (rs : List (Except Failure Unit)) :
    acknowledged (m :: ms) (.error e :: rs) = acknowledged ms rs := rfl

/-- As many messages are acknowledged as there is room for frames, from the first one on. -/
theorem acknowledged_writeAll (sink : Sink) (ms : List Message) :
    acknowledged ms ((sink.writeAll ms).1.map Prod.fst) = ms.take (sink.room / frameSize) := by
  induction ms generalizing sink with
  | nil => simp [acknowledged]
  | cons m ms ih =>
      have hrest := ih (sink.writeMessage m).2
      simp only [writeAll, List.map_cons]
      by_cases hfits : frameSize ≤ sink.room
      · have hfirst : (sink.writeMessage m).1 = .ok () := by
          simp only [writeMessage_eq, resultFor, hfits, if_true]
        have hcount : sink.room / frameSize = (sink.writeMessage m).2.room / frameSize + 1 := by
          simp only [writeMessage_eq, frameSize] at *
          omega
        rw [hfirst, acknowledged_cons_ok, hrest, hcount, List.take_succ_cons]
      · have hfirst : (sink.writeMessage m).1 = .error .sinkFull := by
          simp only [writeMessage_eq, resultFor, hfits, if_false]
        have hcount : sink.room / frameSize = 0 ∧ (sink.writeMessage m).2.room / frameSize = 0 := by
          simp only [writeMessage_eq, frameSize] at *
          omega
        rw [hfirst, acknowledged_cons_error, hrest, hcount.1, hcount.2, List.take_zero,
          List.take_zero]

/-- What a sink with room for `room` bytes has kept are whole frames and less than one more. -/
theorem take_encodes (ms : List Message) (room : Nat) :
    ∃ rest : List UInt8, rest.length < frameSize ∧ (ms.flatMap Message.encode).take room =
      (ms.take (room / frameSize)).flatMap Message.encode ++ rest := by
  have hsplit : ms.flatMap Message.encode = (ms.take (room / frameSize)).flatMap Message.encode ++
      (ms.drop (room / frameSize)).flatMap Message.encode := by
    rw [← List.flatMap_append, List.take_append_drop]
  refine ⟨((ms.drop (room / frameSize)).flatMap Message.encode).take
    (room - frameSize * (ms.take (room / frameSize)).length), ?_, ?_⟩
  · simp only [List.length_take, length_encodes, List.length_drop, frameSize]
    omega
  · rw [hsplit, List.take_append, length_encodes, List.take_of_length_le]
    simp only [length_encodes, List.length_take, frameSize]
    omega

/-- Whole frames are read back as what they encode; behind them there is no more message. -/
theorem readMessages_of_frames {acked : List Message} {rest : List UInt8} {src : Source}
    (h : contents src = acked.flatMap Message.encode ++ rest) (hrest : rest.length < frameSize)
    (n : Nat) :
    (readMessages (acked.length + n) src).1 =
      acked.map .ok ++ List.replicate n (.error .endOfStream) := by
  induction acked generalizing src with
  | nil =>
      have hnone : outcome (contents src) = fun _ => .error .endOfStream := by
        funext i
        have hblocks : rest.length / frameSize = 0 := Nat.div_eq_of_lt hrest
        rw [h]
        simp [outcome, hblocks]
      simp [readMessages_fst, hnone, List.map_const']
  | cons m acked ih =>
      have hfirst : (readMessage src).1 = .ok m := by
        have hblock : block (contents src) 0 = m.encode := by
          rw [h, List.flatMap_cons]
          simp [block, ← m.encode_length]
        have hsome : 0 < (contents src).length / frameSize := by
          rw [lt_blocks_iff, h]
          simp [m.encode_length]
        rw [readMessage_fst, outcome, if_pos hsome, hblock, m.decode_encode]
        rfl
      have hlater : contents (readMessage src).2 = acked.flatMap Message.encode ++ rest := by
        rw [contents_readMessage, h, List.flatMap_cons, List.append_assoc, ← m.encode_length,
          List.drop_left]
      have hlength : (m :: acked).length + n = acked.length + n + 1 := by
        simp only [List.length_cons]
        omega
      rw [hlength]
      simp only [readMessages, hfirst, ih hlater, List.map_cons, List.cons_append]

/-- What becomes of messages that are written one after another to a sink with room for `room`
bytes, by the results that are reported and the sink in the end. -/
structure Delivers (room : Nat) (ms : List Message) (results : List (Except Failure Unit))
    (last : Sink) : Prop where
  succeeds : results = (List.range ms.length).map fun i =>
    if frameSize * (i + 1) ≤ room then .ok () else .error .sinkFull
  kept : last.kept = (ms.flatMap Message.encode).take (min room (ms.flatMap Message.encode).length)
  flushes : last.flushes = (acknowledged ms results).length
  received : ∀ src n, contents src = last.kept →
    (readMessages ((acknowledged ms results).length + n) src).1 =
      (acknowledged ms results).map .ok ++ List.replicate n (.error .endOfStream)

/-- A sink that has room for `room` bytes keeps these, and what is read back of them are the messages
whose writing succeeded.  In whatever pieces it takes them, each message is flushed exactly if its
writing succeeded, behind its last piece. -/
theorem delivers (room : Nat) (ms : List Message) :
    Delivers room ms (((ofRoom room).writeAll ms).1.map Prod.fst) ((ofRoom room).writeAll ms).2 ∧
      ∀ p : Portions,
        ((ofRoom room).writeAllBy p ms).1.map Prod.fst =
            ((ofRoom room).writeAll ms).1.map Prod.fst ∧
          ((ofRoom room).writeAllBy p ms).2 = ((ofRoom room).writeAll ms).2 ∧
          ∀ i m, ms[i]? = some m → ∃ events,
            ((ofRoom room).writeAllBy p ms).1[i]?.map Prod.snd = some events ∧
              Writing (room - frameSize * i) m.encode events := by
  have hacked := acknowledged_writeAll (ofRoom room) ms
  refine ⟨?_, fun p => writeAllBy_eq p (ofRoom room) ms⟩
  constructor
  · rw [writeAll_fst]
    apply List.map_congr_left
    intro i _
    have hroom : frameSize ≤ room - frameSize * i ↔ frameSize * (i + 1) ≤ room := by
      simp only [frameSize]
      omega
    simp only [resultFor, ofRoom, hroom]
  · rw [kept_writeAll, List.take_eq_take_min]
    rfl
  · rw [hacked, flushes_writeAll, List.length_take, Nat.min_comm]
    exact Nat.zero_add _
  · intro src n hsrc
    obtain ⟨rest, hrest, htake⟩ := take_encodes ms room
    rw [kept_writeAll] at hsrc
    rw [hacked]
    exact readMessages_of_frames (hsrc.trans htake) hrest n

end Receiving

end Sink
end LineKeeper.Stream
