import LineKeeper.Proofs.LateReplies

/-!
# Calls and the blocks of the incoming stream

A client makes one call after another on one connection.  Before each call the other end
of the connection may do what it likes short of closing: send any bytes, take some of what
was sent to it, or shut its sending side (`Deed`).  All that it sends until then is one
stream (`incoming`), and the stream is cut into blocks of a frame each.

**Invariant.** `Stands`: after some calls, as long as none of them has failed to get a
whole block, each of them has taken its own block, and the client still waits for the rest
of the stream.

**Results.**
* `settles_of_block`: a whole block settles a call by what it decodes to, or by the fact that it
  does not decode.
* `Stands.concat`: a block that does not decode is taken like any other, so the calls behind it
  keep their blocks.
* `Prompt.takes_own_block`: the call at index `k` sends its message, takes the block at index
  `k` and is settled by it (`Settles`).
-/

namespace LineKeeper
namespace Client

variable {l : Link} {timeout k : Nat} {origin : Origin} {x : List UInt8} {ended : Bool}

section Deeds

/-- What the other end of the connection can do, short of closing it. -/
inductive Deed
  | sends (bytes : List UInt8)
  | takes (most : Nat)
  | finishes
deriving DecidableEq

/-- The link after the other end has done something.  An end that has finished can send no more.
Where there is no room for what it sends, it waits until there is. -/
def Deed.apply (l : Link) : Deed → Link
  | sends bytes => if l.client.isOpen && l.server.sends then Net.delivered l bytes else l
  | takes most => (l.take .server most).2
  | finishes => l.shutdown .server

/-- All that the other end sends. -/
def incoming : List Deed → List UInt8
  | [] => []
  | .sends bytes :: ds => bytes ++ incoming ds
  | .takes _ :: ds => incoming ds
  | .finishes :: _ => []

/-- Has the other end shut its sending side? -/
def finished (ds : List Deed) : Bool :=
  ds.contains .finishes

/-- The bytes `x` wait for the client, on a link of which both ends are open; no more will come if
the stream has ended. -/
structure Waits (l : Link) (x : List UInt8) (ended : Bool) : Prop where
  inbox : l.client.inbox = x
  whole : l.client.broken = false
  sends : l.client.sends = true
  present : l.client.isOpen = true
  reached : l.server.isOpen = true
  ends : l.server.sends = !ended

theorem incoming_append (ds es : List Deed) :
    incoming (ds ++ es) = incoming ds ++ if finished ds then [] else incoming es := by
  induction ds with
  | nil => rfl
  | cons d ds ih =>
      cases d with
      | sends bytes => simpa [incoming, finished] using ih
      | takes most => simpa [incoming, finished] using ih
      | finishes => simp [incoming, finished]

theorem finished_append (ds es : List Deed) :
    finished (ds ++ es) = (finished ds || finished es) := by
  simp [finished]

/-- One deed adds to what waits, unless the stream has ended before. -/
theorem Waits.apply (h : Waits l x ended) (d : Deed) :
    Waits (d.apply l) (x ++ if ended then [] else incoming [d]) (ended || finished [d]) := by
  obtain ⟨⟨inbox, broken, clientSends, clientOpen⟩, ⟨far, farBroken, sends, farOpen⟩, origin⟩ := l
  obtain ⟨rfl, rfl, rfl, rfl, rfl, rfl⟩ := h
  cases d with
  | sends bytes =>
      cases ended <;> constructor <;>
        simp [Deed.apply, Net.delivered, incoming, finished]
  | takes most =>
      -- The other end takes from its own side only.
      have htake : ∀ l : Link, (l.take .server most).2.client = l.client ∧
          (l.take .server most).2.server.isOpen = l.server.isOpen ∧
          (l.take .server most).2.server.sends = l.server.sends := by
        intro l
        unfold Link.take
        split
        · exact ⟨rfl, rfl, rfl⟩
        · split
          · exact ⟨rfl, rfl, rfl⟩
          · split <;> exact ⟨rfl, rfl, rfl⟩
      constructor <;> simp [Deed.apply, htake, incoming, finished]
  | finishes =>
      constructor <;> simp [Deed.apply, Link.shutdown, Link.modify, incoming, finished]

theorem Waits.applies (h : Waits l x ended) (ds : List Deed) :
    Waits (ds.foldl Deed.apply l) (x ++ if ended then [] else incoming ds)
      (ended || finished ds) := by
  induction ds generalizing l x ended with
  | nil => simpa [incoming, finished] using h
  | cons d ds ih =>
      have hrest := ih (h.apply d)
      have hsplit : incoming (d :: ds) = incoming [d] ++ if finished [d] then [] else incoming ds :=
        incoming_append [d] ds
      have hends : finished (d :: ds) = (finished [d] || finished ds) := finished_append [d] ds
      rw [List.foldl_cons, hsplit, hends]
      cases ended <;> cases hd : finished [d] <;> simpa [hd] using hrest

end Deeds

section Calling

/-- A call sends its message, and then takes a reply. -/
theorem Waits.call_eq (h : Waits l x ended) (htimeout : timeout ≠ 0) (c : Call) :
    ∃ posted : Link, Waits posted x ended ∧
      posted.server.inbox = l.server.inbox ++ c.message.encode ∧
      Client.call timeout l c = ((takeReply posted).1.bind (judge c.expects), (takeReply posted).2) := by
  set posted := l.modify .server fun e => { e with inbox := e.inbox ++ c.message.encode }
    with hposted
  have hsend : send timeout l c.message = .ok posted := by
    simp only [send, htimeout, if_false, Link.send, Link.isFull, Link.side, Side.other, h.reached,
      h.sends, Bool.and_self, if_true, Bool.false_eq_true, hposted]
  refine ⟨posted, ⟨h.inbox, h.whole, h.sends, h.present, h.reached, h.ends⟩, rfl, ?_⟩
  rw [Client.call, exchange, hsend]

/-- What is left after a call, and what the call gives. -/
theorem Waits.call (h : Waits l x ended) (htimeout : timeout ≠ 0) (c : Call) :
    Waits (Client.call timeout l c).2 (x.drop frameSize) ended ∧
      (Client.call timeout l c).2.server.inbox = l.server.inbox ++ c.message.encode ∧
      (Client.call timeout l c).1 =
        if frameSize ≤ x.length then
          (reading (Message.decode (x.take frameSize))).bind (judge c.expects)
        else .error (if ended then .disconnected else .timeout) := by
  obtain ⟨posted, hposted, hsent, hcall⟩ := h.call_eq htimeout c
  rw [hcall, ← hsent, ← hposted.inbox]
  by_cases hfull : frameSize ≤ posted.client.inbox.length
  · rw [takeReply_of_full hfull, if_pos hfull]
    refine ⟨⟨rfl, hposted.whole, hposted.sends, hposted.present, hposted.reached, hposted.ends⟩,
      rfl, rfl⟩
  · have hshort := Nat.lt_of_not_le hfull
    rw [takeReply_of_short hshort hposted.whole, if_neg hfull, hposted.ends,
      List.drop_of_length_le (Nat.le_of_lt hshort)]
    refine ⟨⟨rfl, hposted.whole, hposted.sends, hposted.present, hposted.reached, hposted.ends⟩,
      rfl, ?_⟩
    cases ended <;> rfl

end Calling

section Settling

variable {stream : List UInt8}

/-- What comes of the call at index `k`, by the stream and whether it has ended. -/
inductive Settles (c : Call) (stream : List UInt8) (ended : Bool) (k : Nat) :
    Except ClientError Message → Prop
  | granted (m : Message) (hwhole : frameSize * (k + 1) ≤ stream.length)
      (hblock : Message.decode (Stream.block stream k) = .ok m) (hkind : m.kind = c.expects) :
      Settles c stream ended k (.ok m)
  | refused (e : Errno) (hwhole : frameSize * (k + 1) ≤ stream.length)
      (hblock : Message.decode (Stream.block stream k) = .ok (.error e)) :
      Settles c stream ended k (.error (.server e))
  | unexpected (m : Message) (hwhole : frameSize * (k + 1) ≤ stream.length)
      (hblock : Message.decode (Stream.block stream k) = .ok m) (hkind : m.kind ≠ c.expects)
      (herror : m.kind ≠ .error) :
      Settles c stream ended k (.error (.unexpectedReply m.kind))
  | malformed (e : WireError) (hwhole : frameSize * (k + 1) ≤ stream.length)
      (hblock : Message.decode (Stream.block stream k) = .error e) :
      Settles c stream ended k (.error (.exchange (.malformed e)))
  | disconnected (hshort : stream.length < frameSize * (k + 1)) (hended : ended = true) :
      Settles c stream ended k (.error .disconnected)
  | timedOut (hshort : stream.length < frameSize * (k + 1)) (hended : ended = false) :
      Settles c stream ended k (.error .timeout)

/-- A whole block settles a call by what it decodes to. -/
theorem settles_of_block {c : Call} (hwhole : frameSize * (k + 1) ≤ stream.length) :
    Settles c stream ended k
      ((reading (Message.decode (Stream.block stream k))).bind (judge c.expects)) := by
  cases hblock : Message.decode (Stream.block stream k) with
  | error e => exact .malformed e hwhole hblock
  | ok m =>
      by_cases herror : m.kind = .error
      · cases m with
        | error e => exact .refused e hwhole hblock
        | _ => cases herror
      · have hjudge : judge c.expects m =
            if m.kind = c.expects then .ok m else .error (.unexpectedReply m.kind) := by
          cases m with
          | error e => exact absurd rfl herror
          | _ => rfl
        show Settles c stream ended k (judge c.expects m)
        rw [hjudge]
        split
        · next hkind => exact .granted m hwhole hblock hkind
        · next hkind => exact .unexpected m hwhole hblock hkind herror

/-- An error tells of an error number only if it is the reply of the server. -/
theorem Settles.error {c : Call} {e : ClientError} (h : Settles c stream ended k (.error e)) :
    (∀ w, e ≠ .protocol w) ∧ ∀ n, e.errno? = some n ↔ e = .server n := by
  cases h with
  | refused n hwhole hblock =>
      refine ⟨fun w => by rintro ⟨⟩, fun m => ?_⟩
      rw [ClientError.errno?, Option.some.injEq, ClientError.server.injEq]
  | _ => exact ⟨fun w => by rintro ⟨⟩, fun m => ⟨by rintro ⟨⟩, by rintro ⟨⟩⟩⟩

/-- A request that is granted is granted with an identifier. -/
theorem Settles.granted_request {spec : LineSpec} {m : Message}
    (h : Settles (.request spec) stream ended k (.ok m)) :
    ∃ id, m = .reqOk id ∧ grantedId? m = some id := by
  cases h with
  | granted m hwhole hblock hkind =>
      cases m with
      | reqOk id => exact ⟨id, rfl, rfl⟩
      | _ => cases hkind

end Settling

section Rounds

/-- A call, and what the other end has done since the call before it. -/
structure Round where
  deeds : List Deed
  call : Call

namespace Round

/-- The link as the call finds it. -/
def opening (r : Round) (l : Link) : Link :=
  r.deeds.foldl Deed.apply l

/-- Makes the call. -/
def run (r : Round) (timeout : Nat) (l : Link) : Except ClientError Message × Link :=
  Client.call timeout (r.opening l) r.call

/-- The link after some rounds of a client that has just connected. -/
def after (timeout : Nat) (origin : Origin) (rs : List Round) : Link :=
  rs.foldl (fun l r => (r.run timeout l).2) (Link.opened origin)

/-- What a call gives after other rounds. -/
def result (timeout : Nat) (origin : Origin) (before : List Round) (r : Round) :
    Except ClientError Message :=
  (r.run timeout (after timeout origin before)).1

/-- All that the other end has done. -/
def deedsOf (rs : List Round) : List Deed :=
  rs.flatMap deeds

/-- The stream that has come in by the end of some rounds. -/
def stream (rs : List Round) : List UInt8 :=
  incoming (deedsOf rs)

/-- Has the stream ended by then? -/
def hasEnded (rs : List Round) : Bool :=
  finished (deedsOf rs)

/-- No call of these has timed out or found the stream ended. -/
def Prompt (timeout : Nat) (origin : Origin) (rs : List Round) : Prop :=
  ∀ i (h : i < rs.length), result timeout origin (rs.take i) rs[i] ≠ .error .timeout ∧
    result timeout origin (rs.take i) rs[i] ≠ .error .disconnected

variable {rs before : List Round} {r : Round}

theorem after_concat (rs : List Round) (r : Round) :
    after timeout origin (rs ++ [r]) = (r.run timeout (after timeout origin rs)).2 :=
  List.foldl_append

theorem stream_concat (rs : List Round) (r : Round) :
    stream (rs ++ [r]) = stream rs ++ if hasEnded rs then [] else incoming r.deeds := by
  rw [stream, deedsOf, List.flatMap_append, List.flatMap_singleton, incoming_append]
  rfl

theorem hasEnded_concat (rs : List Round) (r : Round) :
    hasEnded (rs ++ [r]) = (hasEnded rs || finished r.deeds) := by
  rw [hasEnded, deedsOf, List.flatMap_append, List.flatMap_singleton, finished_append]
  rfl

/-- The calls in front of the last one were prompt, and so was the last one. -/
theorem prompt_concat : Prompt timeout origin (rs ++ [r]) ↔ Prompt timeout origin rs ∧
    result timeout origin rs r ≠ .error .timeout ∧
      result timeout origin rs r ≠ .error .disconnected := by
  have hfront : ∀ i (hlt : i < rs.length) (hi : i < (rs ++ [r]).length),
      (rs ++ [r]).take i = rs.take i ∧ (rs ++ [r])[i] = rs[i] := fun i hlt _ =>
    ⟨List.take_append_of_le_length (Nat.le_of_lt hlt), List.getElem_append_left hlt⟩
  have hlength : (rs ++ [r]).length = rs.length + 1 := List.length_append
  constructor
  · intro h
    refine ⟨fun i hlt => ?_, ?_⟩
    · have hi : i < (rs ++ [r]).length := by omega
      have hearly := h i hi
      rwa [(hfront i hlt hi).1, (hfront i hlt hi).2] at hearly
    · have hlast := h rs.length (by omega)
      rwa [List.take_left, List.getElem_concat_length rfl] at hlast
  · rintro ⟨hearly, hlast⟩ i hi
    rcases Nat.lt_or_ge i rs.length with hlt | hge
    · rw [(hfront i hlt hi).1, (hfront i hlt hi).2]
      exact hearly i hlt
    · obtain rfl : i = rs.length := by omega
      rw [List.take_left, List.getElem_concat_length rfl]
      exact hlast

/-- After prompt calls the client has taken a block for each of them, and nothing else. -/
structure Stands (timeout : Nat) (origin : Origin) (rs : List Round) : Prop where
  waits : Waits (after timeout origin rs) ((stream rs).drop (frameSize * rs.length)) (hasEnded rs)
  within : frameSize * rs.length ≤ (stream rs).length

theorem stands_nil (timeout : Nat) (origin : Origin) : Stands timeout origin [] :=
  ⟨⟨rfl, rfl, rfl, rfl, rfl, rfl⟩, Nat.le_refl _⟩

/-- The next call finds the rest of the stream. -/
theorem Stands.opening (h : Stands timeout origin rs) (r : Round) :
    Waits (r.opening (after timeout origin rs)) ((stream (rs ++ [r])).drop (frameSize * rs.length))
      (hasEnded (rs ++ [r])) := by
  rw [stream_concat, hasEnded_concat, List.drop_append_of_le_length h.within]
  exact h.waits.applies r.deeds

/-- What a call finds, what it leaves, and what it gives. -/
structure Takes (timeout : Nat) (origin : Origin) (rs : List Round) (r : Round) : Prop where
  sends : ((r.run timeout (after timeout origin rs)).2.side .server).inbox =
    ((r.opening (after timeout origin rs)).side .server).inbox ++ r.call.message.encode
  finds : ((r.opening (after timeout origin rs)).side .client).inbox =
    (stream (rs ++ [r])).drop (frameSize * rs.length)
  leaves : ((r.run timeout (after timeout origin rs)).2.side .client).inbox =
    (stream (rs ++ [r])).drop (frameSize * (rs.length + 1))
  settles : Settles r.call (stream (rs ++ [r])) (hasEnded (rs ++ [r])) rs.length
    (result timeout origin rs r)

theorem Stands.takes (h : Stands timeout origin rs) (htimeout : timeout ≠ 0) (r : Round) :
    Takes timeout origin rs r := by
  have hopening := h.opening r
  obtain ⟨hleft, hsent, hresult⟩ := hopening.call htimeout r.call
  constructor
  · exact hsent
  · exact hopening.inbox
  · refine hleft.inbox.trans ?_
    rw [List.drop_drop, Nat.mul_succ]
  · have hfull : frameSize ≤ ((stream (rs ++ [r])).drop (frameSize * rs.length)).length ↔
        frameSize * (rs.length + 1) ≤ (stream (rs ++ [r])).length := by
      simp only [List.length_drop, frameSize]
      omega
    rw [result, run, hresult]
    simp only [hfull]
    split
    · next hwhole => exact settles_of_block hwhole
    · next hshort =>
      rw [Nat.not_le] at hshort
      cases hended : hasEnded (rs ++ [r]) with
      | true => exact .disconnected hshort rfl
      | false => exact .timedOut hshort rfl

/-- A call that gets a block leaves the client where the next one needs it. -/
theorem Stands.concat (h : Stands timeout origin rs) (htimeout : timeout ≠ 0)
    (hresult : result timeout origin rs r ≠ .error .timeout ∧
      result timeout origin rs r ≠ .error .disconnected) :
    Stands timeout origin (rs ++ [r]) := by
  have hlength : (rs ++ [r]).length = rs.length + 1 := List.length_append
  constructor
  · obtain ⟨hleft, -, -⟩ := (h.opening r).call htimeout r.call
    rw [after_concat, hlength, Nat.mul_succ, ← List.drop_drop]
    exact hleft
  · rw [hlength]
    have hsettles := (h.takes htimeout r).settles
    by_contra hshort
    rw [Nat.not_le] at hshort
    generalize result timeout origin rs r = given at hresult hsettles
    cases hsettles with
    | disconnected => exact hresult.2 rfl
    | timedOut => exact hresult.1 rfl
    | granted _ hwhole => omega
    | refused _ hwhole => omega
    | unexpected _ hwhole => omega
    | malformed _ hwhole => omega

theorem Prompt.stands (h : Prompt timeout origin rs) (htimeout : timeout ≠ 0) :
    Stands timeout origin rs := by
  induction rs using List.reverseRecOn with
  | nil => exact stands_nil timeout origin
  | append_singleton rs r ih =>
      obtain ⟨hearly, hlast⟩ := prompt_concat.mp h
      exact (ih hearly).concat htimeout hlast

/-- After calls that were all prompt, the next one sends its message and takes the block of the
stream at its own index, which settles it.  No error but the reply of the server has an error
number, and none is an error of the client's own message. -/
theorem Prompt.takes_own_block (h : Prompt timeout origin before) (htimeout : timeout ≠ 0)
    (r : Round) :
    Takes timeout origin before r ∧
      (∀ e, result timeout origin before r = .error e →
        (∀ w, e ≠ .protocol w) ∧ ∀ n, e.errno? = some n ↔ e = .server n) ∧
      ∀ spec m, r.call = .request spec → result timeout origin before r = .ok m →
        ∃ id, m = .reqOk id ∧ grantedId? m = some id := by
  have htakes := (h.stands htimeout).takes htimeout r
  refine ⟨htakes, ?_, ?_⟩
  · intro e herror
    exact (herror ▸ htakes.settles).error
  · intro spec m hcall hgranted
    have hsettles := htakes.settles
    rw [hcall, hgranted] at hsettles
    exact hsettles.granted_request

/-- The server sends a ping and the grant of a request, a reply in two parts, and 500 bytes that are
no frame; then it shuts its sending side, so that its last reply is not sent. -/
def dwindling : List Round :=
  [⟨[.sends (Message.ping.encode ++ (Message.reqOk (RequestId.numbered 1)).encode),
      .sends (Message.error Errno.noEntry |>.encode.take 5)], .ping⟩,
    ⟨[.takes 489], .stop⟩,
    ⟨[.sends (Message.error Errno.noEntry |>.encode.drop 5), .sends (List.replicate 500 255),
      .finishes, .sends Message.ok.encode], .release (RequestId.numbered 1)⟩,
    ⟨[], .ping⟩]

theorem dwindling_takes_own_block :
    Prompt 50 (.usual ⟨0, 0, ""⟩) dwindling ∧
      result 50 (.usual ⟨0, 0, ""⟩) dwindling ⟨[], .stop⟩ = .error .disconnected ∧
      Takes 50 (.usual ⟨0, 0, ""⟩) dwindling ⟨[], .stop⟩ := by
  have hprompt : Prompt 50 (.usual ⟨0, 0, ""⟩) dwindling := by
    unfold Prompt
    decide +kernel
  exact ⟨hprompt, by decide +kernel,
    (hprompt.takes_own_block (by decide) ⟨[], .stop⟩).1⟩

end Round
end Rounds

end Client
end LineKeeper
