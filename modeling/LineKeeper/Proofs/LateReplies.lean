import Mathlib.Data.List.Induction
import LineKeeper.Client
import LineKeeper.Proofs.FrameLayout
import LineKeeper.Proofs.OpenLinks
import LineKeeper.Proofs.StreamBlocks

/-!
# Which reply decides a call

A client uses one connection for many calls.  The server answers each of its messages once
and in order, but a reply can come late, or in pieces.  A `Trial` is a use of the client and
the bytes that arrive until it ends: until the client has a whole frame, or gives up.

Nothing in a reply says which message it answers.  A use takes the next frame of the stream,
and one that gives up takes what there is.

**Invariant.** `Stands`: after some trials, the client has taken a front of what has arrived,
and this front is as long as the frames of all replies so far exactly if no trial timed out.

**Results.**
* `Answers.decides_own`: as long as no earlier use has timed out, a use is decided by the
  reply to its own message.
* `Answers.decides_earlier`: once a use has timed out, each later use that gets a frame gets
  one that begins in an earlier reply.
-/

namespace LineKeeper

namespace Link

section Taking

theorem take_client_of_ne_nil {l : Link} (h : l.client.inbox ≠ []) (n : Nat) :
    l.take .client n = (.data (l.client.inbox.take n),
      l.modify .client fun e => { e with inbox := e.inbox.drop n }) := by
  have hne : (!(l.side .client).inbox.isEmpty) = true := by
    rw [Bool.not_eq_true', List.isEmpty_eq_false_iff]
    exact h
  simp only [take, hne, if_true]
  rfl

/-- Where no byte waits, it depends on the other end whether more can come. -/
theorem take_client_of_nil {l : Link} (h : l.client.inbox = []) (hwhole : l.client.broken = false)
    (n : Nat) : l.take .client n = (if l.server.sends then .nothing else .ended, l) := by
  cases hsends : l.server.sends <;> simp [take, side, Side.other, h, hwhole, hsends]

theorem delivered_carrying (origin : Origin) (x y bytes : List UInt8) :
    Net.delivered (carrying origin x y) bytes = carrying origin (x ++ bytes) y := rfl

end Taking

end Link

namespace Client

open Link (carrying)

variable {timeout : Nat} {origin : Origin} {x y : List UInt8}

section Uses

/-- A use of a client: a call, or an exchange of any message. -/
inductive Use
  | call (c : Call)
  | exchange (m : Message)
deriving DecidableEq

/-- What a frame means for a client that waits for a reply. -/
def reading (r : Except WireError Message) : Except ClientError Message :=
  match r with
  | .ok m => .ok m
  | .error e => .error (.exchange (.malformed e))

theorem judge_ne_timeout (expected : Kind) (m : Message) :
    judge expected m ≠ .error .timeout := by
  cases m with
  | error errno => rintro ⟨⟩
  | _ =>
      simp only [judge]
      split <;> rintro ⟨⟩

namespace Use

/-- The message that is sent. -/
def message : Use → Message
  | call c => c.message
  | exchange m => m

/-- What a reply means for the use. -/
def judges : Use → Message → Except ClientError Message
  | call c => judge c.expects
  | exchange _ => .ok

/-- What a frame means for the use. -/
def decides (u : Use) (r : Except WireError Message) : Except ClientError Message :=
  (reading r).bind u.judges

/-- Uses the client on a link where what arrives has come already. -/
def run (timeout : Nat) (l : Link) : Use → Except ClientError Message × Link
  | call c => Client.call timeout l c
  | exchange m => Client.exchange timeout l m

theorem decides_ok (u : Use) (m : Message) : u.decides (.ok m) = u.judges m := rfl

/-- No frame means that the client has given up. -/
theorem decides_ne_timeout (u : Use) (r : Except WireError Message) :
    u.decides r ≠ .error .timeout := by
  cases r with
  | error e => cases u <;> rintro ⟨⟩
  | ok m =>
      cases u with
      | call c => exact judge_ne_timeout c.expects m
      | exchange m' => rintro ⟨⟩

end Use

/-- A client that has a whole frame takes it. -/
theorem takeReply_of_full {l : Link} (hfull : frameSize ≤ l.client.inbox.length) :
    takeReply l = (reading (Message.decode (l.client.inbox.take frameSize)),
      l.modify .client fun e => { e with inbox := e.inbox.drop frameSize }) := by
  have hne : l.client.inbox ≠ [] := by
    intro hnil
    rw [hnil] at hfull
    cases hfull
  have hlength : (l.client.inbox.take frameSize).length = frameSize := by
    rw [List.length_take, Nat.min_eq_left hfull]
  simp only [takeReply, Link.take_client_of_ne_nil hne, hlength, if_true, reading]
  cases Message.decode (l.client.inbox.take frameSize) <;> rfl

/-- A client that has less takes what there is, and gives up or learns that no more will come. -/
theorem takeReply_of_short {l : Link} (hshort : l.client.inbox.length < frameSize)
    (hwhole : l.client.broken = false) :
    takeReply l = (.error (if l.server.sends then .timeout else .disconnected),
      l.modify .client fun e => { e with inbox := [] }) := by
  set emptied := l.modify .client fun e => { e with inbox := [] } with hemptied
  by_cases hnil : l.client.inbox = []
  · have hsame : emptied = l := by
      rw [hemptied, Link.modify, ← hnil]
    rw [takeReply, Link.take_client_of_nil hnil hwhole, hsame]
    cases l.server.sends <;> rfl
  · have htaken : l.take .client frameSize = (.data l.client.inbox, emptied) := by
      rw [Link.take_client_of_ne_nil hnil, List.take_of_length_le (Nat.le_of_lt hshort)]
      simp only [hemptied, Link.modify, List.drop_of_length_le (Nat.le_of_lt hshort)]
    have hagain : emptied.take .client frameSize =
        (if l.server.sends then .nothing else .ended, emptied) :=
      Link.take_client_of_nil (l := emptied) rfl hwhole frameSize
    simp only [takeReply, htaken, Nat.ne_of_lt hshort, if_false, hagain]
    cases l.server.sends <;> rfl

theorem takeReply_carrying (hfull : frameSize ≤ x.length) :
    takeReply (carrying origin x y) =
      (reading (Message.decode (x.take frameSize)), carrying origin (x.drop frameSize) y) :=
  takeReply_of_full hfull

/-- A client that gives up has taken what there is. -/
theorem takeReply_carrying_of_lt (hshort : x.length < frameSize) :
    takeReply (carrying origin x y) = (.error .timeout, carrying origin [] y) :=
  takeReply_of_short hshort rfl

theorem exchange_carrying (htimeout : timeout ≠ 0) (m : Message) :
    exchange timeout (carrying origin x y) m = takeReply (carrying origin x (y ++ m.encode)) := by
  have hsend : send timeout (carrying origin x y) m = .ok (carrying origin x (y ++ m.encode)) :=
    if_neg htimeout
  rw [exchange, hsend]

/-- A use takes a reply, and says what it means. -/
theorem Use.run_carrying (htimeout : timeout ≠ 0) (u : Use) :
    u.run timeout (carrying origin x y) =
      ((takeReply (carrying origin x (y ++ u.message.encode))).1.bind u.judges,
        (takeReply (carrying origin x (y ++ u.message.encode))).2) := by
  cases u with
  | call c =>
      rw [run, Client.call, exchange_carrying htimeout]
      rfl
  | exchange m =>
      rw [run, exchange_carrying htimeout, message]
      generalize takeReply _ = taken
      obtain ⟨reply, l⟩ := taken
      cases reply <;> rfl

/-- Without a time to wait there is no use. -/
theorem Use.run_zero (l : Link) (u : Use) : (u.run 0 l).1 = .error (.exchange .zeroTimeout) := by
  cases u <;> rfl

end Uses

section Trials

/-- A use of a client, and the bytes that arrive after the use before it has ended and until it
ends itself. -/
structure Trial where
  use : Use
  arrived : List UInt8

/-- Uses the client while the bytes arrive. -/
def Trial.run (t : Trial) (timeout : Nat) (l : Link) : Except ClientError Message × Link :=
  t.use.run timeout (Net.delivered l t.arrived)

/-- All that arrives. -/
def arrivals (ts : List Trial) : List UInt8 :=
  ts.flatMap Trial.arrived

/-- The link after some trials of a client that has just connected. -/
def after (timeout : Nat) (origin : Origin) (ts : List Trial) : Link :=
  ts.foldl (fun l t => (t.run timeout l).2) (Link.opened origin)

/-- What a trial after others gives. -/
def result (timeout : Nat) (origin : Origin) (before : List Trial) (t : Trial) :
    Except ClientError Message :=
  (t.run timeout (after timeout origin before)).1

/-- What some trials give, in order, where others went before. -/
def resultsFrom (timeout : Nat) (l : Link) : List Trial → List (Except ClientError Message)
  | [] => []
  | t :: ts => (t.run timeout l).1 :: resultsFrom timeout (t.run timeout l).2 ts

/-- What some trials of a client that has just connected give, in order. -/
def results (timeout : Nat) (origin : Origin) (ts : List Trial) :
    List (Except ClientError Message) :=
  resultsFrom timeout (Link.opened origin) ts

variable {ts before later : List Trial} {t : Trial} {replies : List Message} {c : Nat}

theorem arrivals_concat (ts : List Trial) (t : Trial) :
    arrivals (ts ++ [t]) = arrivals ts ++ t.arrived := by
  rw [arrivals, List.flatMap_append, List.flatMap_singleton, arrivals]

theorem after_concat (ts : List Trial) (t : Trial) :
    after timeout origin (ts ++ [t]) = (t.run timeout (after timeout origin ts)).2 :=
  List.foldl_append

theorem results_concat (ts : List Trial) (t : Trial) :
    results timeout origin (ts ++ [t]) =
      results timeout origin ts ++ [result timeout origin ts t] := by
  have hfrom : ∀ l, resultsFrom timeout l (ts ++ [t]) = resultsFrom timeout l ts ++
      [(t.run timeout (ts.foldl (fun l t => (t.run timeout l).2) l)).1] := by
    induction ts with
    | nil => exact fun _ => rfl
    | cons u ts ih =>
        intro l
        rw [List.cons_append, resultsFrom, resultsFrom, ih, List.cons_append, List.foldl_cons]
  exact hfrom _

theorem notMem_results_concat {ts : List Trial} {t : Trial} :
    .error .timeout ∉ results timeout origin (ts ++ [t]) ↔
      .error .timeout ∉ results timeout origin ts ∧
        result timeout origin ts t ≠ .error .timeout := by
  rw [results_concat, List.mem_append, List.mem_singleton, not_or, ne_comm]

/-- After the trials the client has taken the first `c` bytes of what has arrived. -/
structure Stands (timeout : Nat) (origin : Origin) (ts : List Trial) (c : Nat) : Prop where
  link : ∃ y, after timeout origin ts = carrying origin ((arrivals ts).drop c) y
  within : c ≤ (arrivals ts).length
  behind : c ≤ frameSize * ts.length
  prompt : c = frameSize * ts.length ↔ .error .timeout ∉ results timeout origin ts

theorem stands_nil (timeout : Nat) (origin : Origin) : Stands timeout origin [] 0 where
  link := ⟨[], rfl⟩
  within := Nat.zero_le _
  behind := Nat.zero_le _
  prompt := ⟨fun _ => List.not_mem_nil, fun _ => rfl⟩

/-- The client has a whole frame of what has arrived. -/
theorem Stands.gets (h : Stands timeout origin ts c) (htimeout : timeout ≠ 0)
    (hfull : c + frameSize ≤ (arrivals (ts ++ [t])).length) :
    result timeout origin ts t =
        t.use.decides (Message.decode (((arrivals (ts ++ [t])).drop c).take frameSize)) ∧
      Stands timeout origin (ts ++ [t]) (c + frameSize) := by
  obtain ⟨y, hlink⟩ := h.link
  have hrest : (arrivals (ts ++ [t])).drop c = (arrivals ts).drop c ++ t.arrived := by
    rw [arrivals_concat, List.drop_append_of_le_length h.within]
  have hlength : frameSize ≤ ((arrivals ts).drop c ++ t.arrived).length := by
    rw [← hrest, List.length_drop]
    omega
  have hrun : t.run timeout (after timeout origin ts) =
      (t.use.decides (Message.decode (((arrivals ts).drop c ++ t.arrived).take frameSize)),
        carrying origin (((arrivals ts).drop c ++ t.arrived).drop frameSize)
          (y ++ t.use.message.encode)) := by
    rw [hlink, Trial.run, Link.delivered_carrying, Use.run_carrying htimeout,
      takeReply_carrying hlength, Use.decides]
  have hresult : result timeout origin ts t =
      t.use.decides (Message.decode (((arrivals (ts ++ [t])).drop c).take frameSize)) := by
    rw [result, hrun, hrest]
  refine ⟨hresult, ?_⟩
  constructor
  · refine ⟨y ++ t.use.message.encode, ?_⟩
    rw [after_concat, hrun, ← List.drop_drop, hrest]
  · exact hfull
  · have hbehind := h.behind
    rw [List.length_append, List.length_singleton, Nat.mul_succ]
    omega
  · have hanswered := t.use.decides_ne_timeout
      (Message.decode (((arrivals (ts ++ [t])).drop c).take frameSize))
    rw [← hresult] at hanswered
    rw [notMem_results_concat, ← h.prompt, and_iff_left hanswered, List.length_append,
      List.length_singleton, Nat.mul_succ]
    omega

/-- The client gives up, with all that has arrived. -/
theorem Stands.gives_up (h : Stands timeout origin ts c) (htimeout : timeout ≠ 0)
    (hshort : (arrivals (ts ++ [t])).length < c + frameSize) :
    result timeout origin ts t = .error .timeout ∧
      Stands timeout origin (ts ++ [t]) (arrivals (ts ++ [t])).length := by
  obtain ⟨y, hlink⟩ := h.link
  have hrest : (arrivals (ts ++ [t])).drop c = (arrivals ts).drop c ++ t.arrived := by
    rw [arrivals_concat, List.drop_append_of_le_length h.within]
  have hlength : ((arrivals ts).drop c ++ t.arrived).length < frameSize := by
    have hframe : 0 < frameSize := by decide
    rw [← hrest, List.length_drop]
    omega
  have hrun : t.run timeout (after timeout origin ts) =
      (.error .timeout, carrying origin [] (y ++ t.use.message.encode)) := by
    rw [hlink, Trial.run, Link.delivered_carrying, Use.run_carrying htimeout,
      takeReply_carrying_of_lt hlength]
    rfl
  have hresult : result timeout origin ts t = .error .timeout := by
    rw [result, hrun]
  have hbehind := h.behind
  refine ⟨hresult, ?_⟩
  constructor
  · refine ⟨y ++ t.use.message.encode, ?_⟩
    rw [after_concat, hrun, List.drop_length]
  · exact Nat.le_refl _
  · rw [List.length_append, List.length_singleton, Nat.mul_succ]
    omega
  · rw [notMem_results_concat, hresult, List.length_append, List.length_singleton, Nat.mul_succ]
    constructor
    · intro heq
      omega
    · exact fun hnone => absurd rfl hnone.2

/-- With a time to wait, the client always stands somewhere. -/
theorem exists_stands (htimeout : timeout ≠ 0) (ts : List Trial) :
    ∃ c, Stands timeout origin ts c := by
  induction ts using List.reverseRecOn with
  | nil => exact ⟨0, stands_nil timeout origin⟩
  | append_singleton ts t ih =>
      obtain ⟨c, hc⟩ := ih
      rcases Nat.lt_or_ge (arrivals (ts ++ [t])).length (c + frameSize) with hshort | hfull
      · exact ⟨_, (hc.gives_up htimeout hshort).2⟩
      · exact ⟨_, (hc.gets htimeout hfull).2⟩

end Trials

section Answering

variable {ts before later : List Trial} {t : Trial} {replies : List Message} {reply : Message}

/-- The frame of a reply in the stream of all replies. -/
theorem frame_at {n : Nat} (h : replies[n]? = some reply) :
    ((replies.flatMap Message.encode).drop (frameSize * n)).take frameSize = reply.encode := by
  obtain ⟨hn, rfl⟩ := List.getElem?_eq_some_iff.mp h
  have hsplit : replies = replies.take n ++ replies[n] :: replies.drop (n + 1) := by
    rw [← List.drop_eq_getElem_cons hn, List.take_append_drop]
  have hfront : ((replies.take n).flatMap Message.encode).length = frameSize * n := by
    rw [Stream.length_encodes, List.length_take, Nat.min_eq_left (Nat.le_of_lt hn)]
  generalize replies[n] = reply at hsplit
  rw [hsplit, List.flatMap_append, List.flatMap_cons, ← hfront, List.drop_left,
    ← reply.encode_length, List.take_left]

/-- The server answers each message once and in order: by the end of each use, a front of the
replies to the messages so far has arrived. -/
structure Answers (replies : List Message) (ts : List Trial) : Prop where
  each : replies.length = ts.length
  arrives : ∀ k ≤ ts.length, arrivals (ts.take k) <+: (replies.take k).flatMap Message.encode

/-- What has arrived by the end of a use is a front of the stream of all replies. -/
theorem Answers.arrivals_prefix (h : Answers replies (before ++ t :: later)) :
    arrivals (before ++ [t]) <+: replies.flatMap Message.encode := by
  have hsplit : before ++ t :: later = (before ++ [t]) ++ later := by
    rw [List.append_assoc, List.singleton_append]
  have hlength := List.IsPrefix.length_le ⟨later, hsplit.symm⟩
  have hfront := h.arrives (before ++ [t]).length hlength
  rw [hsplit, List.take_left] at hfront
  refine hfront.trans ⟨(replies.drop (before ++ [t]).length).flatMap Message.encode, ?_⟩
  rw [← List.flatMap_append, List.take_append_drop]

/-- A use that gets a frame is decided by a frame of the stream of all replies.  It is the frame of
its own reply exactly if no earlier use has timed out, and else it begins before it. -/
theorem Answers.decided (h : Answers replies (before ++ t :: later)) (htimeout : timeout ≠ 0)
    (hresult : result timeout origin before t ≠ .error .timeout) :
    ∃ c ≤ frameSize * before.length,
      (c = frameSize * before.length ↔ .error .timeout ∉ results timeout origin before) ∧
      result timeout origin before t = t.use.decides
        (Message.decode (((replies.flatMap Message.encode).drop c).take frameSize)) := by
  obtain ⟨c, hc⟩ : ∃ c, Stands timeout origin before c := exists_stands htimeout before
  rcases Nat.lt_or_ge (arrivals (before ++ [t])).length (c + frameSize) with hshort | hfull
  · exact absurd (hc.gives_up htimeout hshort).1 hresult
  · refine ⟨c, hc.behind, hc.prompt, ?_⟩
    obtain ⟨rest, hrest⟩ := h.arrivals_prefix
    have hroom : frameSize ≤ ((arrivals (before ++ [t])).drop c).length := by
      rw [List.length_drop]
      omega
    rw [(hc.gets htimeout hfull).1, ← hrest,
      List.drop_append_of_le_length (Nat.le_trans (Nat.le_add_right _ _) hfull),
      List.take_append_of_le_length hroom]

/-- A reply that grants a release is OK. -/
theorem Use.judges_release {id : RequestId} {m m' : Message}
    (h : (Use.call (.release id)).judges m = .ok m') : m = .ok := by
  cases m <;> first | rfl | cases h

/-- As long as no earlier use of the client has timed out, a use is decided by the reply of the server
to its own message, or times out itself.  So a release that succeeds was answered with OK. -/
theorem Answers.decides_own (h : Answers replies (before ++ t :: later)) (timeout : Nat)
    (origin : Origin) (hprompt : .error .timeout ∉ results timeout origin before)
    (hresult : result timeout origin before t ≠ .error .timeout) :
    ∃ reply, replies[before.length]? = some reply ∧
      (result timeout origin before t = t.use.judges reply ∨
        timeout = 0 ∧ result timeout origin before t = .error (.exchange .zeroTimeout)) ∧
      ∀ id m, t.use = .call (.release id) → result timeout origin before t = .ok m →
        reply = .ok := by
  have hlength := h.each
  rw [List.length_append, List.length_cons] at hlength
  have hreply : ∃ reply, replies[before.length]? = some reply :=
    ⟨_, List.getElem?_eq_getElem (by omega)⟩
  obtain ⟨reply, hreply⟩ := hreply
  refine ⟨reply, hreply, ?_⟩
  by_cases htimeout : timeout = 0
  · subst htimeout
    have hzero : result 0 origin before t = .error (.exchange .zeroTimeout) := Use.run_zero _ _
    rw [hzero]
    exact ⟨.inr ⟨rfl, rfl⟩, fun id m _ hok => by cases hok⟩
  · obtain ⟨c, -, hc, hdecided⟩ := h.decided htimeout hresult
    obtain rfl := hc.mpr hprompt
    rw [frame_at hreply, reply.decode_encode, Use.decides_ok] at hdecided
    refine ⟨.inl hdecided, ?_⟩
    intro id m hrelease hok
    rw [hdecided, hrelease] at hok
    exact Use.judges_release hok

/-- A client asks whether the server is there and gives a request back, twice.  The third reply has
not come when the client gives up; it comes later, and the fourth one with it. -/
def impatient : List Trial :=
  [⟨.call .ping, Message.ok.encode⟩,
    ⟨.call (.release (RequestId.numbered 1)), Message.ok.encode⟩,
    ⟨.call .ping, []⟩,
    ⟨.call (.release (RequestId.numbered 1)),
      Message.ok.encode ++ (Message.error Errno.noEntry).encode⟩]

/-- The replies of the server.  The second time the request is not there any more. -/
def impatientReplies : List Message :=
  [.ok, .ok, .ok, .error Errno.noEntry]

theorem answers_impatient : Answers impatientReplies impatient where
  each := rfl
  arrives := by decide +kernel

/-- The first release is decided by the reply to it. -/
theorem impatient_decides_own :
    .error .timeout ∉ results 50 (.usual ⟨0, 0, ""⟩) (impatient.take 1) ∧
      result 50 (.usual ⟨0, 0, ""⟩) (impatient.take 1) impatient[1] = .ok .ok ∧
      ∃ reply, impatientReplies[1]? = some reply ∧
        result 50 (.usual ⟨0, 0, ""⟩) (impatient.take 1) impatient[1] =
          impatient[1].use.judges reply ∧
        reply = .ok := by
  have hanswers : Answers impatientReplies (impatient.take 1 ++ impatient[1] :: impatient.drop 2) :=
    answers_impatient
  have hprompt : .error .timeout ∉ results 50 (.usual ⟨0, 0, ""⟩) (impatient.take 1) := by
    decide +kernel
  have hresult : result 50 (.usual ⟨0, 0, ""⟩) (impatient.take 1) impatient[1] = .ok .ok := by
    decide +kernel
  have hanswered :
      result 50 (.usual ⟨0, 0, ""⟩) (impatient.take 1) impatient[1] ≠ .error .timeout := by
    rw [hresult]
    rintro ⟨⟩
  obtain ⟨reply, hreply, hdecided | ⟨hzero, -⟩, hrelease⟩ :=
    hanswers.decides_own 50 (.usual ⟨0, 0, ""⟩) hprompt hanswered
  · exact ⟨hprompt, hresult, reply, hreply, hdecided, hrelease _ _ rfl hresult⟩
  · cases hzero

/-- The second one succeeds, although its reply is an error: the client takes the reply to the call
that has timed out for the reply to the release. -/
theorem impatient_misled :
    Answers impatientReplies impatient ∧
      result 50 (.usual ⟨0, 0, ""⟩) (impatient.take 3) impatient[3] = .ok .ok ∧
      ∀ reply, impatientReplies[3]? = some reply →
        impatient[3].use.judges reply = .error (.server Errno.noEntry) := by
  refine ⟨answers_impatient, by decide +kernel, ?_⟩
  rintro _ ⟨⟩
  rfl

/-- Once a use has timed out, each later one that gets a frame gets one that begins in an earlier
reply. -/
theorem Answers.decides_earlier (h : Answers replies (before ++ t :: later))
    (htimeout : timeout ≠ 0) (hlate : .error .timeout ∈ results timeout origin before)
    (hresult : result timeout origin before t ≠ .error .timeout) :
    ∃ c < frameSize * before.length, result timeout origin before t = t.use.decides
      (Message.decode (((replies.flatMap Message.encode).drop c).take frameSize)) := by
  obtain ⟨c, hle, hc, hdecided⟩ := h.decided htimeout hresult
  refine ⟨c, Nat.lt_of_le_of_ne hle ?_, hdecided⟩
  exact fun heq => hc.mp heq hlate

end Answering

end Client
end LineKeeper
