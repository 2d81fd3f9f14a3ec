import LineKeeper.Proofs.Agreement

/-!
# The number of an error, from the chip library to the client

A line request that the chip library refuses is answered with an error number.  The number
goes through the report of the library's error, the reply, the wire and the client's
judgement of the reply, and none of these changes it.

**Which number.**  `ChipError.Carries` says which one an error of the library stands for: that
of the failure or of the device call it comes from, whatever its value and its sign; and two
fixed ones for errors that come with no number.

**What waits for a client.**  No step of the server, and nothing that is done elsewhere, takes
back or changes bytes that wait for a client; more can only come behind them
(`Server.Accrues`).  So the client takes, in order, all that was written to it
(`Loop.replies_prefix_play`), and gets the reply once it has taken what was written before.

**Result.** `Loop.chip_error_arrives`.
-/

namespace LineKeeper

namespace ChipError

/-- The number that an error of the library stands for. -/
inductive Carries : ChipError → Errno → Prop
  | failure (f : Failure) (e : Errno) (hnumber : f.errno? = some e) :
      Carries ⟨some (.failure f)⟩ e
  | call (e : Errno) : Carries ⟨some (.call e)⟩ e
  | argument : Carries ⟨none⟩ Errno.invalidArgument
  | unnumbered (f : Failure) (hnone : f.errno? = none) :
      Carries ⟨some (.failure f)⟩ Errno.inputOutput
  | other (text : String) : Carries ⟨some (.other text)⟩ Errno.inputOutput

theorem carries_iff {why : ChipError} {e : Errno} : why.Carries e ↔ why.errno = e := by
  constructor
  · intro h
    cases h with
    | failure f _ hnumber => simp only [errno, ChipCause.errno, hnumber, Option.getD_some]
    | call => rfl
    | argument => rfl
    | unnumbered f hnone => simp only [errno, ChipCause.errno, hnone, Option.getD_none]
    | other => rfl
  · rintro rfl
    obtain ⟨cause⟩ := why
    cases cause with
    | none => exact .argument
    | some cause =>
        cases cause with
        | failure f =>
            cases hnumber : f.errno? with
            | none =>
                simp only [errno, ChipCause.errno, hnumber, Option.getD_none]
                exact .unnumbered f hnumber
            | some e =>
                simp only [errno, ChipCause.errno, hnumber, Option.getD_some]
                exact .failure f e hnumber
        | call e => exact .call e
        | other text => exact .other text

end ChipError

/-- The bytes that were taken. -/
def Taken.bytes : Taken → List UInt8
  | .data bytes => bytes
  | _ => []

/-- The bytes that were taken stood in front of those that still wait. -/
theorem Link.bytes_take (l : Link) (side : Side) (n : Nat) :
    (l.take side n).1.bytes ++ ((l.take side n).2.side side).inbox = (l.side side).inbox := by
  cases htaken : (l.take side n).1 with
  | data bytes => exact take_append_inbox htaken
  | _ =>
      revert htaken
      unfold take
      split
      · rintro ⟨⟩
      · split
        · cases side <;> exact fun _ => rfl
        · split <;> exact fun _ => rfl

namespace Net

variable {net : Net} {a : Action} {k : Nat}

/-- The bytes that the client on a link takes in an action. -/
def takenBy (net : Net) (k : Nat) : Action → List UInt8
  | .take link n => if link = k then (net.take k .client n).1.bytes else []
  | _ => []

theorem takenBy_of_ne (h : a.link? ≠ some k) : net.takenBy k a = [] := by
  cases a with
  | take link n => exact if_neg fun heq => h (congrArg some heq)
  | _ => rfl

/-- Nothing that is done elsewhere takes back what waits for the client. -/
theorem replies_prefix_of_ne (h : a.link? ≠ some k) :
    net.replies k <+: (net.after a).replies k := by
  by_cases hnone : net.replies k = []
  · rw [hnone]
    exact List.nil_prefix
  · exact replies_after h hnone ▸ List.prefix_refl _

/-- What waits for the client is taken from the front, unless the client closes its end. -/
theorem replies_prefix_after (h : a ≠ .close k) :
    net.replies k <+: net.takenBy k a ++ (net.after a).replies k := by
  by_cases hlink : a.link? = some k
  · rw [Loop.after_of_link? net hlink]
    cases a with
    | take link n =>
        cases hlink
        rw [takenBy, if_pos rfl]
        cases hl : net.links[k]? with
        | none =>
            rw [replies, hl]
            exact List.nil_prefix
        | some l =>
            have htake := l.bytes_take .client n
            rw [take_fst_of_some hl, replies_of_some (links_modify_self _ hl), replies_of_some hl]
            exact htake ▸ List.prefix_refl _
    | send link bytes =>
        cases hlink
        have hkept : ∀ l, (Action.change (.send k bytes) l).client.inbox = l.client.inbox := by
          intro l
          simp only [Action.change]
          split <;> rfl
        exact replies_modify hkept ▸ List.prefix_refl _
    | shutdown link =>
        cases hlink
        have hkept : ∀ l, (Action.change (.shutdown k) l).client.inbox = l.client.inbox :=
          fun _ => rfl
        exact replies_modify hkept ▸ List.prefix_refl _
    | close link =>
        cases hlink
        exact absurd rfl h
    | _ => cases hlink
  · rw [takenBy_of_ne hlink]
    exact replies_prefix_of_ne hlink

end Net

namespace Server

open Loop (linkOf?)

variable {s t u : Server} {id : ClientId} {i : Nat} {e : Readiness} {job : Option Job}

section Accruing

/-- From `s` to `t`, bytes came at most behind those that wait for the clients. -/
def Accrues (s t : Server) : Prop :=
  ∀ i, s.net.replies i <+: t.net.replies i

theorem Accrues.trans (h : Accrues s t) (h' : Accrues t u) : Accrues s u :=
  fun i => (h i).trans (h' i)

theorem accrues_of_replies (h : ∀ i, t.net.replies i = s.net.replies i) : Accrues s t :=
  fun i => h i ▸ List.prefix_refl _

theorem accrues_of_net (h : t.net = s.net) : Accrues s t :=
  accrues_of_replies fun _ => by rw [h]

theorem SameClients.accrues (h : SameClients s t) : Accrues s t :=
  accrues_of_net h.net

theorem accrues_dropClient (s : Server) (id : ClientId) : Accrues s (s.dropClient id) :=
  accrues_of_replies (replies_dropClient s id)

/-- A reply comes behind what waits for its client. -/
theorem accrues_reply (s : Server) (id : ClientId) (m : Message) : Accrues s (s.reply id m) := by
  intro i
  by_cases hlink : linkOf? s id = some i
  · obtain ⟨session, hs, rfl⟩ := Option.map_eq_some_iff.mp hlink
    cases hw : s.writable id with
    | true =>
        obtain ⟨l, l', hl, hl', hinbox⟩ := inbox_reply hs hw m
        rw [Net.replies_of_some hl, Net.replies_of_some hl', hinbox]
        exact List.prefix_append _ _
    | false =>
        rw [reply_of_not_writable hs hw]
        exact accrues_dropClient (s.log (.sendFailed (s.refusal id))) id session.link
  · exact (confined_reply s id m).replies hlink ▸ List.prefix_refl _

theorem accrues_accept (s : Server) : Accrues s s.accept := by
  have hclose : ∀ l : Link, (l.close .server).client.inbox = l.client.inbox := by
    intro l
    unfold Link.close
    split <;> rfl
  refine accrues_of_replies fun i => ?_
  have haccepts := s.accepts
  generalize s.accept = t at haccepts
  cases haccepts with
  | nobody _ => rfl
  | failed _ _ _ _ _ => exact Net.replies_modify fun _ => rfl
  | turnedAway _ _ _ _ _ _ => exact Net.replies_modify hclose
  | seatedBriefly _ _ _ _ _ _ => exact Net.replies_modify hclose
  | seated _ _ _ _ _ => rfl

theorem accrues_stopListening (s : Server) : Accrues s s.stopListening :=
  accrues_of_replies (Net.replies_stopListening s.net)

theorem accrues_netAfter (s : Server) (session : Session) :
    Accrues s { s with net := s.netAfter session } := by
  refine accrues_of_replies fun i => ?_
  show (s.netAfter session).replies i = _
  rw [netAfter_eq]
  refine Net.replies_modify fun l => ?_
  unfold Link.take
  repeat' split
  all_goals rfl

theorem Hearing.accrues {peer : Peer} {r : Except WireError Message}
    (h : Hearing s id peer r t job) : Accrues s t := by
  cases h with
  | answered _ hsame _ => exact hsame.accrues.trans (accrues_reply _ _ _)
  | asked _ hsame _ _ => exact hsame.accrues
  | stopping hsame => exact accrues_of_net hsame.net
  | forbidden report _ => exact (sameClients_log s report).accrues.trans (accrues_dropClient _ id)

theorem Begins.accrues (h : Begins s e t job) : Accrues s t := by
  cases h with
  | accepted _ => exact accrues_accept s
  | signalled _ => exact accrues_of_net s.takeSignals_cases.2.2.2.1
  | timed _ => exact accrues_of_net s.takeExpiry_cases.2.2.2.1
  | @heard id session r _ _ =>
      have hread : Accrues s (s.afterReading id session r) := accrues_netAfter s session
      exact hread.trans (hearing _ id session.peer r).accrues
  | @left id session report _ _ _ _ _ =>
      have hlog : Accrues s (({ s with net := s.netAfter session }).log report) :=
        accrues_netAfter s session
      exact hlog.trans (accrues_dropClient _ id)
  | nothing _ _ => exact accrues_of_net rfl
  | stray _ => exact (sameClients_log s _).accrues

theorem accrues_finish (s : Server) (job : Job) : Accrues s (s.finish job) := by
  obtain ⟨u, r, hsame, -, hfinish⟩ := s.finish_eq_reply job
  rw [hfinish]
  exact hsame.accrues.trans (accrues_reply u _ r)

/-- The end of the server takes nothing back. -/
theorem accrues_drain (s : Server) (why : Stop) : Accrues s (s.drain why) := by
  set began := (s.log (.exiting s.sessions.length s.requests.length)).stopListening with hbegan
  have hbefore : Accrues s (began.releaseAll.dropAllBut why.stopper?) := by
    refine accrues_of_replies fun i => ?_
    rw [dropAllBut, replies_foldl, began.releaseAll_returned.2.net]
    exact Net.replies_stopListening s.net i
  unfold drain
  dsimp only
  rw [← hbegan]
  split
  · next id _ =>
    exact (hbefore.trans (accrues_reply _ id .ok)).trans (accrues_dropClient _ id)
  · exact hbefore

end Accruing

end Server

namespace Loop

open Server

variable {l : Loop} {a : Action} {as bs : List Action} {i : Nat} {reply : Message} {job : Job}
  {client : ClientId} {spec : LineSpec}

section Waiting

theorem accrues_step (l : Loop) : Accrues l.server l.step.server := by
  obtain ⟨hm, -⟩ | ⟨job, -, -, -, hm⟩ | ⟨-, -, -, hm⟩ | ⟨-, -, -, -, -, -, hm⟩ |
      ⟨e, es, -, -, -, -, hbegins, -⟩ | ⟨why, -, -, -, -, hm⟩ | ⟨s, -, -, -, -, hupdate, hm⟩ |
      ⟨e, -, -, -, -, -, hm⟩ := l.steps
  · exact accrues_of_net (by rw [hm])
  · rw [hm]
    exact accrues_finish l.server job
  · exact accrues_of_net (by rw [hm]; rfl)
  · exact accrues_of_net (by rw [hm])
  · exact hbegins.accrues
  · rw [hm]
    exact accrues_drain l.server why
  · rw [hm]
    exact (sameClients_updateIdle hupdate).accrues
  · rw [hm]
    exact accrues_stopListening l.server

/-- The bytes that the client on link `i` takes while actions happen. -/
def takenAt (i : Nat) : Loop → List Action → List UInt8
  | _, [] => []
  | l, a :: as => l.server.net.takenBy i a ++ takenAt i (l.act a) as

theorem replies_prefix_act (h : a ≠ .close i) :
    l.server.net.replies i <+: l.server.net.takenBy i a ++ (l.act a).server.net.replies i := by
  by_cases ha : a = .serve
  · subst ha
    exact accrues_step l i
  · rw [net_act l ha]
    exact Net.replies_prefix_after h

/-- What waits for a client is what it takes next, unless it closes its end. -/
theorem replies_prefix_play (h : .close i ∉ as) :
    l.server.net.replies i <+: takenAt i l as ++ (l.play as).server.net.replies i := by
  induction as generalizing l with
  | nil => exact List.prefix_refl _
  | cons a as ih =>
      rw [List.mem_cons, not_or] at h
      have hlater := ih (l := l.act a) h.2
      rw [play_cons, takenAt, List.append_assoc]
      exact (replies_prefix_act (Ne.symm h.1)).trans ((List.prefix_append_right_inj _).mpr hlater)

end Waiting

section Concluding

/-- The loop after the library has given `outcome` for the line request that waited, and after the
client was answered. -/
def concluded (l : Loop) (job : Job) (outcome : Except ChipError Nat × Device) : Loop :=
  ({ l with job := none }).withServer
    (l.server.conclude job (ChipError.reported outcome.1) outcome.2)

/-- Carrying out a line request is to attempt it through the library, and to conclude it. -/
theorem step_eq_concluded (hend : l.ending = none) (hjob : l.job = some job)
    (hpasses : l.isStuck = false) :
    l.step = l.concluded job (l.server.device.attempt job.spec) := by
  rw [step_of_job hend hjob hpasses, concluded, finish, Device.request_eq_attempt]

/-- The request of a client that has been read waits, whatever happens around the server. -/
theorem job_of_hears? (hheard : l.hears? = some (client, .ok (.request spec)))
    (haround : .serve ∉ bs) :
    ∃ job, (l.step.play bs).job = some job ∧ job.client = client ∧ job.spec = spec ∧
      (l.step.play bs).ending = none ∧
      linkOf? (l.step.play bs).server client = linkOf? l.server client := by
  obtain ⟨hend, -, -, -, es, session, -, -, hs, hstep⟩ := eq_of_hears? hheard
  have hbetween := around_play l.step haround
  refine ⟨⟨client, session.peer.pid, spec⟩, ?_, rfl, rfl, ?_, ?_⟩
  · rw [hbetween.job, hstep]
    rfl
  · rw [hbetween.ending, hstep]
    exact hend
  · rw [hbetween.linkOf?, hstep]
    rfl

/-- What a refusal by the library leaves with the client that asked. -/
theorem replies_concluded {why : ChipError} {device : Device}
    (hlink : linkOf? l.server job.client = some i) (hw : l.server.writable job.client = true) :
    (l.concluded job (.error why, device)).server.net.replies i =
      l.server.net.replies i ++ (Message.error why.errno).encode := by
  obtain ⟨session, hs, rfl⟩ := Option.map_eq_some_iff.mp hlink
  have hsame : SameClients l.server ((l.server.withDevice device).log (.refused why.errno)) :=
    (sameClients_withDevice l.server device).trans (sameClients_log _ _)
  obtain ⟨before, after, hbefore, hafter, hinbox⟩ :=
    inbox_reply (hsame.sessions ▸ hs) ((hsame.writable job.client).trans hw)
      (.ofFailure (.system why.errno))
  rw [hsame.net] at hbefore
  have hreplies : (l.concluded job (.error why, device)).server.net.replies session.link =
      after.client.inbox := Net.replies_of_some hafter
  rw [hreplies, hinbox, Net.replies_of_some hbefore]
  rfl

end Concluding

section Arriving

/-- The client on link `i` gets the error number if it takes its reply now, whatever it asked for. -/
structure Arrives (m : Loop) (i : Nat) (e : Errno) : Prop where
  reply : m.replyAt i = .ok (.error e)
  result : ∀ c, m.resultOf i c = .error (.server e)
  number : ∀ c f, m.resultOf i c = .error f → f.errno? = some e

theorem arrives_of_front {m : Loop} {e : Errno}
    (h : (Message.error e).encode <+: m.server.net.replies i) : Arrives m i e := by
  refine ⟨replyAt_of_front h, resultOf_of_front h, ?_⟩
  intro c f hf
  cases (resultOf_of_front h c).symm.trans hf
  rfl

/-- **The number arrives.** A line request has been read from the client on link `i`, and has waited
while `bs` happened around the server.  Then it is concluded with what the library gives for it.
If that is an error, and the client can be written to, then the client gets the number that the
error stands for, whatever happens until then, once it has taken what had waited for it before. -/
theorem chip_error_arrives (hheard : l.hears? = some (client, .ok (.request spec)))
    (hlink : linkOf? l.server client = some i) (haround : .serve ∉ bs) :
    ∃ job, (l.step.play bs).job = some job ∧ job.client = client ∧ job.spec = spec ∧
      ((l.step.play bs).isStuck = false →
        (l.step.play bs).step =
          (l.step.play bs).concluded job ((l.step.play bs).server.device.attempt spec)) ∧
      ∀ (why : ChipError) (e : Errno) (device : Device) (as : List Action),
        why.Carries e →
        (l.step.play bs).server.writable client = true →
        .close i ∉ as →
        takenAt i ((l.step.play bs).concluded job (.error why, device)) as =
          (l.step.play bs).server.net.replies i →
        Arrives (((l.step.play bs).concluded job (.error why, device)).play as) i e := by
  obtain ⟨job, hjob, rfl, rfl, hend, hsame⟩ := job_of_hears? hheard haround
  rw [hlink] at hsame
  refine ⟨job, hjob, rfl, rfl, step_eq_concluded hend hjob, ?_⟩
  intro why e device as hcarries hw hopen htaken
  obtain rfl := ChipError.carries_iff.mp hcarries
  have hwaits := replies_prefix_play (l := (l.step.play bs).concluded job (.error why, device))
    hopen
  rw [replies_concluded hsame hw, htaken, List.prefix_append_right_inj] at hwaits
  exact arrives_of_front hwaits

/-- A chip that cannot be opened, for a reason that has no name. -/
def oddChips : Chips :=
  ⟨[⟨"/dev/gpiochip0", [none], some (-7), none, [], none, []⟩], none⟩

/-- A server that is about to read a request for a line of this chip from its first client. -/
def oddlyAsked : Loop :=
  (start oddChips 0).play [.serve, .connect (.usual ⟨0, 0, ""⟩), .serve, .serve, .serve,
    .send 0 (Message.request firstLine).encode, .serve]

/-- The number of this chip reaches the client, negative as it is; and any error of the library that
comes from something unknown would reach it as an input/output error. -/
theorem odd_error_arrives :
    Arrives (oddlyAsked.step.step.play [.serve]) 0 (-7) ∧
      ∃ job, oddlyAsked.step.job = some job ∧
        Arrives (oddlyAsked.step.concluded job
          (.error ⟨some (.other "unknown")⟩, oddlyAsked.step.server.device)) 0
          Errno.inputOutput := by
  have hheard : oddlyAsked.hears? = some (⟨0⟩, .ok (.request firstLine)) := by decide +kernel
  have hlink : linkOf? oddlyAsked.server ⟨0⟩ = some 0 := by decide +kernel
  have haround : Action.serve ∉ ([] : List Action) := List.not_mem_nil
  obtain ⟨job, hjob, -, -, hstep, harrives⟩ := chip_error_arrives hheard hlink haround
  have hw : oddlyAsked.step.server.writable ⟨0⟩ = true := by decide +kernel
  have hnothing : oddlyAsked.step.server.net.replies 0 = [] := by decide +kernel
  have hattempt : oddlyAsked.step.server.device.attempt firstLine =
      (.error (.notOpened (.system (-7))), oddlyAsked.step.server.device) := by
    decide +kernel
  have hopen : oddlyAsked.step.isStuck = false := by decide +kernel
  rw [play_nil] at hjob hstep harrives
  constructor
  · rw [hstep hopen, hattempt]
    exact harrives _ _ _ [.serve] (.failure _ _ rfl) hw (by decide) hnothing.symm
  · exact ⟨job, hjob, harrives _ _ _ [] (.other _) hw List.not_mem_nil hnothing.symm⟩

end Arriving

end Loop
end LineKeeper
