import LineKeeper.Proofs.Accounts
import LineKeeper.Proofs.Building
import LineKeeper.Proofs.Inputs
import LineKeeper.Proofs.Retention

/-!
# What the device is asked for

A client asks the server for lines, and the server asks the device.  Of what the server has
done, its `marks` keep these two things, in order: each message that it read, and each line
request that it made on the device.

A line request is made for the message that was read last, if at all: only for a REQUEST, at
most once, and it `Carries` what the REQUEST says (`Sourced`).  A frame that holds a message
as a client writes it is read as this message (`Brings.heard`), so what the device is asked
for is what the client asked for.
-/

namespace LineKeeper

/-- The line request that reached the device with a call, if one did. -/
def DeviceCall.request? : DeviceCall → Option LineRequest
  | refused r _ => some r
  | granted r _ => some r
  | released _ => none

namespace LineRequest

/-- The request asks for what a client's request says, with as much of the label as the device
keeps. -/
structure Carries (r : LineRequest) (spec : LineSpec) : Prop where
  chip : r.chip = spec.chipPath.text
  offsets : r.offsets = spec.offsets.list
  values : r.levels.map levelByte = spec.values
  count : r.levels.length = r.offsets.length
  output : r.flags.testBit 1 = spec.output
  input : r.flags.testBit 0 = !spec.output
  activeLow : r.flags.testBit 2 = spec.activeLow
  labelled : spec.consumer.text ≠ "" →
    r.consumer = (Text.Utf8.encode spec.consumer.text).take 31
  unlabelled : spec.consumer.text = "" → r.consumer = Text.Utf8.encode "gpioctl"

theorem testBit_flags (r : LineRequest) :
    r.flags.testBit 0 = !r.output ∧ r.flags.testBit 1 = r.output ∧
      r.flags.testBit 2 = r.activeLow := by
  unfold flags
  cases r.output <;> cases r.activeLow <;> decide

theorem carries_ofSpec (spec : LineSpec) : (ofSpec spec).Carries spec where
  chip := rfl
  offsets := rfl
  values := rfl
  count := spec.levels_length
  output := (ofSpec spec).testBit_flags.2.1
  input := (ofSpec spec).testBit_flags.1
  activeLow := (ofSpec spec).testBit_flags.2.2
  labelled := fun h => by
    simp only [ofSpec, h, if_false, consumerWidth]
  unlabelled := fun h => by
    simp only [ofSpec, h, if_true]
    decide

end LineRequest

/-- A line request reaches the device at most once, as the client's request asks. -/
theorem Device.journal_request (d : Device) (spec : LineSpec) :
    (d.request spec).2.journal = d.journal ∨
      ∃ call : DeviceCall, call.request? = some (.ofSpec spec) ∧
        (d.request spec).2.journal = d.journal ++ [call] := by
  simp only [request]
  split
  · exact .inl rfl
  · rw [ask_eq]
    split
    · exact .inr ⟨_, rfl, rfl⟩
    · exact .inr ⟨_, rfl, rfl⟩

/-- Where enough bytes wait for the server, it takes as many as it asks for. -/
theorem Net.take_of_unread {net : Net} {k n : Nat} {bytes rest : List UInt8}
    (h : net.unread k = bytes ++ rest) (hbytes : bytes.length = n) (hn : 0 < n) :
    (net.take k .server n).1 = .data bytes := by
  have hne : bytes ≠ [] := List.length_pos_iff.mp (hbytes ▸ hn)
  cases hl : net.links[k]? with
  | none =>
      rw [unread, hl] at h
      exact absurd (List.append_eq_nil_iff.mp h.symm).1 hne
  | some l =>
      rw [unread_of_some hl] at h
      have hwaits : (!(l.side .server).inbox.isEmpty) = true := by
        rw [Bool.not_eq_true', List.isEmpty_eq_false_iff]
        show l.server.inbox ≠ []
        rw [h]
        exact List.append_ne_nil_of_left_ne_nil hne rest
      have hfront : (l.side .server).inbox.take n = bytes := by
        show l.server.inbox.take n = bytes
        rw [h, ← hbytes, List.take_left]
      rw [take_fst_of_some hl, Link.take, if_pos hwaits, hfront]

/-- A message that was read, or a line request that was made on the device. -/
inductive Mark
  | heard (client : ClientId) (r : Except WireError Message)
  | ordered (r : LineRequest)

/-- What an effect says about messages and line requests. -/
def Effect.mark? : Effect → Option Mark
  | .read client r => some (.heard client r)
  | .device call => call.request?.map .ordered
  | _ => none

namespace Mark

variable {ms before after earlier : List Mark} {client : ClientId}
  {r : Except WireError Message} {order : LineRequest}

/-- The line requests that were made before the next message was read. -/
def leading : List Mark → List LineRequest
  | .ordered order :: ms => order :: leading ms
  | _ => []

section Sourced

/-- Every line request follows the REQUEST that it carries, with nothing in between. -/
def Sourced (ms : List Mark) : Prop :=
  ∀ before order after, ms = before ++ .ordered order :: after →
    ∃ earlier client spec, before = earlier ++ [.heard client (.ok (.request spec))] ∧
      order.Carries spec

theorem sourced_nil : Sourced [] := by
  intro before order after h
  cases before <;> cases h

/-- An element of a list with one more at the end is that one or stands before it. -/
theorem eq_or_of_concat_eq {m m' : Mark} (h : ms ++ [m] = before ++ m' :: after) :
    before = ms ∧ m' = m ∨ ∃ middle, after = middle ++ [m] ∧ ms = before ++ m' :: middle := by
  rcases List.eq_nil_or_concat after with rfl | ⟨middle, last, rfl⟩
  · obtain ⟨rfl, hlast⟩ := List.append_inj' h rfl
    exact .inl ⟨rfl, (List.singleton_inj.mp hlast).symm⟩
  · rw [List.concat_eq_append, ← List.cons_append, ← List.append_assoc] at h
    obtain ⟨hfront, hlast⟩ := List.append_inj' h rfl
    exact .inr ⟨middle, by rw [List.concat_eq_append, List.singleton_inj.mp hlast], hfront⟩

theorem Sourced.heard (h : Sourced ms) (client : ClientId) (r : Except WireError Message) :
    Sourced (ms ++ [.heard client r]) := by
  intro before order after hsplit
  rcases eq_or_of_concat_eq hsplit with ⟨-, hmark⟩ | ⟨middle, -, hmiddle⟩
  · cases hmark
  · exact h before order middle hmiddle

theorem Sourced.ordered {spec : LineSpec}
    (h : Sourced (earlier ++ [.heard client (.ok (.request spec))]))
    (hcarries : order.Carries spec) :
    Sourced (earlier ++ [.heard client (.ok (.request spec))] ++ [.ordered order]) := by
  intro before order' after hsplit
  rcases eq_or_of_concat_eq hsplit with ⟨rfl, hmark⟩ | ⟨middle, -, hmiddle⟩
  · cases hmark
    exact ⟨earlier, client, spec, rfl, hcarries⟩
  · exact h before order' middle hmiddle

theorem Sourced.leading_nil (h : Sourced ms) : leading ms = [] := by
  cases ms with
  | nil => rfl
  | cons m ms =>
      cases m with
      | heard client r => rfl
      | ordered order =>
          obtain ⟨earlier, client, spec, hnil, -⟩ := h [] order ms rfl
          cases earlier <;> cases hnil

/-- Between a message and the next there is at most one line request, and none if the message is
no REQUEST. -/
theorem Sourced.leading_heard (h : Sourced (before ++ .heard client r :: after)) :
    leading after = [] ∨ ∃ spec order, r = .ok (.request spec) ∧ leading after = [order] ∧
      order.Carries spec := by
  match after, h with
  | [], _ => exact .inl rfl
  | .heard _ _ :: _, _ => exact .inl rfl
  | .ordered order :: rest, h =>
    obtain ⟨earlier, other, spec, hbefore, hcarries⟩ :=
      h (before ++ [.heard client r]) order rest (by rw [List.append_assoc]; rfl)
    obtain ⟨-, hmark⟩ := List.append_inj' hbefore rfl
    cases hmark
    refine .inr ⟨spec, order, rfl, ?_, hcarries⟩
    match rest, h with
    | [], _ => rfl
    | .heard _ _ :: _, _ => rfl
    | .ordered order' :: rest, h =>
      obtain ⟨earlier', other', spec', hbefore', -⟩ :=
        h (before ++ [.heard client (.ok (.request spec)), .ordered order]) order' rest
          (by rw [List.append_assoc]; rfl)
      rw [List.append_cons] at hbefore'
      obtain ⟨-, hmark⟩ := List.append_inj' hbefore' rfl
      cases hmark

end Sourced

end Mark

namespace Server

variable {s t : Server} {e : Readiness} {id : ClientId} {session : Session}

section Marks

/-- The messages that were read and the line requests that were made, in order. -/
def marks (s : Server) : List Mark :=
  s.trace.filterMap Effect.mark?

theorem marks_record (s : Server) (e : Effect) :
    (s.record e).marks = s.marks ++ e.mark?.toList := by
  simp only [marks, record, List.filterMap_append]
  cases h : e.mark? with
  | none => rw [List.filterMap_cons_none h, List.filterMap_nil, Option.toList_none]
  | some m => rw [List.filterMap_cons_some h, List.filterMap_nil, Option.toList_some]

theorem marks_log (s : Server) (report : LogEvent) : (s.log report).marks = s.marks := by
  rw [log, marks_record]
  exact List.append_nil _

/-- The device's journal tells which line requests were made. -/
theorem marks_withDevice (s : Server) {d : Device} {calls : List DeviceCall}
    (h : d.journal = s.device.journal ++ calls) :
    (s.withDevice d).marks =
      s.marks ++ calls.filterMap fun call => call.request?.map .ordered := by
  simp only [marks, withDevice, h, List.drop_left, List.filterMap_append, List.filterMap_map]
  rfl

theorem marks_giveBack (s : Server) (handle : Nat) :
    (s.withDevice (s.device.release handle)).marks = s.marks := by
  rw [marks_withDevice s rfl]
  exact List.append_nil _

theorem marks_dropClient (s : Server) (id : ClientId) : (s.dropClient id).marks = s.marks := by
  unfold dropClient
  split
  · rfl
  · show ((Server.log _ _).record _).marks = _
    rw [marks_record, marks_log]
    exact List.append_nil _

theorem marks_reply (s : Server) (id : ClientId) (m : Message) :
    (s.reply id m).marks = s.marks := by
  unfold reply
  split
  · rfl
  · split
    · show (s.record _).marks = _
      rw [marks_record]
      exact List.append_nil _
    · rw [marks_dropClient, marks_log]

theorem marks_displace (s : Server) (id : RequestId) : (s.displace id).marks = s.marks := by
  unfold displace
  split
  · rfl
  · exact marks_giveBack s _

/-- Carrying out a line request makes it on the device, or finds out before that it cannot be
made. -/
theorem marks_finish (s : Server) (job : Job) :
    (s.finish job).marks = s.marks ∨
      (s.finish job).marks = s.marks ++ [.ordered (.ofSpec job.spec)] := by
  have hasked : (s.finish job).marks = (s.withDevice (s.device.request job.spec).2).marks := by
    rw [finish_eq]
    dsimp only
    split
    · rw [marks_reply, marks_log]
      exact marks_displace _ _
    · rw [marks_reply, marks_log]
  rw [hasked]
  rcases s.device.journal_request job.spec with hsame | ⟨call, hcall, hjournal⟩
  · left
    rw [marks_withDevice s (hsame.trans (List.append_nil _).symm)]
    exact List.append_nil _
  · right
    rw [marks_withDevice s hjournal, List.filterMap_cons, hcall]
    rfl

theorem marks_release (s : Server) (client : ClientId) (id : RequestId) :
    (s.release client id).marks = s.marks := by
  unfold release
  split
  · rw [marks_reply, marks_log]
  · rw [marks_reply]
    exact (marks_giveBack _ _).trans (marks_log _ _)

/-- To act on a message is not to ask the device for lines, and only a REQUEST leaves that to be
done. -/
theorem marks_dispatch (s : Server) (client : ClientId) (peer : Peer)
    (r : Except WireError Message) :
    (s.dispatch client peer r).1.marks = s.marks ∧
      ∀ job, (s.dispatch client peer r).2 = some job →
        job.client = client ∧ r = .ok (.request job.spec) := by
  have hdrop : ∀ report : LogEvent, ((s.log report).dropClient client).marks = s.marks := by
    intro report
    rw [marks_dropClient, marks_log]
  rcases r with e | m
  · exact ⟨hdrop _, by rintro job ⟨⟩⟩
  · cases m with
    | ping => exact ⟨(marks_reply _ _ _).trans (marks_log _ _), by rintro job ⟨⟩⟩
    | stop => exact ⟨marks_log s _, by rintro job ⟨⟩⟩
    | request spec => exact ⟨marks_log s _, by rintro job ⟨⟩; exact ⟨rfl, rfl⟩⟩
    | release id => exact ⟨marks_release s client id, by rintro job ⟨⟩⟩
    | ok => exact ⟨hdrop _, by rintro job ⟨⟩⟩
    | error n => exact ⟨hdrop _, by rintro job ⟨⟩⟩
    | reqOk id => exact ⟨hdrop _, by rintro job ⟨⟩⟩

theorem marks_updateIdle (h : s.updateIdle = .ok t) : t.marks = s.marks := by
  unfold updateIdle at h
  split at h
  · cases h
  · cases h
    exact marks_log s _
  · cases h
    exact marks_log s _
  · cases h
    rfl

theorem marks_takeSignals (s : Server) : s.takeSignals.marks = s.marks := by
  unfold takeSignals
  split
  · rfl
  · exact marks_log s _

theorem marks_takeExpiry (s : Server) : s.takeExpiry.marks = s.marks := by
  unfold takeExpiry
  split
  · rfl
  · dsimp only
    split
    · exact marks_log _ _
    · rfl

theorem marks_accept (s : Server) : s.accept.marks = s.marks := by
  refine s.accepts.filterMap_trace ?_
  rintro e ⟨⟩ <;> rfl

theorem marks_foldl {α : Type} (f : Server → α → Server)
    (hf : ∀ s a, (f s a).marks = s.marks) (s : Server) (as : List α) :
    (as.foldl f s).marks = s.marks := by
  induction as generalizing s with
  | nil => rfl
  | cons a as ih => rw [List.foldl_cons, ih, hf]

theorem marks_stopListening (s : Server) : s.stopListening.marks = s.marks := by
  show (s.record _).marks = _
  rw [marks_record]
  exact List.append_nil _

theorem marks_drain (s : Server) (why : Stop) : (s.drain why).marks = s.marks := by
  have hreleased : ∀ (s : Server) (e : RequestId × Held Nat),
      (s.releaseHeld e).marks = s.marks := fun s e =>
    (marks_giveBack _ _).trans (marks_log s _)
  have hcleared : ((((s.log (.exiting s.sessions.length s.requests.length)).stopListening
      |>.releaseAll).dropAllBut why.stopper?)).marks = s.marks := by
    rw [dropAllBut, marks_foldl _ marks_dropClient]
    exact (marks_foldl _ hreleased _ _).trans ((marks_stopListening _).trans (marks_log s _))
  unfold drain
  dsimp only
  rw [marks_log]
  split
  · rw [marks_dropClient, marks_reply, hcleared]
  · exact hcleared

end Marks

end Server

namespace Loop

open Server Mark

variable {l m : Loop} {chips : Chips} {period : Nat} {client : ClientId}

section Orders

/-- What a step adds to the marks. -/
inductive Marking (l m : Loop) : Prop
  | nothing (hmarks : m.server.marks = l.server.marks) (hjob : m.job = l.job ∨ m.job = none)
  | heard (client : ClientId) (r : Except WireError Message)
      (hmarks : m.server.marks = l.server.marks ++ [.heard client r])
      (hleft : ∀ job, m.job = some job → job.client = client ∧ r = .ok (.request job.spec))
  | ordered (job : Job) (hjob : l.job = some job)
      (hmarks : m.server.marks = l.server.marks ++ [.ordered (.ofSpec job.spec)])
      (hdone : m.job = none)

theorem marking_begins {e : Readiness} (h : Begins l.server e m.server m.job) : Marking l m := by
  obtain ⟨t, ht⟩ : ∃ t, m.server = t := ⟨_, rfl⟩
  obtain ⟨job, hj⟩ : ∃ job, m.job = job := ⟨_, rfl⟩
  rw [ht, hj] at h
  cases h with
  | accepted _ => exact .nothing (ht ▸ marks_accept _) (.inr hj)
  | signalled _ => exact .nothing (ht ▸ marks_takeSignals _) (.inr hj)
  | timed _ => exact .nothing (ht ▸ marks_takeExpiry _) (.inr hj)
  | @heard id session r _ _ =>
      obtain ⟨hmarks, hleft⟩ :=
        marks_dispatch (l.server.afterReading id session r) id session.peer r
      refine .heard id r ?_ fun job hjob' => hleft job (hj ▸ hjob')
      rw [ht, hmarks]
      exact marks_record _ _
  | @left id session report _ _ _ _ _ =>
      refine .nothing ?_ (.inr hj)
      rw [ht, afterLeaving, marks_dropClient, marks_log]
      rfl
  | nothing _ _ => exact .nothing (by rw [ht]) (.inr hj)
  | stray _ => exact .nothing (ht ▸ marks_log _ _) (.inr hj)

theorem marking_step (l : Loop) : Marking l l.step := by
  obtain ⟨hm, -⟩ | ⟨job, -, hjob, -, hm⟩ | ⟨-, hjob, -, hm⟩ | ⟨e, es, -, hjob, -, -, hm⟩ |
      ⟨e, es, -, -, -, -, hbegins, -⟩ | ⟨why, -, -, -, -, hm⟩ |
      ⟨s, -, hjob, -, -, hupdate, hm⟩ | ⟨e, -, -, -, -, -, hm⟩ := l.steps
  · exact .nothing (by rw [hm]) (.inl (by rw [hm]))
  · rcases l.server.marks_finish job with hsame | hmarks
    · exact .nothing (by rw [hm]; exact hsame) (.inr (by rw [hm]; rfl))
    · exact .ordered job hjob (by rw [hm]; exact hmarks) (by rw [hm]; rfl)
  · exact .nothing (by rw [hm]; rfl) (.inl (by rw [hm]; rfl))
  · exact .nothing (by rw [hm]) (.inl (by rw [hm]))
  · exact marking_begins hbegins
  · exact .nothing (by rw [hm]; exact marks_drain _ why) (.inr (by rw [hm]; rfl))
  · exact .nothing (by rw [hm]; exact marks_updateIdle hupdate) (.inl (by rw [hm]; rfl))
  · exact .nothing (by rw [hm]; exact marks_stopListening _) (.inr (by rw [hm]; rfl))

/-- Line requests are made for REQUESTs only, and one that waits is for the message that was read
last. -/
structure Orderly (l : Loop) : Prop where
  sourced : Sourced l.server.marks
  job : ∀ job, l.job = some job →
    ∃ earlier, l.server.marks = earlier ++ [.heard job.client (.ok (.request job.spec))]

theorem Orderly.marking (h : Orderly l) (hlm : Marking l m) : Orderly m := by
  cases hlm with
  | nothing hmarks hjob =>
      refine ⟨hmarks ▸ h.sourced, fun job hm => ?_⟩
      rcases hjob with hsame | hnone
      · exact hmarks ▸ h.job job (hsame ▸ hm)
      · rw [hnone] at hm
        cases hm
  | heard client r hmarks hleft =>
      refine ⟨hmarks ▸ h.sourced.heard client r, fun job hm => ?_⟩
      obtain ⟨rfl, rfl⟩ := hleft job hm
      exact ⟨l.server.marks, hmarks⟩
  | ordered job hjob hmarks hdone =>
      obtain ⟨earlier, hlast⟩ := h.job job hjob
      refine ⟨?_, fun job' hm => ?_⟩
      · rw [hmarks, hlast]
        exact (hlast ▸ h.sourced).ordered (LineRequest.carries_ofSpec job.spec)
      · rw [hdone] at hm
        cases hm

theorem Played.orderly (h : Played chips period l) : Orderly l := by
  refine h.induction ⟨sourced_nil, by rintro job ⟨⟩⟩ ?_
  intro m a _ hm
  by_cases ha : a = .serve
  · rw [ha]
    exact hm.marking (marking_step m)
  · have haround := around_act m ha
    refine hm.marking (.nothing ?_ (.inl haround.job))
    rw [marks, haround.trace, marks]

theorem marks_grow (l : Loop) (bs : List Action) :
    l.server.marks <+: (l.play bs).server.marks :=
  (run_play l bs).trace.filterMap Effect.mark?

/-- The event at hand is about a client whose unread bytes begin with a message as it is
written. -/
structure Brings (l : Loop) (client : ClientId) (msg : Message) : Prop where
  ending : l.ending = none
  job : l.job = none
  stop : l.server.stop = none
  event : ∃ e es, l.phase = .handling (e :: es) ∧
    Receiver.ofToken? e.token = some (.client client)
  unread : ∃ k rest, linkOf? l.server client = some k ∧
    l.server.net.unread k = msg.encode ++ rest

/-- What a client has written is what the next step reads. -/
theorem Brings.hears? {msg : Message} (h : l.Brings client msg) :
    l.hears? = some (client, .ok msg) := by
  obtain ⟨e, es, hphase, htoken⟩ := h.event
  obtain ⟨k, rest, hlink, hunread⟩ := h.unread
  obtain ⟨session, hs, rfl⟩ := Option.map_eq_some_iff.mp hlink
  have htaken := Net.take_of_unread hunread msg.encode_length (by decide)
  simp only [Loop.hears?, h.ending, h.job, h.stop, hphase, hears?_client htoken hs, htaken,
    Message.decode_encode]

theorem marks_step_of_hears? {r : Except WireError Message} (h : l.hears? = some (client, r)) :
    l.step.server.marks = l.server.marks ++ [.heard client r] := by
  obtain ⟨-, -, -, e, es, session, -, -, -, hstep⟩ := eq_of_hears? h
  rw [hstep]
  exact (marks_dispatch _ client session.peer r).1.trans (marks_record _ _)

/-- Each message that the server reads leads to at most one line request before the next is read,
and to none if it is no REQUEST.  The line request asks for what the REQUEST says, and a
REQUEST that a client has written is read as it was written. -/
theorem Played.orders (hl : Played chips period l) :
    leading l.server.marks = [] ∧
      (∀ before client r after, l.server.marks = before ++ .heard client r :: after →
        leading after = [] ∨ ∃ spec order, r = .ok (.request spec) ∧ leading after = [order] ∧
          order.Carries spec) ∧
      ∀ client msg, l.Brings client msg → ∀ bs, ∃ after,
        (l.step.play bs).server.marks = l.server.marks ++ .heard client (.ok msg) :: after ∧
          (leading after = [] ∨ ∃ spec order, msg = .request spec ∧ leading after = [order] ∧
            order.Carries spec) := by
  refine ⟨hl.orderly.sourced.leading_nil, ?_, ?_⟩
  · intro before client r after hmarks
    exact (hmarks ▸ hl.orderly.sourced).leading_heard
  · intro client msg hbrings bs
    obtain ⟨after, hafter⟩ := marks_grow l.step bs
    rw [marks_step_of_hears? hbrings.hears?, List.append_assoc] at hafter
    have hsourced := (hl.step.play bs).orderly.sourced
    rw [← hafter] at hsourced
    refine ⟨after, hafter.symm, ?_⟩
    rcases hsourced.leading_heard with hnone | ⟨spec, order, hmsg, hone⟩
    · exact .inl hnone
    · exact .inr ⟨spec, order, Except.ok.inj hmsg, hone⟩

/-- Both lines of a chip as outputs, the second one first, with a label of 32 bytes. -/
def levers : LineSpec where
  chipPath := FieldText.firstChip
  consumer := ⟨"the levers of the third signalé", by decide, by decide⟩
  offsets := ⟨[1, 0], by decide, by decide, by decide⟩
  levels := [true, false]
  activeLow := true
  output := true
  levels_length := by decide

/-- A server that is about to read the request for them. -/
def beckoned : Loop :=
  (start Chips.twoLines 0).play [.serve, .connect (.usual ⟨0, 0, ""⟩), .serve, .serve, .serve,
    .send 0 (Message.request levers).encode, .serve]

/-- The lines are asked for as they were, with a label that ends in the middle of a letter. -/
theorem beckoned_orders :
    beckoned.Brings ⟨0⟩ (.request levers) ∧ ∃ after order,
      (beckoned.step.play [.serve, .serve]).server.marks =
        beckoned.server.marks ++ .heard ⟨0⟩ (.ok (.request levers)) :: after ∧
      leading after = [order] ∧ order.Carries levers := by
  have hplayed : Played Chips.twoLines 0 beckoned := ⟨_, rfl⟩
  have hbrings : beckoned.Brings ⟨0⟩ (.request levers) := by
    refine ⟨by decide +kernel, by decide +kernel, by decide +kernel,
      ⟨⟨16, false⟩, [], by decide +kernel, by decide +kernel⟩,
      ⟨0, [], by decide +kernel, by decide +kernel⟩⟩
  refine ⟨hbrings, ?_⟩
  obtain ⟨after, hafter, hnone | ⟨spec, order, hmsg, hone, hcarries⟩⟩ :=
    hplayed.orders.2.2 ⟨0⟩ _ hbrings [.serve, .serve]
  · have hsome : (leading ((beckoned.step.play [.serve, .serve]).server.marks.drop
        (beckoned.server.marks.length + 1))).isEmpty = false := by decide +kernel
    rw [hafter, List.append_cons, List.drop_left' (by rw [List.length_append]; rfl), hnone]
      at hsome
    cases hsome
  · obtain rfl := Message.request.inj hmsg
    exact ⟨after, order, hafter, hone, hcarries⟩

end Orders

end Loop

end LineKeeper
