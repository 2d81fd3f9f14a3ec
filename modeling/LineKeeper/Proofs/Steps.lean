import LineKeeper.Proofs.ServerSteps
import LineKeeper.Proofs.Talk

/-!
# What one step of the loop can do

Handling an event is one of seven things (`Server.Begins`), and a step of the loop is one
of eight (`Loop.Steps`).  Both lists are complete, `Server.begins` and `Loop.steps`, and
each entry says all that is done, so an invariant of the loop is proved entry by entry
without looking into the handlers again.

`hears?` says what message an event, or the next step, will make the server read.
-/

namespace LineKeeper

namespace Server

open Loop (linkOf?)

variable {s t : Server} {e : Readiness} {id : ClientId} {session : Session}
  {r : Except WireError Message}

section Hearing

/-- What an event makes the server read, and the client it comes from. -/
def hears? (s : Server) (e : Readiness) : Option (ClientId × Except WireError Message) :=
  match Receiver.ofToken? e.token with
  | some (.client id) =>
      match linkOf? s id with
      | none => none
      | some k =>
          match (s.net.take k .server frameSize).1 with
          | .data bytes => some (id, Message.decode bytes)
          | _ => none
  | _ => none

/-- The connections after the server has taken what a client has sent. -/
def netAfter (s : Server) (session : Session) : Net :=
  (s.net.take session.link .server frameSize).2

/-- The server after it has read a message from a client. -/
def afterReading (s : Server) (id : ClientId) (session : Session)
    (r : Except WireError Message) : Server :=
  ({ s with net := s.netAfter session }).record (.read id r)

/-- The server after it has found that a client is gone. -/
def afterLeaving (s : Server) (id : ClientId) (session : Session) (report : LogEvent) : Server :=
  (({ s with net := s.netAfter session }).log report).dropClient id

theorem netAfter_eq (s : Server) (session : Session) :
    s.netAfter session =
      s.net.modify session.link fun l => (l.take .server frameSize).2 := by
  rw [netAfter, Net.take_eq]

/-- Taking what a client has sent touches its link only. -/
theorem confined_netAfter (hs : s.sessions.get? id = some session) :
    Confined id s { s with net := s.netAfter session } where
  table := .inl ⟨rfl, rfl⟩
  links := by
    intro k hk
    rw [linkOf?_of_get? hs] at hk
    show (s.netAfter session).links[k]? = _
    rw [netAfter_eq]
    exact Net.links_modify_of_ne _ fun hks => hk (congrArg some hks.symm)
  count := by
    show (s.netAfter session).links.length = _
    rw [netAfter_eq]
    exact Net.length_modify _ _ _
  waiting := by
    show (s.netAfter session).waiting = _
    rw [netAfter_eq]
    rfl
  listens := by
    show (s.netAfter session).listens = _
    rw [netAfter_eq]
    rfl
  signals := rfl
  talk := ⟨[], (List.append_nil _).symm⟩

theorem talk_afterReading (s : Server) (id : ClientId) (session : Session)
    (r : Except WireError Message) :
    (s.afterReading id session r).talk = s.talk ++ [(id, .heard r)] :=
  talk_record _ _

/-- Reading from a client takes nothing from what it has been sent. -/
theorem link_afterReading (s : Server) (id : ClientId) (r : Except WireError Message) {l' : Link}
    (hl' : (s.afterReading id session r).net.links[session.link]? = some l') :
    ∃ l, s.net.links[session.link]? = some l ∧ l'.client = l.client ∧
      Net.delivers l' = Net.delivers l := by
  change (s.netAfter session).links[session.link]? = _ at hl'
  rw [netAfter_eq, Net.links_modify, if_pos rfl] at hl'
  obtain ⟨l, hl, rfl⟩ := Option.map_eq_some_iff.mp hl'
  refine ⟨l, hl, ?_⟩
  unfold Link.take
  repeat' split
  all_goals exact ⟨rfl, rfl⟩

theorem writable_afterReading (hs : s.sessions.get? id = some session)
    (r : Except WireError Message) :
    (s.afterReading id session r).writable id = s.writable id := by
  have hs' : (s.afterReading id session r).sessions.get? id = some session := hs
  rw [writable, writable, linkOf?_of_get? hs', linkOf?_of_get? hs, Option.any_some,
    Option.any_some]
  cases hl' : (s.afterReading id session r).net.links[session.link]? with
  | some l' =>
      obtain ⟨l, hl, -, hdelivers⟩ := s.link_afterReading id r hl'
      rw [hl, Option.any_some, Option.any_some, hdelivers]
  | none =>
      change (s.netAfter session).links[session.link]? = _ at hl'
      rw [netAfter_eq, Net.links_modify, if_pos rfl, Option.map_eq_none_iff] at hl'
      rw [hl']

theorem quiet_afterReading (s : Server) (id : ClientId) (session : Session)
    (r : Except WireError Message) : Quiet s (s.afterReading id session r) :=
  ⟨rfl, rfl, rfl, List.prefix_append _ _⟩

theorem confined_afterReading (hs : s.sessions.get? id = some session)
    (r : Except WireError Message) : Confined id s (s.afterReading id session r) := by
  have hnet := confined_netAfter hs
  exact ⟨hnet.table, hnet.links, hnet.count, hnet.waiting, hnet.listens, hnet.signals,
    [.heard r], talk_afterReading s id session r⟩

theorem confined_afterLeaving (hs : s.sessions.get? id = some session) (report : LogEvent) :
    Confined id s (s.afterLeaving id session report) :=
  ((confined_netAfter hs).trans ((sameClients_log _ report).confined id)).trans
    (confined_dropClient _ id)

/-- An event that is about no client brings no message. -/
theorem hears?_of_token (h : ∀ id, Receiver.ofToken? e.token ≠ some (.client id)) :
    s.hears? e = none := by
  unfold hears?
  split
  · next id htoken => exact absurd htoken (h id)
  · rfl

theorem hears?_client (htoken : Receiver.ofToken? e.token = some (.client id))
    (hs : s.sessions.get? id = some session) :
    s.hears? e = match (s.net.take session.link .server frameSize).1 with
      | .data bytes => some (id, Message.decode bytes)
      | _ => none := by
  simp only [hears?, htoken, linkOf?_of_get? hs]

/-- Who is heard has a session and had sent what was read. -/
theorem eq_of_hears? (h : s.hears? e = some (id, r)) :
    Receiver.ofToken? e.token = some (.client id) ∧ ∃ session bytes,
      s.sessions.get? id = some session ∧
      (s.net.take session.link .server frameSize).1 = .data bytes ∧
      r = Message.decode bytes := by
  unfold hears? at h
  split at h
  · next other htoken =>
    split at h
    · cases h
    · next k hk =>
      split at h
      · next bytes htaken =>
        obtain ⟨rfl, rfl⟩ := Prod.mk.inj (Option.some.inj h)
        obtain ⟨session, hs, rfl⟩ := Option.map_eq_some_iff.mp hk
        exact ⟨htoken, session, bytes, hs, htaken, rfl⟩
      · cases h
  · cases h

end Hearing

section Events

/-- What handling an event does, up to a line request that it brings. -/
inductive Begins (s : Server) (e : Readiness) : Server → Option Job → Prop
  | accepted (htoken : Receiver.ofToken? e.token = some .listener) : Begins s e s.accept none
  | signalled (htoken : Receiver.ofToken? e.token = some .signals) :
      Begins s e s.takeSignals none
  | timed (htoken : Receiver.ofToken? e.token = some .idleTimer) : Begins s e s.takeExpiry none
  | heard {id : ClientId} {session : Session} {r : Except WireError Message}
      (hs : s.sessions.get? id = some session) (hr : s.hears? e = some (id, r)) :
      Begins s e ((s.afterReading id session r).dispatch id session.peer r).1
        ((s.afterReading id session r).dispatch id session.peer r).2
  | left {id : ClientId} {session : Session} (report : LogEvent)
      (hreport : report = .hungUp ∨ report = .receiveFailed Errno.connectionReset)
      (htoken : Receiver.ofToken? e.token = some (.client id))
      (hs : s.sessions.get? id = some session) (hr : s.hears? e = none)
      (hgone : (s.net.take session.link .server frameSize).1 ≠ .nothing ∨ e.hungUp = true) :
      Begins s e (s.afterLeaving id session report) none
  | nothing {id : ClientId} (htoken : Receiver.ofToken? e.token = some (.client id))
      (hr : s.hears? e = none) : Begins s e s none
  | stray (htoken : Receiver.ofToken? e.token = none) :
      Begins s e (s.log (.unknownReceiver e.token)) none

/-- Taking finds nothing only where nothing changes. -/
theorem netAfter_of_nothing (h : (s.net.take session.link .server frameSize).1 = .nothing) :
    s.netAfter session = s.net := by
  cases hl : s.net.links[session.link]? with
  | none => simp only [netAfter, Net.take, hl]
  | some l =>
      rw [Net.take_fst_of_some hl] at h
      have hsame : (l.take .server frameSize).2 = l := by
        unfold Link.take at h ⊢
        split
        · next hne => rw [if_pos hne] at h; cases h
        · next hempty =>
          rw [if_neg hempty] at h
          split
          · next hbroken => rw [if_pos hbroken] at h; cases h
          · split <;> rfl
      have hset : s.net.links.set session.link l = s.net.links := by
        obtain ⟨hlt, rfl⟩ := List.getElem?_eq_some_iff.mp hl
        exact List.set_getElem_self hlt
      simp only [netAfter, Net.take, hl, hsame, hset]

theorem begins (s : Server) (e : Readiness) : Begins s e (s.begin e).1 (s.begin e).2 := by
  unfold begin
  split
  · next htoken => exact .accepted htoken
  · next htoken => exact .signalled htoken
  · next htoken => exact .timed htoken
  · next id htoken =>
    cases hs : s.sessions.get? id with
    | none =>
        have hr : s.hears? e = none := by simp only [hears?, htoken, linkOf?_of_none hs]
        simp only [receive, hs]
        exact .nothing htoken hr
    | some session =>
        have hr := hears?_client htoken hs
        simp only [receive, hs]
        split
        · next htaken =>
          rw [htaken] at hr
          exact .left .hungUp (.inl rfl) htoken hs hr (.inl (by rw [htaken]; exact Taken.noConfusion))
        · next htaken =>
          rw [htaken] at hr
          split
          · next hflag => exact .left .hungUp (.inl rfl) htoken hs hr (.inr hflag)
          · have hsame : { s with net := s.netAfter session } = s := by
              rw [netAfter_of_nothing htaken]
            show Begins s e { s with net := s.netAfter session } none
            rw [hsame]
            exact .nothing htoken hr
        · next htaken =>
          rw [htaken] at hr
          exact .left _ (.inr rfl) htoken hs hr (.inl (by rw [htaken]; exact Taken.noConfusion))
        · next bytes htaken =>
          rw [htaken] at hr
          exact .heard hs hr
  · next htoken => exact .stray htoken

/-- An event that brings a message is handled by what is done with the message. -/
theorem begin_of_hears? (h : s.hears? e = some (id, r)) :
    ∃ session, s.sessions.get? id = some session ∧
      s.begin e = (s.afterReading id session r).dispatch id session.peer r := by
  obtain ⟨htoken, session, bytes, hs, htaken, rfl⟩ := eq_of_hears? h
  refine ⟨session, hs, ?_⟩
  simp only [begin, htoken, receive, hs]
  rw [htaken]
  rfl

end Events

end Server

namespace Loop

open Server

variable {l m : Loop}

/-- What one step of the loop does. -/
inductive Steps (l m : Loop) : Prop
  | stayed (hm : m = l) (h : l.ending.isSome = true ∨ l.isStuck = true)
  | finished (job : Job) (hend : l.ending = none) (hjob : l.job = some job)
      (hpasses : l.isStuck = false)
      (hm : m = ({ l with job := none }).withServer (l.server.finish job))
  | waited (hend : l.ending = none) (hjob : l.job = none) (hphase : l.phase = .waiting)
      (hm : m = l.wait)
  | skipped (e : Readiness) (es : List Readiness) (hend : l.ending = none) (hjob : l.job = none)
      (hphase : l.phase = .handling (e :: es)) (hstop : l.server.stop.isSome = true)
      (hm : m = { l with phase := .handling [] })
  | began (e : Readiness) (es : List Readiness) (hend : l.ending = none) (hjob : l.job = none)
      (hphase : l.phase = .handling (e :: es)) (hstop : l.server.stop = none)
      (h : Begins l.server e m.server m.job)
      (hm : m = ({ l with phase := .handling es, job := m.job }).withServer m.server)
  | drained (why : Stop) (hend : l.ending = none) (hjob : l.job = none)
      (hphase : l.phase = .handling []) (hstop : l.server.stop = some why)
      (hm : m = l.finishWith (l.server.drain why) (.stopped why.reason))
  | updated (s : Server) (hend : l.ending = none) (hjob : l.job = none)
      (hphase : l.phase = .handling []) (hstop : l.server.stop = none)
      (h : l.server.updateIdle = .ok s) (hm : m = ({ l with phase := .waiting }).withServer s)
  | aborted (e : Errno) (hend : l.ending = none) (hjob : l.job = none)
      (hphase : l.phase = .handling []) (hstop : l.server.stop = none)
      (h : l.server.updateIdle = .error e) (hm : m = l.finishWith l.server.abort (.failed e))

/-- A line request that waits and does not have to wait longer is carried out. -/
theorem step_of_job {job : Job} (hend : l.ending = none) (hjob : l.job = some job)
    (hpasses : l.isStuck = false) :
    l.step = ({ l with job := none }).withServer (l.server.finish job) := by
  have hopen : (l.gateClosed && reachesDevice l.server job) = false := by
    simp only [isStuck, hjob, hend, Option.isNone_none, Bool.true_and] at hpasses
    exact hpasses
  simp only [step, hend, hjob, hopen, Option.isSome_none, Bool.false_eq_true, if_false]

/-- A line request that has to wait in the device keeps the server from everything else. -/
theorem step_of_stuck (h : l.isStuck = true) : l.step = l := by
  unfold isStuck at h
  split at h
  · next job hjob =>
    rw [Bool.and_eq_true, Bool.and_eq_true] at h
    obtain ⟨⟨hrunning, hclosed⟩, hreaches⟩ := h
    have hend : l.ending.isSome = false := by
      rw [← Option.not_isNone, hrunning]
      rfl
    simp only [step, hend, hjob, hclosed, hreaches, Bool.and_self, Bool.false_eq_true, if_false,
      if_true]
  · cases h

/-- The step in which the server ends for a reason. -/
theorem step_drains {why : Stop} (hend : l.ending = none) (hjob : l.job = none)
    (hphase : l.phase = .handling []) (hstop : l.server.stop = some why) :
    l.step = l.finishWith (l.server.drain why) (.stopped why.reason) := by
  simp only [step, hend, hjob, hphase, beginTurn, hstop, Option.isSome_none,
    Bool.false_eq_true, if_false]

/-- The step in which a server forgets what was reported together with its reason to stop. -/
theorem step_forgets {why : Stop} {e : Readiness} {es : List Readiness} (hend : l.ending = none)
    (hjob : l.job = none) (hphase : l.phase = .handling (e :: es))
    (hstop : l.server.stop = some why) : l.step = { l with phase := .handling [] } := by
  simp only [step, hend, hjob, hphase, hstop, Option.isSome_none, Option.isSome_some,
    Bool.false_eq_true, if_false, if_true]

theorem steps (l : Loop) : Steps l l.step := by
  cases hend : l.ending with
  | some e =>
      have hsome : l.ending.isSome = true := by rw [hend]; rfl
      exact .stayed (step_of_ending hsome) (.inl hsome)
  | none =>
      cases hjob : l.job with
      | some job =>
          cases hstuck : l.isStuck with
          | false => exact .finished job hend hjob hstuck (step_of_job hend hjob hstuck)
          | true => exact .stayed (step_of_stuck hstuck) (.inr hstuck)
      | none =>
          cases hphase : l.phase with
          | waiting =>
              refine .waited hend hjob hphase ?_
              simp only [step, hend, hjob, hphase, Option.isSome_none, Bool.false_eq_true,
                if_false]
          | handling es =>
              cases es with
              | nil =>
                  cases hstop : l.server.stop with
                  | some why =>
                      exact .drained why hend hjob hphase hstop
                        (step_drains hend hjob hphase hstop)
                  | none =>
                      have hstep : l.step = l.beginTurn := by
                        simp only [step, hend, hjob, hphase, Option.isSome_none,
                          Bool.false_eq_true, if_false]
                      cases hupdate : l.server.updateIdle with
                      | error e =>
                          refine .aborted e hend hjob hphase hstop hupdate ?_
                          rw [hstep]
                          simp only [beginTurn, hstop, hupdate]
                      | ok s =>
                          refine .updated s hend hjob hphase hstop hupdate ?_
                          rw [hstep]
                          simp only [beginTurn, hstop, hupdate]
              | cons e es =>
                  cases hstop : l.server.stop with
                  | some why =>
                      have hsome : l.server.stop.isSome = true := by rw [hstop]; rfl
                      exact .skipped e es hend hjob hphase hsome
                        (step_forgets hend hjob hphase hstop)
                  | none =>
                      have hstep : l.step = ({ l with
                          phase := .handling es
                          job := (l.server.begin e).2 }).withServer (l.server.begin e).1 := by
                        simp only [step, hend, hjob, hphase, hstop, Option.isSome_none,
                          Bool.false_eq_true, if_false]
                      have hbegins := l.server.begins e
                      refine .began e es hend hjob hphase hstop ?_ ?_
                      · rw [hstep]
                        exact hbegins
                      · rw [hstep]
                        rfl

/-- What the next step makes the server read, and the client it comes from. -/
def hears? (l : Loop) : Option (ClientId × Except WireError Message) :=
  match l.ending, l.job, l.server.stop, l.phase with
  | none, none, none, .handling (e :: _) => l.server.hears? e
  | _, _, _, _ => none

theorem eq_of_hears? {id : ClientId} {r : Except WireError Message}
    (h : l.hears? = some (id, r)) :
    l.ending = none ∧ l.job = none ∧ l.server.stop = none ∧ ∃ e es session,
      l.phase = .handling (e :: es) ∧ l.server.hears? e = some (id, r) ∧
      l.server.sessions.get? id = some session ∧
      l.step = ({ l with
        phase := .handling es
        job := ((l.server.afterReading id session r).dispatch id session.peer r).2 }).withServer
          ((l.server.afterReading id session r).dispatch id session.peer r).1 := by
  unfold hears? at h
  split at h
  · next e es hend hjob hstop hphase =>
    obtain ⟨session, hs, hbegin⟩ := begin_of_hears? h
    refine ⟨hend, hjob, hstop, e, es, session, hphase, h, hs, ?_⟩
    simp only [step, hend, hjob, hphase, hstop, hbegin, Option.isSome_none, Bool.false_eq_true,
      if_false]
  · cases h

end Loop
end LineKeeper
