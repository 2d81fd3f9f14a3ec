import LineKeeper.Proofs.Actions

/-!
# What a loop does with a message, and what it waits for

A message that was read is handled in one of four ways (`Hearing`).  A call that needs
no device is answered at once; a line request is left to be carried out; a STOP makes
the server stop; and anything that only a server may send, or that is no message, ends
the session.

So a loop can owe an answer: for the line request that waits, or for the STOP.  Such a
loop is `Coherent`: while it owes, it handles nothing else, and the client that it owes
the answer is there.  Every played loop is (`Played.coherent`).
-/

namespace LineKeeper

/-- A message that a client may send. -/
def Message.isCall : Message → Bool
  | .ping => true
  | .stop => true
  | .request _ => true
  | .release _ => true
  | _ => false

/-- What was read is no message that a client may send. -/
def Forbidden (r : Except WireError Message) : Prop :=
  ∀ m, r = .ok m → m.isCall = false

namespace Server

variable {s t u : Server} {id : ClientId} {session : Session} {e : Readiness}

section Hearing

/-- Exactly the messages that a client may send are answered. -/
theorem isSome_respond (s : Server) (m : Message) : (s.respond m).isSome = m.isCall := by
  cases m with
  | request spec =>
      simp only [respond]
      split <;> rfl
  | _ => rfl

/-- What is done with what was read from a client. -/
inductive Hearing (s : Server) (id : ClientId) (peer : Peer) :
    Except WireError Message → Server → Option Job → Prop
  | answered {m reply : Message} {u : Server} (hcall : m = .ping ∨ ∃ rid, m = .release rid)
      (h : SameClients s u) (hreply : s.respond m = some reply) :
      Hearing s id peer (.ok m) (u.reply id reply) none
  | asked (spec : LineSpec) {u : Server} (h : SameClients s u)
      (hrequests : u.requests = s.requests) (hdevice : u.device = s.device) :
      Hearing s id peer (.ok (.request spec)) u (some ⟨id, peer.pid, spec⟩)
  | stopping {u : Server} (h : SameClients s u) :
      Hearing s id peer (.ok .stop) { u with stop := some (.requested id) } none
  | forbidden {r : Except WireError Message} (report : LogEvent) (hr : Forbidden r) :
      Hearing s id peer r ((s.log report).dropClient id) none

theorem hearing (s : Server) (id : ClientId) (peer : Peer) (r : Except WireError Message) :
    Hearing s id peer r (s.dispatch id peer r).1 (s.dispatch id peer r).2 := by
  have hother : ∀ m : Message, m.isCall = false → Forbidden (.ok m) := by
    rintro m hm _ ⟨⟩
    exact hm
  cases r with
  | error e => exact .forbidden _ (by rintro m ⟨⟩)
  | ok m =>
      cases m with
      | ping => exact .answered (.inl rfl) (sameClients_log s _) rfl
      | stop => exact .stopping (sameClients_log s _)
      | request spec => exact .asked spec (sameClients_log s _) rfl rfl
      | release rid =>
          obtain ⟨u, reply, hsame, hreply, hrelease⟩ := s.release_eq_reply id rid
          have hanswered : Hearing s id peer (.ok (.release rid)) (u.reply id reply) none :=
            .answered (.inr ⟨rid, rfl⟩) hsame hreply
          rw [← hrelease] at hanswered
          exact hanswered
      | ok => exact .forbidden _ (hother _ rfl)
      | error n => exact .forbidden _ (hother _ rfl)
      | reqOk rid => exact .forbidden _ (hother _ rfl)

/-- What is done with a message concerns its sender only. -/
theorem Hearing.confined {peer : Peer} {r : Except WireError Message} {job : Option Job}
    (h : Hearing s id peer r t job) : Confined id s t := by
  cases h with
  | answered _ hsame _ => exact (hsame.confined id).trans (confined_reply _ id _)
  | asked _ hsame _ _ => exact hsame.confined id
  | stopping hsame =>
      have h := hsame.confined id
      exact ⟨h.table, h.links, h.count, h.waiting, h.listens, h.signals, h.talk⟩
  | forbidden report _ =>
      exact ((sameClients_log s report).confined id).trans (confined_dropClient _ id)

end Hearing

section Stopping

theorem stop_finish (s : Server) (job : Job) : (s.finish job).stop = s.stop := by
  obtain ⟨u, r, hsame, -, hfinish⟩ := s.finish_eq_reply job
  rw [hfinish, stop_reply, hsame.stop]

theorem sameClients_updateIdle (h : s.updateIdle = .ok t) : SameClients s t := by
  unfold updateIdle at h
  split at h
  · cases h
  · cases h
    exact ⟨rfl, rfl, rfl, rfl, rfl, talk_log s _⟩
  · cases h
    exact ⟨rfl, rfl, rfl, rfl, rfl, talk_log s _⟩
  · cases h
    exact ⟨rfl, rfl, rfl, rfl, rfl, rfl⟩

/-- What taking signals does: nothing that a client could notice, but it can be a reason to
stop. -/
theorem takeSignals_cases (s : Server) :
    (s.takeSignals.stop = s.stop ∨ ∃ signal, s.takeSignals.stop = some (.signal signal)) ∧
      s.takeSignals.sessions = s.sessions ∧ s.takeSignals.watched = s.watched ∧
      s.takeSignals.net = s.net ∧ s.takeSignals.talk = s.talk := by
  unfold takeSignals
  split
  · exact ⟨.inl rfl, rfl, rfl, rfl, rfl⟩
  · next signal _ _ => exact ⟨.inr ⟨signal, rfl⟩, rfl, rfl, rfl, talk_log s _⟩

/-- So can taking notice of the idle timer. -/
theorem takeExpiry_cases (s : Server) :
    (s.takeExpiry.stop = s.stop ∨ s.takeExpiry.stop = some .idle ∧ s.useCount = 0) ∧
      s.takeExpiry.sessions = s.sessions ∧ s.takeExpiry.watched = s.watched ∧
      s.takeExpiry.net = s.net ∧ s.takeExpiry.talk = s.talk := by
  unfold takeExpiry
  split
  · exact ⟨.inl rfl, rfl, rfl, rfl, rfl⟩
  · dsimp only
    split
    · next hcount => exact ⟨.inr ⟨rfl, hcount⟩, rfl, rfl, rfl, talk_log _ _⟩
    · exact ⟨.inl rfl, rfl, rfl, rfl, rfl⟩

end Stopping

end Server

namespace Loop

open Server

variable {l m : Loop} {chips : Chips} {period : Nat}

section Coherent

/-- A loop that owes an answer handles nothing else, and the client is there. -/
structure Coherent (l : Loop) : Prop where
  links : OwnLinks l.server
  running : ∀ job, l.job = some job → l.ending = none ∧ l.server.stop = none
  asker : ∀ job, l.job = some job → job.client ∈ l.server.sessions.ids
  stopping : ∀ why, l.server.stop = some why → l.ending = none → ∃ es, l.phase = .handling es
  stopper : ∀ why id, l.server.stop = some why → l.ending = none → why.stopper? = some id →
    id ∈ l.server.sessions.ids

theorem coherent_start (chips : Chips) (period : Nat) : Coherent (start chips period) where
  links := ⟨List.nodup_nil, by rintro k ⟨⟩⟩
  running := by rintro job ⟨⟩
  asker := by rintro job ⟨⟩
  stopping := by rintro why ⟨⟩
  stopper := by rintro why id ⟨⟩

/-- A loop without a reason to stop and without a request that waits owes nothing. -/
theorem Coherent.of_idle (hlinks : OwnLinks m.server) (hjob : m.job = none)
    (hstop : m.server.stop = none) : Coherent m where
  links := hlinks
  running := by rw [hjob]; rintro job ⟨⟩
  asker := by rw [hjob]; rintro job ⟨⟩
  stopping := by rw [hstop]; rintro why ⟨⟩
  stopper := by rw [hstop]; rintro why id ⟨⟩

/-- Nor does one that has ended. -/
theorem Coherent.of_ended {e : Ending} (hlinks : OwnLinks m.server) (hjob : m.job = none)
    (hend : m.ending = some e) : Coherent m where
  links := hlinks
  running := by rw [hjob]; rintro job ⟨⟩
  asker := by rw [hjob]; rintro job ⟨⟩
  stopping := by rw [hend]; rintro why - ⟨⟩
  stopper := by rw [hend]; rintro why id - ⟨⟩

theorem Coherent.no_stop_of_waiting (h : Coherent l) (hend : l.ending = none)
    (hphase : l.phase = .waiting) : l.server.stop = none := by
  cases hstop : l.server.stop with
  | none => rfl
  | some why =>
      obtain ⟨es, hes⟩ := h.stopping why hstop hend
      rw [hphase] at hes
      cases hes

theorem Coherent.job_of_stop (h : Coherent l) {why : Stop} (hstop : l.server.stop = some why) :
    l.job = none := by
  cases hjob : l.job with
  | none => rfl
  | some job =>
      have hnone := (h.running job hjob).2
      rw [hstop] at hnone
      cases hnone

theorem Coherent.around (h : Coherent l) (hlinks : OwnLinks m.server) (ha : Around l m) :
    Coherent m where
  links := hlinks
  running := by
    rw [ha.job, ha.ending, ha.stop]
    exact h.running
  asker := by
    rw [ha.job, ha.sessions]
    exact h.asker
  stopping := by
    rw [ha.stop, ha.ending, ha.phase]
    exact h.stopping
  stopper := by
    rw [ha.stop, ha.ending, ha.sessions]
    exact h.stopper

/-- A loop in which a line request waits. -/
theorem Coherent.of_job {job : Job} (hlinks : OwnLinks m.server) (hjob : m.job = some job)
    (hid : job.client ∈ m.server.sessions.ids) (hend : m.ending = none)
    (hstop : m.server.stop = none) : Coherent m where
  links := hlinks
  running := fun _ _ => ⟨hend, hstop⟩
  asker := by
    rw [hjob]
    rintro _ ⟨⟩
    exact hid
  stopping := by rw [hstop]; rintro why ⟨⟩
  stopper := by rw [hstop]; rintro why id ⟨⟩

/-- A loop that has just got a reason to stop, while it handles events. -/
theorem Coherent.of_stop {why : Stop} {es : List Readiness} (hlinks : OwnLinks m.server)
    (hjob : m.job = none) (hphase : m.phase = .handling es) (hstop : m.server.stop = some why)
    (hstopper : ∀ id, why.stopper? = some id → id ∈ m.server.sessions.ids) : Coherent m where
  links := hlinks
  running := by rw [hjob]; rintro job ⟨⟩
  asker := by rw [hjob]; rintro job ⟨⟩
  stopping := fun _ _ _ => ⟨es, hphase⟩
  stopper := by
    rw [hstop]
    rintro _ id ⟨⟩ - hid
    exact hstopper id hid

/-- What is done with a message leaves a request that waits, or a reason to stop, or neither. -/
theorem coherent_hearing {s t : Server} {id : ClientId} {peer : Peer}
    {r : Except WireError Message} {job : Option Job} {es : List Readiness}
    (h : Hearing s id peer r t job) (hlinks : OwnLinks s) (hid : id ∈ s.sessions.ids)
    (hstop : s.stop = none) (hend : l.ending = none) :
    Coherent (({ l with
      phase := .handling es
      job := job }).withServer t) := by
  cases h with
  | answered hcall hsame hreply =>
      refine .of_idle ((hlinks.sameClients hsame).confined (confined_reply _ id _)) rfl ?_
      exact (stop_reply _ _ _).trans (hsame.stop.trans hstop)
  | asked spec hsame hrequests hdevice =>
      refine .of_job (hlinks.sameClients hsame) rfl ?_ hend (hsame.stop.trans hstop)
      show id ∈ t.sessions.ids
      rw [hsame.sessions]
      exact hid
  | @stopping u hsame =>
      refine .of_stop (hlinks.of_same hsame.sessions hsame.net) rfl rfl rfl ?_
      rintro _ ⟨⟩
      show id ∈ u.sessions.ids
      rw [hsame.sessions]
      exact hid
  | forbidden report hr =>
      refine .of_idle ?_ rfl ((stop_dropClient _ _).trans hstop)
      exact (hlinks.sameClients (sameClients_log s report)).confined (confined_dropClient _ id)

/-- Handling an event is coherent: it leaves a request, or a reason to stop, or neither. -/
theorem Coherent.begins {e : Readiness} {es : List Readiness} {t : Server} {job : Option Job}
    (hlinks : OwnLinks l.server) (hend : l.ending = none) (hstop : l.server.stop = none)
    (h : Begins l.server e t job) :
    Coherent (({ l with
      phase := .handling es
      job := job }).withServer t) := by
  cases h with
  | accepted _ => exact .of_idle hlinks.accept rfl (l.server.reception.stop.trans hstop)
  | signalled _ =>
      obtain ⟨hreason, hsessions, -, hnet, -⟩ := l.server.takeSignals_cases
      have hlinks' := hlinks.of_same hsessions hnet
      rcases hreason with hnone | ⟨signal, hsignal⟩
      · exact .of_idle hlinks' rfl (hnone.trans hstop)
      · exact .of_stop hlinks' rfl rfl hsignal (by rintro id ⟨⟩)
  | timed _ =>
      obtain ⟨hreason, hsessions, -, hnet, -⟩ := l.server.takeExpiry_cases
      have hlinks' := hlinks.of_same hsessions hnet
      rcases hreason with hnone | ⟨hidle, -⟩
      · exact .of_idle hlinks' rfl (hnone.trans hstop)
      · exact .of_stop hlinks' rfl rfl hidle (by rintro id ⟨⟩)
  | @heard id session r hs hr =>
      have hread := hlinks.confined (confined_afterReading hs r)
      have hmem : id ∈ (l.server.afterReading id session r).sessions.ids :=
        Sessions.mem_ids_iff.mpr ⟨session, hs⟩
      exact coherent_hearing (hearing _ id session.peer r) hread hmem hstop hend
  | left report _ _ hs _ _ =>
      refine .of_idle (hlinks.confined (confined_afterLeaving hs report)) rfl ?_
      exact (stop_dropClient _ _).trans hstop
  | nothing _ _ => exact .of_idle hlinks rfl hstop
  | stray _ => exact .of_idle (hlinks.of_same rfl rfl) rfl hstop

theorem Coherent.step (h : Coherent l) : Coherent l.step := by
  obtain hm | ⟨job, hend, hjob, -, hm⟩ | ⟨hend, hjob, hphase, hm⟩ | ⟨e, es, hend, hjob, hphase, -, hm⟩ |
      ⟨e, es, hend, hjob, hphase, hstop, hbegins, hm⟩ | ⟨why, hend, hjob, hphase, hstop, hm⟩ |
      ⟨s, hend, hjob, hphase, hstop, hupdate, hm⟩ | ⟨e, hend, hjob, hphase, hstop, hupdate, hm⟩ :=
    l.steps
  · rw [hm]
    exact h
  · rw [hm]
    refine .of_idle (h.links.confined (confined_finish _ job)) rfl ?_
    exact (stop_finish _ _).trans (h.running job hjob).2
  · rw [hm]
    exact .of_idle h.links hjob (h.no_stop_of_waiting hend hphase)
  · rw [hm]
    exact ⟨h.links, h.running, h.asker, fun _ _ _ => ⟨[], rfl⟩, h.stopper⟩
  · rw [hm]
    exact .begins h.links hend hstop hbegins
  · have hshut := shutsDown_drain why h.links.apart fun id => h.stopper why id hstop hend
    rw [hm]
    refine .of_ended ?_ rfl rfl
    have hnone : (l.server.drain why).linksInUse = [] := by
      rw [linksInUse, hshut.sessions, hshut.waiting]
      rfl
    exact h.links.of_sublist (hnone ▸ List.nil_sublist _) hshut.count
  · rw [hm]
    have hsame := sameClients_updateIdle hupdate
    exact .of_idle (h.links.sameClients hsame) hjob (hsame.stop.trans hstop)
  · rw [hm]
    refine .of_ended ?_ rfl rfl
    refine h.links.of_sublist ?_ (Net.length_stopListening _)
    exact (List.Sublist.refl _).append (List.nil_sublist _)

theorem Played.coherent (h : Played chips period l) : Coherent l := by
  refine h.induction (coherent_start chips period) ?_
  intro m a _ hm
  by_cases ha : a = .serve
  · rw [ha]
    exact hm.step
  · have haround := around_act m ha
    exact hm.around (hm.links.after haround.sessions (net_act m ha)) haround

end Coherent

end Loop
end LineKeeper
