import LineKeeper.Proofs.Exchanges

/-!
# What a step of the loop does to the client that it serves

A step that handles an event of a client, or carries out the client's line request, serves
this client (`Loop.serves?`).

* It does nothing to any other client (`confined_step`).
* A reply that is written in it arrives at the client (`arrives_step`), also the one to a
  STOP, after which the server ends (`talk_drain`).
* A message that no client may send ends the session, and does nothing else
  (`expelled_step`).
-/

namespace LineKeeper

namespace Server

variable {s t : Server} {id : ClientId} {session : Session} {k : Nat}

section Parting

/-- The end of a session takes no lines back. -/
theorem holdings_dropClient (s : Server) (id : ClientId) :
    (s.dropClient id).requests = s.requests ∧ (s.dropClient id).device = s.device := by
  unfold dropClient
  split <;> exact ⟨rfl, rfl⟩

theorem said_of_turnFor {m reply : Message} (h : s.turnFor id m = .said reply) :
    s.writable id = true ∧ m = reply := by
  unfold turnFor at h
  split at h
  · next hw => exact ⟨hw, Turn.said.inj h⟩
  · cases h

/-- An event of a client concerns this client only. -/
theorem Begins.confined {e : Readiness} {job : Option Job} (h : Begins s e t job)
    (htoken : Receiver.ofToken? e.token = some (.client id)) : Confined id s t := by
  have hid : ∀ {other}, Receiver.ofToken? e.token = some (.client other) → other = id := by
    intro other hother
    exact Receiver.client.inj (Option.some.inj (hother.symm.trans htoken))
  cases h with
  | accepted hother => cases hother.symm.trans htoken
  | signalled hother => cases hother.symm.trans htoken
  | timed hother => cases hother.symm.trans htoken
  | @heard other session r hs hr =>
      obtain rfl := hid (eq_of_hears? hr).1
      exact (confined_afterReading hs r).trans (hearing _ _ session.peer r).confined
  | left report _ hother hs _ _ =>
      obtain rfl := hid hother
      exact confined_afterLeaving hs report
  | nothing _ _ => exact Confined.refl id s
  | stray hother => cases hother.symm.trans htoken

/-- The last words of a server that a client has asked to stop. -/
theorem talk_drain {why : Stop} (h : ShutsDown why s t) (hwhy : why.stopper? = some id) :
    ∃ before, t.talk = before ++
      (if s.writable id then [.said .ok, .closed] else [.closed]).map (Prod.mk id) := by
  obtain ⟨es, htrace, -⟩ := h.trace
  have hlast : (s.parting why).filterMap Effect.turn? =
      (if s.writable id then [.said .ok, .closed] else [.closed]).map (Prod.mk id) := by
    rw [parting, hwhy]
    dsimp only
    cases s.writable id <;> rfl
  rw [talk, htrace, ← List.append_assoc, List.filterMap_append, ← List.append_assoc,
    List.filterMap_append, hlast]
  exact ⟨_, List.append_nil _⟩

/-- What the client that asked for the stop is sent arrives before its session ends. -/
theorem inbox_drain {why : Stop} (hapart : s.linksInUse.Nodup) (hwhy : why.stopper? = some id)
    (hs : s.sessions.get? id = some session) (hw : s.writable id = true) :
    ∃ a b, s.net.links[session.link]? = some a ∧
      (s.drain why).net.links[session.link]? = some b ∧
      b.client.inbox = a.client.inbox ++ Message.ok.encode := by
  have hcleared := cleared s why
  obtain ⟨hget, hwritable, -⟩ := hcleared.stopper hapart hwhy hs
  have hlink := hcleared.links session.link (link_not_waiting hapart hs) fun other hother => by
    refine linkOf?_ne_of_apart hapart hs ?_
    rintro rfl
    simp [others, hwhy] at hother
  unfold drain
  dsimp only
  rw [hwhy]
  dsimp only
  rw [hwhy] at hget hwritable hlink
  revert hget hwritable hlink
  generalize (((s.log (.exiting s.sessions.length s.requests.length)).stopListening
    |>.releaseAll).dropAllBut (some id)) = t
  intro hget hwritable hlink
  obtain ⟨a, b, ha, hb, hinbox⟩ := inbox_reply hget (hwritable.trans hw) .ok
  have hstill : (t.reply id .ok).sessions.get? id = some session := by
    rw [sessions_reply hget, hwritable, hw, if_pos rfl, hget]
  refine ⟨a, b.close .server, hlink ▸ ha, ?_, ?_⟩
  · show ((t.reply id .ok).dropClient id).net.links[session.link]? = _
    simp only [dropClient, hstill]
    exact Net.links_modify_self _ hb
  · rw [← hinbox]
    unfold Link.close
    dsimp only
    split <;> rfl

end Parting

end Server

namespace Loop

open Server

variable {l m : Loop} {client : ClientId} {k : Nat}

section Serving

/-- The client whose event the next step handles, or whose line request it carries out. -/
def serves? (l : Loop) : Option ClientId :=
  match l.ending, l.job, l.server.stop, l.phase with
  | none, some job, _, _ => if l.isStuck then none else some job.client
  | none, none, none, .handling (e :: _) =>
      match Receiver.ofToken? e.token with
      | some (.client id) => some id
      | _ => none
  | _, _, _, _ => none

/-- Whose event is handled is the only client to whom something is done. -/
theorem confined_step (h : l.serves? = some client) : Confined client l.server l.step.server := by
  unfold serves? at h
  split at h
  · next job hend hjob =>
    split at h
    · cases h
    · next hpasses =>
      cases h
      rw [step_of_job hend hjob (Bool.eq_false_iff.mpr hpasses)]
      exact confined_finish _ job
  · next e es hend hjob hstop hphase =>
    split at h
    · next id htoken =>
      cases h
      have hstep : l.step.server = (l.server.begin e).1 := by
        simp only [step, hend, hjob, hphase, hstop, Option.isSome_none, Bool.false_eq_true,
          if_false]
        rfl
      rw [hstep]
      exact (l.server.begins e).confined htoken
    · cases h
  · cases h

theorem serves?_of_hears? {r : Except WireError Message} (h : l.hears? = some (client, r)) :
    l.serves? = some client := by
  obtain ⟨hend, hjob, hstop, e, es, session, hphase, hears, -, -⟩ := eq_of_hears? h
  obtain ⟨htoken, -⟩ := Server.eq_of_hears? hears
  simp only [serves?, hend, hjob, hstop, hphase, htoken]

/-- A message that no client may send ends the session of its sender, and nothing else. -/
structure Expelled (l : Loop) (client : ClientId) (r : Except WireError Message) (m : Loop) :
    Prop where
  talk : m.server.talk = l.server.talk ++ [(client, .heard r), (client, .closed)]
  sessions : m.server.sessions = l.server.sessions.remove client
  closed : ∀ k, linkOf? l.server client = some k → m.server.net.ClosedAt k
  requests : m.server.requests = l.server.requests
  device : m.server.device = l.server.device

theorem expelled_step {r : Except WireError Message} (hheard : l.hears? = some (client, r))
    (hr : Forbidden r) : Expelled l client r l.step := by
  obtain ⟨-, -, -, e, es, session, -, -, hs, hstep⟩ := eq_of_hears? hheard
  set b := l.server.afterReading client session r with hb
  have hserver : l.step.server = (b.dispatch client session.peer r).1 := by
    rw [hstep]
    rfl
  have hb' : b.sessions.get? client = some session := hs
  have hhearing := hearing b client session.peer r
  generalize (b.dispatch client session.peer r).1 = t at hserver hhearing
  generalize (b.dispatch client session.peer r).2 = job at hhearing
  cases hhearing with
  | answered hcall _ _ => rcases hcall with rfl | ⟨rid, rfl⟩ <;> cases hr _ rfl
  | asked spec _ _ _ => cases hr _ rfl
  | stopping _ => cases hr _ rfl
  | forbidden report _ =>
      have hlog : (b.log report).sessions.get? client = some session := hs
      obtain ⟨hrequests, hdevice⟩ := holdings_dropClient (b.log report) client
      constructor
      · rw [hserver, talk_dropClient hlog, talk_log, hb, talk_afterReading, List.append_assoc]
        rfl
      · rw [hserver, sessions_dropClient hlog]
        rfl
      · intro k hk
        rw [hserver]
        exact closedAt_of_dropped (s := b.log report) hk
      · rw [hserver, hrequests]
        rfl
      · rw [hserver, hdevice]
        rfl

/-- The reply to a message that is answered when it is read arrives at the client. -/
theorem arrives_heard {r : Except WireError Message} {reply : Message}
    (hheard : l.hears? = some (client, r)) (hnow : isPostponed r = false)
    (hsaid : (Handled.mk client r l.server).outcome = .said reply)
    (hlink : linkOf? l.server client = some k) :
    ∃ a b, l.server.net.links[k]? = some a ∧ l.step.server.net.links[k]? = some b ∧
      b.client.inbox = a.client.inbox ++ reply.encode := by
  obtain ⟨-, -, -, e, es, session, -, -, hs, hstep⟩ := eq_of_hears? hheard
  set b := l.server.afterReading client session r with hb
  have hserver : l.step.server = (b.dispatch client session.peer r).1 := by
    rw [hstep]
    rfl
  have hb' : b.sessions.get? client = some session := hs
  rw [linkOf?_of_get? hs] at hlink
  cases hlink
  have hhearing := hearing b client session.peer r
  rw [hserver]
  generalize (b.dispatch client session.peer r).1 = t at hhearing
  generalize (b.dispatch client session.peer r).2 = job at hhearing
  cases hhearing with
  | @answered msg reply' u _ hsame hreply =>
      have hrespond : l.server.respond msg = some reply' := hreply
      obtain ⟨hw, rfl⟩ := said_of_turnFor
        ((outcome_of_respond (h := ⟨client, .ok msg, l.server⟩) rfl hrespond).symm.trans hsaid)
      have hu : u.sessions.get? client = some session := by rw [hsame.sessions, hb']
      have huw : u.writable client = true := by
        rw [hsame.writable, writable_afterReading hs]
        exact hw
      obtain ⟨a', c, ha', hc, hinbox⟩ := inbox_reply hu huw reply'
      rw [hsame.net] at ha'
      obtain ⟨a, ha, hclient, -⟩ := l.server.link_afterReading client _ ha'
      exact ⟨a, c, ha, hc, by rw [hinbox, hclient]⟩
  | asked spec _ _ _ => cases hnow
  | stopping _ => cases hnow
  | forbidden report hr =>
      rw [outcome_of_forbidden hr] at hsaid
      cases hsaid

/-- A reply that was written has arrived at the client. -/
theorem arrives_step {h : Handled} {reply : Message} (hl : Coherent l)
    (hhandles : l.handles? = some h) (hsaid : h.outcome = .said reply)
    (hlink : linkOf? l.server h.client = some k) :
    ∃ a b, l.server.net.links[k]? = some a ∧ l.step.server.net.links[k]? = some b ∧
      b.client.inbox = a.client.inbox ++ reply.encode := by
  cases handles_of_handles? hhandles with
  | finishes job hend hjob hpasses =>
      obtain ⟨session, hs, rfl⟩ := Option.map_eq_some_iff.mp hlink
      obtain ⟨u, reply', hsame, hreply, hfinish⟩ := l.server.finish_eq_reply job
      have houtcome := outcome_of_respond (h := ⟨job.client, .ok (.request job.spec), l.server⟩)
        rfl hreply
      obtain ⟨hw, rfl⟩ := said_of_turnFor (houtcome.symm.trans hsaid)
      have hu : u.sessions.get? job.client = some session := by rw [hsame.sessions, hs]
      rw [step_of_job hend hjob hpasses, ← hsame.net]
      show ∃ a b, _ ∧ (l.server.finish job).net.links[session.link]? = some b ∧ _
      rw [hfinish]
      exact inbox_reply hu ((hsame.writable _).trans hw) reply'
  | parts id hend hjob hphase hstop =>
      obtain ⟨session, hs, rfl⟩ := Option.map_eq_some_iff.mp hlink
      have houtcome := outcome_of_respond (h := ⟨id, .ok .stop, l.server⟩) rfl rfl
      obtain ⟨hw, rfl⟩ := said_of_turnFor (houtcome.symm.trans hsaid)
      rw [step_drains hend hjob hphase hstop]
      exact inbox_drain hl.links.apart rfl hs hw
  | reads id r hheard hnow => exact arrives_heard hheard hnow hsaid hlink

end Serving

end Loop

end LineKeeper
