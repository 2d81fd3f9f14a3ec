import LineKeeper.Proofs.Coherence
import LineKeeper.Proofs.Retention

/-!
# A call that fails changes nothing

A line request that the device refuses and a RELEASE of an identifier without a record
are answered with an error, and that is all.  A line request is read in one step and
carried out in another; in between anything may happen around the server, and the
server itself waits.

`Loop.Fails` says when a call fails, and `Loop.Failed` what is then as it was:

* the held requests, their counter and the device's grants;
* every session but the sender's, and every link but the sender's;
* the identifier of the next request that is granted.

What the sender is sent is one error, with the number that the device gave.

**Result.** `Loop.Reachable.failure_changes_nothing`.
-/

namespace LineKeeper

namespace Server

variable {s t : Server}

/-- A line request that the device refuses is answered with the device's error. -/
theorem respond_of_refused {spec : LineSpec} {e : Errno}
    (h : (s.device.request spec).1 = .error e) : s.respond (.request spec) = some (.error e) := by
  simp only [respond, h]

theorem respond_of_unknown {id : RequestId} (h : s.requests.get? id = none) :
    s.respond (.release id) = some (.error Errno.noEntry) := by
  simp only [respond, h, Option.isSome_none, Bool.false_eq_true, if_false]

end Server

namespace Loop

open Server

variable {l m n : Loop} {chips : Chips} {period : Nat} {client : ClientId}

section Counting

/-- No request was granted since `l`. -/
def NoGrantSince (l m : Loop) : Prop :=
  ∀ id chip offsets, Effect.log (.granted id chip offsets) ∉ l.news m

theorem NoGrantSince.earlier (h : NoGrantSince l n) (hstep : Next m n) : NoGrantSince l m := by
  intro id chip offsets hmem
  obtain ⟨later, hlater⟩ := hstep.change.trace
  refine h id chip offsets ?_
  rw [news, ← hlater, List.drop_append]
  exact List.mem_append_left _ hmem

/-- Only a request that is granted moves the counter of the identifiers. -/
theorem Run.counter (h : Run l m) (hnone : NoGrantSince l m) :
    m.server.requests.issued = l.server.requests.issued := by
  induction h with
  | refl => rfl
  | @tail a b hrun hstep ih =>
      refine Eq.trans ?_ (ih (hnone.earlier hstep))
      cases hstep.change with
      | quiet h => rw [h.requests]
      | gaveBack client id held h =>
          rw [h.requests]
          rfl
      | granted job hjob h =>
          obtain ⟨before, hbefore, hreported⟩ := h.reported
          exact absurd (mem_news ((Run.trace hrun).trans hbefore) hreported) (hnone _ _ _)
      | emptied why hend h => exact h.counter

end Counting

section Failing

/-- A message from a client fails with an error.  It is read in the next step of `l`; while a line
request waits, `bs` happens around the server; and the error is decided in the step from `w` to
`n`. -/
inductive Fails (l : Loop) (client : ClientId) :
    Message → Errno → List Action → Loop → Loop → Prop
  | refused (spec : LineSpec) (e : Errno) (bs : List Action)
      (hheard : l.hears? = some (client, .ok (.request spec)))
      (haround : .serve ∉ bs)
      (hpasses : (l.step.play bs).isStuck = false)
      (hrefuses : ((l.step.play bs).server.device.request spec).1 = .error e) :
      Fails l client (.request spec) e bs (l.step.play bs) (l.step.play bs).step
  | unknown (id : RequestId)
      (hheard : l.hears? = some (client, .ok (.release id)))
      (hnone : l.server.requests.get? id = none) :
      Fails l client (.release id) Errno.noEntry [] l l.step

/-- What is as it was, and what the sender was sent. -/
structure Failed (l : Loop) (client : ClientId) (msg : Message) (e : Errno) (bs : List Action)
    (w n : Loop) : Prop where
  requests : n.server.requests = l.server.requests
  grants : n.server.device.grants = l.server.device.grants
  issued : n.server.device.issued = l.server.device.issued
  held : ∀ chip o, n.server.device.isHeld chip o = l.server.device.isHeld chip o
  others : ∀ other, other ≠ client →
    n.server.sessions.get? other = l.server.sessions.get? other
  links : ∀ k, linkOf? l.server client ≠ some k →
    n.server.net.links[k]? = (bs.foldl Net.after l.server.net).links[k]?
  told : n.server.talk = l.server.talk ++
    [(client, .heard (.ok msg)),
      (client, if w.server.writable client then .said (.error e) else .closed)]
  sent : w.server.writable client = true → ∀ k, linkOf? l.server client = some k →
    ∃ a b, w.server.net.links[k]? = some a ∧ n.server.net.links[k]? = some b ∧
      b.client.inbox = a.client.inbox ++ (Message.error e).encode
  next : ∀ q job handle, Run n q → NoGrantSince n q → GrantsNext q job handle →
    let id := (l.server.requests.insert (job.held handle)).1
    Effect.log (.granted id job.spec.chipPath.text job.spec.offsets.list) ∈ q.news q.step ∧
      q.step.server.requests.get? id = some (job.held handle)

/-- Where the counter is as it was, the next request that is granted gets the identifier that it
would have got before. -/
theorem granted_next (hn : Reachable chips period n)
    (hcounter : n.server.requests.issued = l.server.requests.issued) {q : Loop} {job : Job}
    {handle : Nat} (hq : Run n q) (hnone : NoGrantSince n q) (hgrant : GrantsNext q job handle) :
    let id := (l.server.requests.insert (job.held handle)).1
    Effect.log (.granted id job.spec.chipPath.text job.spec.offsets.list) ∈ q.news q.step ∧
      q.step.server.requests.get? id = some (job.held handle) := by
  have hgranted := hgrant.granted
  have hhandle : handle = q.server.device.issued + 1 := by
    have hok := hgrant.outcome
    rw [hgranted.outcome] at hok
    exact (Except.ok.inj hok).symm
  have hid : (l.server.requests.insert (job.held handle)).1 =
      (q.server.requests.insert (job.held handle)).1 := by
    rw [Requests.insert_fst, Requests.insert_fst, Run.counter hq hnone, hcounter]
  have hreachable : Reachable chips period q := Run.trans hn hq
  rw [hid, hhandle]
  obtain ⟨before, hbefore, hreported⟩ := hgranted.reported
  refine ⟨mem_news hbefore hreported, ?_⟩
  rw [hgranted.requests]
  exact Requests.get?_insert_self hreachable.balanced.sorted _

/-- What is as it was where `b` has read the message, has changed nothing else that a client could
notice, and answers with the error. -/
theorem failed_of_reply {msg : Message} {e : Errno} {bs : List Action} {w : Loop} {b u : Server}
    {session : Session} (hs : l.server.sessions.get? client = some session)
    (hn : Reachable chips period n) (hquiet : Quiet l.server n.server)
    (hsessions : b.sessions = l.server.sessions)
    (htalk : b.talk = l.server.talk ++ [(client, .heard (.ok msg))])
    (hlinks : ∀ k, linkOf? l.server client ≠ some k →
      b.net.links[k]? = (bs.foldl Net.after l.server.net).links[k]?)
    (hwritable : b.writable client = w.server.writable client)
    (hinbox : ∀ a', b.net.links[session.link]? = some a' →
      ∃ a, w.server.net.links[session.link]? = some a ∧ a'.client = a.client)
    (hsame : SameClients b u) (hreply : n.server = u.reply client (.error e)) :
    Failed l client msg e bs w n := by
  have hu : u.sessions.get? client = some session := by
    rw [hsame.sessions, hsessions, hs]
  have huw : u.writable client = w.server.writable client :=
    (hsame.writable client).trans hwritable
  have hconfined := confined_reply u client (.error e)
  rw [← hreply] at hconfined
  constructor
  · exact hquiet.requests
  · exact hquiet.grants
  · exact hquiet.issued
  · intro chip o
    rw [Device.isHeld, hquiet.grants, Device.isHeld]
  · intro other hne
    rw [hconfined.get?_of_ne hne, hsame.sessions, hsessions]
  · intro k hk
    have hk' : linkOf? u client ≠ some k := by
      rw [linkOf?_of_get? hu, ← linkOf?_of_get? hs]
      exact hk
    rw [hconfined.links k hk', hsame.net, hlinks k hk]
  · rw [hreply, talk_reply hu, hsame.talk, htalk, turnFor, huw, List.append_assoc]
    rfl
  · intro hw k hk
    rw [linkOf?_of_get? hs] at hk
    cases hk
    obtain ⟨a', b', ha', hb', hbytes⟩ := inbox_reply hu (huw.trans hw) (.error e)
    rw [hsame.net] at ha'
    obtain ⟨a, ha, hclient⟩ := hinbox a' ha'
    rw [← hreply] at hb'
    exact ⟨a, b', ha, hb', by rw [hbytes, hclient]⟩
  · intro q job handle hq hnone hgrant
    exact granted_next hn (congrArg Requests.issued hquiet.requests) hq hnone hgrant

theorem Reachable.failure_changes_nothing {msg : Message} {e : Errno} {bs : List Action} {w : Loop}
    (hl : Reachable chips period l) (h : Fails l client msg e bs w n) :
    Failed l client msg e bs w n := by
  cases h with
  | refused spec e bs hheard haround hpasses hrefuses =>
      obtain ⟨hend, -, -, -, es, session, -, -, hs, hstep⟩ := eq_of_hears? hheard
      -- The server has read the request and reported it.
      have hserver : l.step.server = (l.server.afterReading client session (.ok (.request spec))).log
          (.handling spec.chipPath.text spec.offsets.list spec.output) := by
        rw [hstep]
        rfl
      have hread : Confined client l.server l.step.server := by
        rw [hserver]
        exact (confined_afterReading hs _).trans ((sameClients_log _ _).confined client)
      have hbetween := around_play l.step haround
      set w := l.step.play bs with hw
      have hend' : w.ending = none := by
        rw [hbetween.ending, hstep]
        exact hend
      have hjob : w.job = some ⟨client, session.peer.pid, spec⟩ := by
        rw [hbetween.job, hstep]
        rfl
      have hfinal : w.step.server = w.server.finish ⟨client, session.peer.pid, spec⟩ := by
        rw [step_of_job hend' hjob hpasses]
        rfl
      obtain ⟨u, r, hsame, hrespond, hfinish⟩ :=
        w.server.finish_eq_reply ⟨client, session.peer.pid, spec⟩
      rw [respond_of_refused hrefuses] at hrespond
      cases hrespond
      have hn : Reachable chips period w.step :=
        ((Run.trans hl (run_step l)).trans (run_play l.step bs)).trans (run_step w)
      refine failed_of_reply hs hn ?_ ?_ ?_ ?_ rfl (fun a ha => ⟨a, ha, rfl⟩) hsame
        (hfinal.trans hfinish)
      · have hlog : Quiet l.server l.step.server := by
          rw [hserver]
          exact (quiet_afterReading _ _ _ _).trans (quiet_log _ _)
        rw [hfinal]
        exact (hlog.trans hbetween.quiet).trans (quiet_finish hrefuses)
      · rw [hbetween.sessions, hserver]
        rfl
      · rw [hbetween.talk, hserver, talk_log]
        exact talk_afterReading _ _ _ _
      · intro k hk
        rw [hw, net_play _ haround]
        exact links_foldl_after_congr (hread.links k hk) hread.count hread.listens bs
  | unknown id hheard hnone =>
      obtain ⟨-, -, -, -, es, session, -, -, hs, hstep⟩ := eq_of_hears? hheard
      set b := l.server.afterReading client session (.ok (.release id)) with hb
      have hserver : l.step.server = b.release client id := by
        rw [hstep]
        rfl
      have hnone' : b.requests.get? id = none := hnone
      have hsessions : b.sessions = l.server.sessions := rfl
      obtain ⟨u, r, hsame, hrespond, hrelease⟩ := b.release_eq_reply client id
      rw [respond_of_unknown hnone'] at hrespond
      cases hrespond
      refine failed_of_reply hs (Run.trans hl (run_step l)) ?_ hsessions ?_ ?_ ?_ ?_ hsame
        (hserver.trans hrelease)
      · rw [hserver]
        exact (quiet_afterReading _ _ _ _).trans (quiet_release_of_none hnone')
      · exact talk_afterReading _ _ _ _
      · exact (confined_afterReading hs _).links
      · exact writable_afterReading hs _
      · intro a' ha'
        obtain ⟨a, ha, hclient, -⟩ := l.server.link_afterReading client _ ha'
        exact ⟨a, ha, hclient⟩

/-- A request for a line of a chip that is not there. -/
def strayRequest : LineSpec :=
  (LineSpec.new "/dev/gpiochip9" [0]).toOption.get (by decide +kernel)

/-- A server that is about to read this request from its first client. -/
def strayed : Loop :=
  (start Chips.twoLines 0).play [.serve, .connect (.usual ⟨0, 0, ""⟩), .serve, .serve, .serve,
    .send 0 (Message.request strayRequest).encode, .serve]

theorem stray_request_changes_nothing :
    Fails strayed ⟨0⟩ (.request strayRequest) Errno.noEntry [] strayed.step strayed.step.step ∧
      Failed strayed ⟨0⟩ (.request strayRequest) Errno.noEntry [] strayed.step
        strayed.step.step := by
  have hreachable : Reachable Chips.twoLines 0 strayed := run_play _ _
  have hheard : strayed.hears? = some (⟨0⟩, .ok (.request strayRequest)) := by decide +kernel
  have hpasses : (strayed.step.play []).isStuck = false := by decide +kernel
  have hrefuses : ((strayed.step.play []).server.device.request strayRequest).1 =
      .error Errno.noEntry := by decide +kernel
  have hfails := Fails.refused strayRequest Errno.noEntry [] hheard List.not_mem_nil hpasses
    hrefuses
  rw [play_nil] at hfails
  exact ⟨hfails, hreachable.failure_changes_nothing hfails⟩

end Failing

end Loop
end LineKeeper
