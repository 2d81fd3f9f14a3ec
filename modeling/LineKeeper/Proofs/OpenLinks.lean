import LineKeeper.Proofs.Attention

/-!
# The link of a connected client

While a client is connected, both ends of its link are in use, and all that the link holds
are bytes on their way (`Link.carrying`).  `Loop.Holds` says that a server runs and that a
link, which is accepted or waits, holds certain bytes.

Nothing that is done elsewhere changes this (`Holds.act`), and neither does a step of the
server (`Holds.step`), unless the step reads from this client.  The exceptions are those that
this client has no part in (`Overtaken`): another client's STOP and, while the link waits, an
idle timer that has expired or cannot be set, or a client that the server does not admit.
-/

namespace LineKeeper

/-- A link of which both ends are in use, with the bytes that wait for the client and those that
wait for the server. -/
def Link.carrying (origin : Origin) (forClient forServer : List UInt8) : Link :=
  ⟨⟨forClient, false, true, true⟩, ⟨forServer, false, true, true⟩, origin⟩

namespace Link

section Carrying

theorem take_server_carrying {y : List UInt8} (hy : y ≠ []) (origin : Origin) (x : List UInt8)
    (n : Nat) :
    (carrying origin x y).take .server n = (.data (y.take n), carrying origin x (y.drop n)) := by
  have hne : (!y.isEmpty) = true := by
    rw [Bool.not_eq_true', List.isEmpty_eq_false_iff]
    exact hy
  have hside : ((carrying origin x y).side .server).inbox = y := rfl
  simp only [take, hside, hne, if_true]
  rfl

theorem isReadable_carrying {y : List UInt8} (hy : y ≠ []) (origin : Origin) (x : List UInt8) :
    (carrying origin x y).isReadable .server = true := by
  have hside : ((carrying origin x y).side .server).inbox = y := rfl
  rw [isReadable, hside, List.isEmpty_eq_false_iff.mpr hy]
  rfl

end Carrying

end Link

namespace Action

/-- The action is not about the link, and it is no signal that ends the server. -/
def Spares (a : Action) (i : Nat) : Prop :=
  a.link? ≠ some i ∧ ∀ s, a = .raise s → s.isTerminating = false

end Action

namespace Server

open Loop (linkOf?)

variable {s t : Server} {id : ClientId} {i : Nat}

section Using

/-- The link belongs to a session, or it waits to be accepted. -/
def Uses (s : Server) (i : Nat) : Prop :=
  (∃ id, linkOf? s id = some i) ∨ i ∈ s.net.waiting

theorem Uses.congr (h : s.Uses i) (hsessions : t.sessions = s.sessions)
    (hwaiting : i ∈ s.net.waiting → i ∈ t.net.waiting) : t.Uses i := by
  rcases h with ⟨id, hid⟩ | hwaits
  · left
    refine ⟨id, ?_⟩
    rw [linkOf?, hsessions]
    exact hid
  · exact .inr (hwaiting hwaits)

theorem Uses.confined (h : s.Uses i) (hst : Confined id s t) (hne : linkOf? s id ≠ some i) :
    t.Uses i := by
  rcases h with ⟨other, hother⟩ | hwaits
  · left
    refine ⟨other, ?_⟩
    have hid : other ≠ id := by
      rintro rfl
      exact hne hother
    rw [linkOf?, hst.get?_of_ne hid]
    exact hother
  · right
    rw [hst.waiting]
    exact hwaits

/-- A link that is not the next to be accepted stays in use. -/
theorem Uses.accept (h : s.Uses i) (hhead : s.net.waiting.head? ≠ some i) : s.accept.Uses i := by
  rcases h with ⟨id, hid⟩ | hwaits
  · left
    obtain ⟨session, hs, hlink⟩ := Option.map_eq_some_iff.mp hid
    refine ⟨id, ?_⟩
    rw [linkOf?, s.accepts.get?_of_some hs, Option.map_some, hlink]
  · exact .inr (s.accepts.mem_waiting hwaits hhead)

/-- A server that has a session is in use. -/
theorem useCount_pos (h : linkOf? s id = some i) : s.useCount ≠ 0 := by
  obtain ⟨session, hs, -⟩ := Option.map_eq_some_iff.mp h
  have hpos : 0 < s.sessions.entries.length := List.length_pos_of_mem (Sessions.mem_of_get? hs)
  have hle : s.sessions.entries.length ≤ s.useCount := Nat.le_add_right _ _
  omega

/-- Only the timer of a server that nobody uses is set. -/
theorem useCount_of_updateIdle_error {e : Errno} (h : s.updateIdle = .error e) :
    s.useCount = 0 := by
  cases hcount : s.useCount with
  | zero => rfl
  | succ n =>
      rw [updateIdle, hcount] at h
      cases harmed : s.idle.isArmed <;> simp [IdleTimer.update, Transition.next, harmed] at h

/-- Where no signal waits, taking signals is no reason to stop. -/
theorem takeSignals_of_none (h : s.signals.waiting = []) :
    s.takeSignals.stop = s.stop ∧ s.takeSignals.signals.waiting = [] := by
  have hnone : s.signals.take = (none, PendingSignals.empty) := by
    simp [PendingSignals.take, h]
  simp only [takeSignals, hnone]
  exact ⟨trivial, rfl⟩

theorem signals_takeExpiry (s : Server) : s.takeExpiry.signals = s.signals := by
  unfold takeExpiry
  split
  · rfl
  · dsimp only
    split <;> rfl

/-- Anything but a STOP gives no reason to stop, and leaves at most a line request of its sender. -/
theorem unstopped_of_hearing {peer : Peer} {r : Except WireError Message} {job : Option Job}
    (h : Hearing s id peer r t job) (hr : r ≠ .ok .stop) :
    (∀ job', job = some job' → job'.client = id) ∧ t.stop = s.stop := by
  cases h with
  | answered _ hsame _ =>
      refine ⟨by rintro job' ⟨⟩, ?_⟩
      rw [stop_reply, hsame.stop]
  | asked spec hsame _ _ => exact ⟨by rintro job' ⟨⟩; rfl, hsame.stop⟩
  | stopping _ => exact absurd rfl hr
  | forbidden report _ => exact ⟨by rintro job' ⟨⟩, stop_dropClient _ _⟩

end Using

section Reading

variable {e : Readiness} {origin : Origin} {x y : List UInt8}

/-- An event of a client whose link carries nothing for the server brings no message. -/
theorem hears?_of_silent (htoken : Receiver.ofToken? e.token = some (.client id))
    (hlink : linkOf? s id = some i) (hl : s.net.links[i]? = some (Link.carrying origin x [])) :
    s.hears? e = none ∧ (s.net.take i .server frameSize).1 = .nothing := by
  have htake : (s.net.take i .server frameSize).1 = .nothing := by
    rw [Net.take_fst_of_some hl]
    rfl
  refine ⟨?_, htake⟩
  simp only [hears?, htoken, hlink, htake]

/-- Otherwise it brings the message that comes first. -/
theorem hears?_of_carrying (htoken : Receiver.ofToken? e.token = some (.client id))
    (hlink : linkOf? s id = some i) (hl : s.net.links[i]? = some (Link.carrying origin x y))
    (hy : y ≠ []) : s.hears? e = some (id, Message.decode (y.take frameSize)) := by
  have htake : (s.net.take i .server frameSize).1 = .data (y.take frameSize) := by
    rw [Net.take_fst_of_some hl, Link.take_server_carrying hy]
  simp only [hears?, htoken, hlink, htake]

/-- A client that is connected is not taken to be gone. -/
theorem not_left {session : Session} (htoken : Receiver.ofToken? e.token = some (.client id))
    (hs : s.sessions.get? id = some session) (hlink : session.link = i)
    (hl : s.net.links[i]? = some (Link.carrying origin x y)) (hr : s.hears? e = none)
    (hflag : e.hungUp = true → s.net.isHungUp i .server = true) :
    ¬ ((s.net.take session.link .server frameSize).1 ≠ .nothing ∨ e.hungUp = true) := by
  have hid : linkOf? s id = some i := by rw [linkOf?_of_get? hs, hlink]
  by_cases hy : y = []
  · subst hy
    rintro (htake | hungUp)
    · rw [hlink] at htake
      exact htake (hears?_of_silent htoken hid hl).2
    · have hgone := hflag hungUp
      rw [Net.isHungUp_of_some hl] at hgone
      cases hgone
  · rw [hears?_of_carrying htoken hid hl hy] at hr
    cases hr

end Reading

end Server

namespace Loop

open Server

variable {l : Loop} {n i k : Nat} {x y : List UInt8} {a : Action} {id : ClientId}

section Holding

/-- The server runs, and the link of a client that is connected holds the bytes `x` for the client
and the bytes `y` for the server.  No message of the client waits to be handled. -/
structure Holds (l : Loop) (i : Nat) (x y : List UInt8) : Prop where
  ending : l.ending = none
  stop : l.server.stop = none
  signals : l.server.signals.waiting = []
  uses : l.server.Uses i
  link : ∃ origin, l.server.net.links[i]? = some (Link.carrying origin x y)
  free : ∀ job, l.job = some job → linkOf? l.server job.client ≠ some i

/-- The next step ends the server, or gives it a reason to stop, without this client, or the server
closes the link without admitting the client. -/
inductive Overtaken (l : Loop) (i : Nat) : Prop
  | stopped (other : ClientId) (hheard : l.hears? = some (other, .ok .stop))
      (hother : linkOf? l.server other ≠ some i)
  | expired (hwaits : i ∈ l.server.net.waiting) (hstop : l.step.server.stop = some .idle)
  | failed (hwaits : i ∈ l.server.net.waiting) (e : Errno)
      (hend : l.step.ending = some (.failed e))
  | refused (haccepts : l.accepts? = some i) (hseats : l.seats? = none)
      (hgone : i ∉ l.step.server.net.waiting)

theorem mem_waiting_after {net : Net} (a : Action) (h : i ∈ net.waiting) :
    i ∈ (net.after a).waiting := by
  cases hlink : a.link? with
  | some j =>
      rw [after_of_link? net hlink]
      exact h
  | none =>
      rcases after_of_link?_none net hlink with hsame | ⟨-, origin, -, hafter⟩
      · rw [hsame]
        exact h
      · rw [hafter]
        exact List.mem_append_left _ h

theorem signals_of_spares (ha : a ≠ .serve) (hspares : a.Spares i)
    (h : l.server.signals.waiting = []) : (l.act a).server.signals.waiting = [] := by
  by_cases hraise : ∃ s, a = .raise s
  · obtain ⟨s, rfl⟩ := hraise
    have hignored := PendingSignals.raise_of_not_terminating (p := l.server.signals)
      (hspares.2 s rfl)
    show (l.server.signals.raise s).waiting = []
    rw [hignored, h]
  · rw [signals_act l ha fun s hs => hraise ⟨s, hs⟩, h]

theorem Holds.act (h : Holds l i x y) (ha : a ≠ .serve) (hspares : a.Spares i) :
    Holds (l.act a) i x y := by
  have haround := around_act l ha
  have hnet := net_act l ha
  obtain ⟨origin, hlink⟩ := h.link
  have hlt : i < l.server.net.links.length := (List.getElem?_eq_some_iff.mp hlink).1
  constructor
  · rw [haround.ending]
    exact h.ending
  · rw [haround.stop]
    exact h.stop
  · exact signals_of_spares ha hspares h.signals
  · refine h.uses.congr haround.sessions fun hwaits => ?_
    rw [hnet]
    exact mem_waiting_after a hwaits
  · refine ⟨origin, ?_⟩
    rw [hnet, links_after_of_ne _ hlt hspares.1, hlink]
  · intro job hjob
    rw [haround.linkOf?]
    exact h.free job (haround.job ▸ hjob)

/-- A step that is about another client changes nothing. -/
theorem Holds.confined {m : Loop} (h : Holds l i x y) (hne : linkOf? l.server id ≠ some i)
    (hconfined : Confined id l.server m.server) (hend : m.ending = none)
    (hstop : m.server.stop = none)
    (hfree : ∀ job, m.job = some job → linkOf? m.server job.client ≠ some i) :
    Holds m i x y := by
  obtain ⟨origin, hlink⟩ := h.link
  refine ⟨hend, hstop, ?_, h.uses.confined hconfined hne, ⟨origin, ?_⟩, hfree⟩
  · rw [hconfined.signals]
    exact h.signals
  · rw [hconfined.links i hne, hlink]

/-- A step that no client could notice changes nothing. -/
theorem Holds.same {m : Loop} (h : Holds l i x y) (hend : m.ending = none)
    (hsessions : m.server.sessions = l.server.sessions) (hnet : m.server.net = l.server.net)
    (hstop : m.server.stop = l.server.stop) (hsignals : m.server.signals.waiting = [])
    (hjob : m.job = none ∨ m.job = l.job) : Holds m i x y := by
  refine ⟨hend, hstop.trans h.stop, hsignals, h.uses.congr hsessions ?_, ?_, ?_⟩
  · rw [hnet]
    exact fun hwaits => hwaits
  · rw [hnet]
    exact h.link
  · intro job hj
    rw [linkOf?, hsessions]
    rcases hjob with hnone | hsame
    · rw [hnone] at hj
      cases hj
    · exact h.free job (hsame ▸ hj)

/-- Neither does a message from another client, unless it is a STOP. -/
theorem Holds.hears_other {session : Session} {r : Except WireError Message} (h : Holds l i x y)
    (hs : l.server.sessions.get? id = some session) (hlink : linkOf? l.server id ≠ some i)
    (hstop : r ≠ .ok .stop) (hend : l.step.ending = none)
    (hhearing : Hearing (l.server.afterReading id session r) id session.peer r l.step.server
      l.step.job) : Holds l.step i x y := by
  have hconfined : Confined id l.server l.step.server :=
    (confined_afterReading hs r).trans hhearing.confined
  obtain ⟨hasker, hunstopped⟩ := unstopped_of_hearing hhearing hstop
  refine h.confined hlink hconfined hend (hunstopped.trans h.stop) ?_
  intro job hjob
  rw [hasker job hjob]
  exact hconfined.linkOf?_ne hlink

/-- A client that is connected is not taken to be gone, whatever was reported. -/
theorem Holds.not_left {session : Session} {e : Readiness} {es : List Readiness}
    (h : Holds l i x y) (hatt : Attentive n l) (hphase : l.phase = .handling (e :: es))
    (htoken : Receiver.ofToken? e.token = some (.client id))
    (hs : l.server.sessions.get? id = some session) (hr : l.server.hears? e = none)
    (hgone : (l.server.net.take session.link .server frameSize).1 ≠ .nothing ∨ e.hungUp = true) :
    linkOf? l.server id ≠ some i := by
  intro hid
  obtain ⟨origin, hl⟩ := h.link
  have hlink := hid
  rw [linkOf?_of_get? hs] at hlink
  refine Server.not_left htoken hs (Option.some.inj hlink) hl hr ?_ hgone
  intro hflag
  refine hatt.hungUp e ?_ hflag id i htoken hid
  simp only [pending, hphase]
  exact List.mem_cons_self

/-- Accepting a connection changes nothing, unless it is this one and the client is not admitted. -/
theorem Holds.accepts (h : Holds l i x y) (hl : Coherent l)
    (hfresh : l.server.sessions.next ∉ l.server.sessions.ids) (haccepts : l.accepts? = some k) :
    Holds l.step i x y ∨ Overtaken l i := by
  obtain ⟨hend, hjob, hserver⟩ := accept_of_accepts? haccepts
  have hreception := l.server.reception
  rw [← hserver] at hreception
  have hwaits := (List.nodup_append.mp hl.links.apart).2.1
  obtain ⟨origin, hlink⟩ := h.link
  have hheld : l.step.server.Uses i →
      (∃ origin, l.step.server.net.links[i]? = some (Link.carrying origin x y)) →
        Holds l.step i x y := by
    intro huses hlink'
    refine ⟨hend, hreception.stop.trans h.stop, ?_, huses, hlink', ?_⟩
    · rw [hreception.signals]
      exact h.signals
    · rw [hjob]
      rintro job ⟨⟩
  by_cases hik : i = k
  · subst hik
    have hkept : ∀ f : Link → Link, (l.server.net.modify i f).links[i]? =
        some (f (Link.carrying origin x y)) := fun f => Net.links_modify_self f hlink
    cases received haccepts with
    | failed ks errno hwaiting _ _ _ hstep =>
        refine .inl (hheld (.inr ?_) ⟨_, by rw [hstep]; exact hkept Link.retried⟩)
        rw [hstep]
        show i ∈ l.server.net.waiting
        rw [hwaiting]
        exact List.mem_cons_self
    | turnedAway ks report hwaiting _ hseats hstep =>
        rw [hwaiting, List.nodup_cons] at hwaits
        exact .inr (.refused haccepts hseats (by rw [hstep]; exact hwaits.1))
    | seatedBriefly ks errno hwaiting _ hseats hstep =>
        rw [hwaiting, List.nodup_cons] at hwaits
        exact .inr (.refused haccepts hseats (by rw [hstep]; exact hwaits.1))
    | seated ks hwaiting _ _ hstep =>
        refine .inl (hheld (.inl ⟨l.server.sessions.next, ?_⟩) ⟨origin, ?_⟩)
        · rw [hstep, linkOf?]
          simp only [seat]
          rw [Sessions.get?_insert_self _ hfresh, Option.map_some]
        · rw [hstep]
          exact hlink
  · have hhead : l.server.net.waiting.head? ≠ some i := by
      obtain ⟨-, -, -, -, -, ks, -, -, hwaiting⟩ := eq_of_accepts? haccepts
      rw [hwaiting]
      exact fun hki => hik (Option.some.inj hki).symm
    refine .inl (hheld ?_ ⟨origin, ?_⟩)
    · rw [hserver]
      exact h.uses.accept hhead
    · rw [hserver, l.server.accepts.links_of_ne hhead]
      exact hlink

/-- Handling an event changes nothing, unless the event is a message from the client or another
client's STOP, or the timer of a server that nobody uses has expired. -/
theorem Holds.begins {e : Readiness} {es : List Readiness} (h : Holds l i x y)
    (hatt : Attentive n l) (hl : Coherent l)
    (hfresh : l.server.sessions.next ∉ l.server.sessions.ids)
    (hjob : l.job = none) (hphase : l.phase = .handling (e :: es))
    (hbegins : Begins l.server e l.step.server l.step.job) (hend : l.step.ending = none) :
    Holds l.step i x y ∨ Overtaken l i ∨
      ∃ id r, l.hears? = some (id, r) ∧ linkOf? l.server id = some i := by
  obtain ⟨t, ht⟩ : ∃ t, l.step.server = t := ⟨_, rfl⟩
  obtain ⟨job, hj⟩ : ∃ job, l.step.job = job := ⟨_, rfl⟩
  rw [ht, hj] at hbegins
  have hnojob : job = none → ∀ job', l.step.job = some job' →
      linkOf? l.step.server job'.client ≠ some i := by
    rintro rfl job' hjob'
    rw [hj] at hjob'
    cases hjob'
  have hsame : t.sessions = l.server.sessions → t.net = l.server.net →
      t.stop = l.server.stop → t.signals.waiting = [] → job = none → Holds l.step i x y := by
    intro hsessions hnet hstop hsignals hnone
    refine h.same hend (by rw [ht, hsessions]) (by rw [ht, hnet]) (by rw [ht, hstop])
      (by rw [ht, hsignals]) (.inl (hj.trans hnone))
  cases hbegins with
  | accepted htoken =>
      cases haccepts : l.accepts? with
      | some k => exact (h.accepts hl hfresh haccepts).imp_right .inl
      | none =>
          rw [accept_of_nobody h.ending hjob h.stop hphase htoken haccepts] at hsame
          exact .inl (hsame rfl rfl rfl h.signals rfl)
  | signalled htoken =>
      left
      obtain ⟨-, hsessions, -, hnet, -⟩ := l.server.takeSignals_cases
      obtain ⟨hstop, hsignals⟩ := takeSignals_of_none h.signals
      exact hsame hsessions hnet hstop hsignals rfl
  | timed htoken =>
      obtain ⟨hreason, hsessions, -, hnet, -⟩ := l.server.takeExpiry_cases
      have hsignals : l.server.takeExpiry.signals.waiting = [] := by
        rw [signals_takeExpiry]
        exact h.signals
      rcases hreason with hstop | ⟨hidle, hcount⟩
      · exact .inl (hsame hsessions hnet hstop hsignals rfl)
      · right
        left
        rcases h.uses with ⟨id, hid⟩ | hwaits
        · exact absurd hcount (useCount_pos hid)
        · exact .expired hwaits (by rw [ht, hidle])
  | @heard id session r hs hr =>
      have hheard : l.hears? = some (id, r) := by
        simp only [Loop.hears?, h.ending, hjob, h.stop, hphase, hr]
      by_cases hlink : linkOf? l.server id = some i
      · exact .inr (.inr ⟨id, r, hheard, hlink⟩)
      by_cases hstop : r = .ok .stop
      · subst hstop
        exact .inr (.inl (.stopped id hheard hlink))
      left
      refine h.hears_other hs hlink hstop hend ?_
      rw [ht, hj]
      exact hearing _ id session.peer r
  | @left id session report _ htoken hs hr hgone =>
      left
      have hlink := h.not_left hatt hphase htoken hs hr hgone
      refine h.confined hlink (ht ▸ confined_afterLeaving hs report) hend ?_ (hnojob rfl)
      rw [ht]
      exact (stop_dropClient _ _).trans h.stop
  | nothing _ _ => exact .inl (hsame rfl rfl rfl h.signals rfl)
  | stray _ => exact .inl (hsame rfl rfl rfl h.signals rfl)

/-- A step of the server changes nothing, unless it reads from the client or ends the server. -/
theorem Holds.step (h : Holds l i x y) (hatt : Attentive n l) (hl : Coherent l)
    (hfresh : l.server.sessions.next ∉ l.server.sessions.ids) :
    Holds l.step i x y ∨ Overtaken l i ∨
      ∃ id r, l.hears? = some (id, r) ∧ linkOf? l.server id = some i := by
  obtain ⟨hm, -⟩ | ⟨job, -, hjob, -, hm⟩ | ⟨-, hjob, -, hm⟩ | ⟨-, -, -, -, -, hstop, -⟩ |
      ⟨e, es, -, hjob, hphase, -, hbegins, hm⟩ | ⟨why, -, -, -, hstop, -⟩ |
      ⟨s, -, hjob, -, -, hupdate, hm⟩ | ⟨e, -, -, -, -, hupdate, hm⟩ := l.steps
  · rw [hm]
    exact .inl h
  · left
    have hserver : l.step.server = l.server.finish job := by
      rw [hm]
      rfl
    refine h.confined (h.free job hjob) (hserver ▸ confined_finish _ job) ?_ ?_ ?_
    · rw [hm]
      exact h.ending
    · rw [hserver, stop_finish]
      exact h.stop
    · rw [hm]
      rintro job' ⟨⟩
  · left
    rw [hm]
    exact h.same h.ending rfl rfl rfl h.signals (.inr rfl)
  · rw [h.stop] at hstop
    cases hstop
  · refine h.begins hatt hl hfresh hjob hphase hbegins ?_
    rw [hm]
    exact h.ending
  · rw [h.stop] at hstop
    cases hstop
  · left
    have hsame := sameClients_updateIdle hupdate
    rw [hm]
    refine h.same h.ending hsame.sessions hsame.net hsame.stop ?_ (.inr rfl)
    show s.signals.waiting = []
    rw [hsame.signals]
    exact h.signals
  · right
    left
    rcases h.uses with ⟨id, hid⟩ | hwaits
    · exact absurd (useCount_of_updateIdle_error hupdate) (useCount_pos hid)
    · exact .failed hwaits e (by rw [hm]; rfl)

/-- Nothing is read over a link that carries nothing for the server. -/
theorem Holds.unheard (h : Holds l i x []) {r : Except WireError Message}
    (hlink : linkOf? l.server id = some i) : l.hears? ≠ some (id, r) := by
  intro hheard
  obtain ⟨-, -, -, e, es, session, -, hears, -, -⟩ := eq_of_hears? hheard
  obtain ⟨origin, hl⟩ := h.link
  have htoken := (Server.eq_of_hears? hears).1
  rw [(hears?_of_silent htoken hlink hl).1] at hears
  cases hears

/-- What is read over a link is the message that comes first. -/
theorem Holds.heard (h : Holds l i x y) (hy : y ≠ []) {r : Except WireError Message}
    (hlink : linkOf? l.server id = some i) (hheard : l.hears? = some (id, r)) :
    r = Message.decode (y.take frameSize) := by
  obtain ⟨-, -, -, e, es, session, -, hears, -, -⟩ := eq_of_hears? hheard
  obtain ⟨origin, hl⟩ := h.link
  have htoken := (Server.eq_of_hears? hears).1
  rw [hears?_of_carrying htoken hlink hl hy] at hears
  exact (congrArg Prod.snd (Option.some.inj hears)).symm

end Holding

end Loop
end LineKeeper
