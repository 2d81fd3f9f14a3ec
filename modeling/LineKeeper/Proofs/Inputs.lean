import LineKeeper.Proofs.Exchanges

/-!
# What a step of the loop takes from a client

Bytes that a client has sent wait, unread, at the server's end of its link.  A step of the
loop either reads once from the client, at most one frame from the front of these bytes, or
takes nothing from them (`Takes`).  What was read is decoded, and the result is what the
server has heard from the client.

Bytes are added to those unread by what the client sends, and by nothing else
(`unread_after`).
-/

namespace LineKeeper

/-- What was read, if the turn was a reading. -/
def Turn.heard? : Turn → Option (Except WireError Message)
  | .heard r => some r
  | _ => none

namespace Net

variable {net : Net} {a : Action} {i k : Nat} {l : Link}

section Unread

/-- The bytes that wait at the server's end of a link. -/
def unread (net : Net) (k : Nat) : List UInt8 :=
  match net.links[k]? with
  | some l => l.server.inbox
  | none => []

/-- The bytes that an action brings to the server's end of a link. -/
def arriving (net : Net) : Action → Nat → List UInt8
  | .send link bytes, k =>
      match net.send link .client bytes with
      | .ok _ => if link = k then bytes else []
      | .error _ => []
  | _, _ => []

theorem unread_of_some (h : net.links[k]? = some l) : net.unread k = l.server.inbox := by
  simp only [unread, h]

theorem unread_congr {net' : Net} (h : net'.links[k]? = net.links[k]?) :
    net'.unread k = net.unread k := by
  rw [unread, h, unread]

theorem unread_of_length_le (h : net.links.length ≤ k) : net.unread k = [] := by
  simp only [unread, List.getElem?_eq_none h]

/-- A change that spares the bytes that wait for the server. -/
theorem unread_modify {f : Link → Link} (hf : ∀ l, (f l).server.inbox = l.server.inbox) :
    (net.modify i f).unread k = net.unread k := by
  by_cases hk : i = k
  · subst hk
    cases hl : net.links[i]? with
    | none =>
        refine unread_congr ?_
        rw [links_modify, if_pos rfl, hl]
        rfl
    | some l => rw [unread_of_some (links_modify_self f hl), unread_of_some hl, hf]
  · exact unread_congr (links_modify_of_ne f (Ne.symm hk))

theorem unread_opened (net : Net) (origin : Origin) (waiting : List Nat) (k : Nat) :
    ({ net with
      links := net.links ++ [Link.opened origin]
      waiting := waiting }).unread k = net.unread k := by
  rcases Nat.lt_trichotomy k net.links.length with hlt | rfl | hgt
  · exact unread_congr (List.getElem?_append_left hlt)
  · rw [unread_of_length_le (Nat.le_refl _), unread]
    simp only [List.getElem?_concat_length]
    rfl
  · rw [unread_of_length_le (Nat.le_of_lt hgt), unread_of_length_le]
    rw [List.length_append, List.length_singleton]
    exact hgt

/-- What a client does adds to the unread bytes what it sends, and nothing else. -/
theorem unread_after (net : Net) (a : Action) (k : Nat) :
    (net.after a).unread k = net.unread k ++ net.arriving a k := by
  have hkept : ∀ i (f : Link → Link), (∀ l, (f l).server.inbox = l.server.inbox) →
      (net.modify i f).unread k = net.unread k ++ [] := by
    intro i f hf
    rw [unread_modify hf, List.append_nil]
  cases a with
  | send link bytes =>
      cases hsent : net.send link .client bytes with
      | error e =>
          simp only [after, arriving, hsent]
          exact (List.append_nil _).symm
      | ok net' =>
          obtain ⟨l, hl, -, rfl⟩ := eq_of_send_client hsent
          simp only [after, arriving, hsent]
          by_cases hk : link = k
          · subst hk
            rw [unread_of_some (links_modify_self _ hl), unread_of_some hl, if_pos rfl]
            rfl
          · rw [if_neg hk, List.append_nil]
            exact unread_congr (links_modify_of_ne _ (Ne.symm hk))
  | take link n =>
      simp only [after, take_eq]
      refine hkept link _ fun l => ?_
      unfold Link.take
      repeat' split
      all_goals rfl
  | shutdown link => exact hkept link _ fun _ => rfl
  | close link =>
      refine hkept link _ fun l => ?_
      unfold Link.close
      dsimp only
      split <;> rfl
  | connect origin =>
      rcases Loop.after_of_link?_none net (a := .connect origin) rfl with
        hsame | ⟨-, _, -, hopened⟩
      · rw [hsame]
        exact (List.append_nil _).symm
      · rw [hopened, unread_opened]
        exact (List.append_nil _).symm
  | _ => exact (List.append_nil _).symm

end Unread

end Net

namespace Server

open Loop (linkOf?)

variable {s t : Server} {id client : ClientId} {session : Session} {k : Nat}

section Heard

/-- What the server has heard from a client. -/
def heardFrom (s : Server) (client : ClientId) : List (Except WireError Message) :=
  (s.talkWith client).filterMap Turn.heard?

theorem heardFrom_congr (h : t.talkWith client = s.talkWith client) :
    t.heardFrom client = s.heardFrom client := by
  rw [heardFrom, h, heardFrom]

/-- Turns in which nothing is read add nothing. -/
theorem heardFrom_of_turns {turns : List Turn}
    (h : t.talkWith client = s.talkWith client ++ turns)
    (hturns : ∀ turn ∈ turns, turn.heard? = none) :
    t.heardFrom client = s.heardFrom client := by
  rw [heardFrom, h, List.filterMap_append, List.filterMap_eq_nil_iff.mpr hturns,
    List.append_nil, heardFrom]

theorem heard?_turnFor (s : Server) (id : ClientId) (m : Message) :
    (s.turnFor id m).heard? = none := by
  unfold turnFor
  split <;> rfl

theorem heardFrom_reply (h : s.sessions.get? id = some session) (m : Message) :
    (s.reply id m).heardFrom id = s.heardFrom id := by
  refine heardFrom_of_turns (talkWith_reply h m) ?_
  rintro turn hturn
  rw [List.mem_singleton.mp hturn, heard?_turnFor]

theorem heardFrom_dropClient (h : s.sessions.get? id = some session) :
    (s.dropClient id).heardFrom id = s.heardFrom id := by
  refine heardFrom_of_turns (talkWith_dropClient h) ?_
  rintro turn hturn
  rw [List.mem_singleton.mp hturn]
  rfl

theorem heardFrom_afterReading (s : Server) (id : ClientId) (session : Session)
    (r : Except WireError Message) :
    (s.afterReading id session r).heardFrom id = s.heardFrom id ++ [r] := by
  rw [heardFrom, talkWith_afterReading, List.filterMap_append]
  rfl

theorem heardFrom_afterLeaving (h : s.sessions.get? id = some session) (report : LogEvent) :
    (s.afterLeaving id session report).heardFrom id = s.heardFrom id := by
  have hlog : (({ s with net := s.netAfter session }).log report).sessions.get? id =
      some session := h
  rw [afterLeaving, heardFrom_dropClient hlog]
  exact heardFrom_congr ((sameClients_log _ report).talkWith id)

theorem SameClients.heardFrom (h : SameClients s t) (client : ClientId) :
    t.heardFrom client = s.heardFrom client :=
  heardFrom_congr (h.talkWith client)

/-- Accepting reads nothing. -/
theorem heardFrom_accept (s : Server) (client : ClientId) :
    s.accept.heardFrom client = s.heardFrom client := by
  have haccepts := s.accepts
  generalize s.accept = t at haccepts
  cases haccepts with
  | nobody _ => rfl
  | failed k ks errno _ _ => exact (sameClients_log s _).heardFrom client
  | turnedAway k ks report _ _ _ => exact (sameClients_log s report).heardFrom client
  | seated k ks _ _ _ => exact (sameClients_log s .accepted).heardFrom client
  | seatedBriefly k ks errno _ _ _ =>
      have htalk : (s.seatBriefly ⟨k, (s.net.originOf k).peer⟩ ks errno).talkWith client =
          s.talkWith client ++ turnsWith client [(s.sessions.next, .closed)] := by
        rw [talkWith, talk_seatBriefly, turnsWith_append, talkWith]
      refine heardFrom_of_turns htalk fun turn hturn => ?_
      obtain ⟨p, hp, hturn⟩ := List.mem_filterMap.mp hturn
      rw [List.mem_singleton.mp hp] at hturn
      split at hturn
      · cases hturn
        rfl
      · cases hturn

/-- A client that keeps its session after a reply has sent what it had sent. -/
theorem unread_reply (h : s.sessions.get? id = some session) {m : Message}
    (hstays : id ∈ (s.reply id m).sessions.ids) (k : Nat) :
    (s.reply id m).net.unread k = s.net.unread k := by
  rw [mem_ids_reply h] at hstays
  have hw : s.writable id = true := by
    rw [← Bool.not_eq_false]
    intro hnot
    rw [turnFor, hnot] at hstays
    exact hstays rfl
  rw [reply_of_writable h hw]
  exact Net.unread_modify fun _ => rfl

theorem heardFrom_drain {why : Stop} (hapart : s.linksInUse.Nodup)
    (hs : s.sessions.get? client = some session) :
    (s.drain why).heardFrom client = s.heardFrom client := by
  by_cases hwhy : why.stopper? = some client
  · refine heardFrom_of_turns (talkWith_drain_of_eq hapart hwhy hs) ?_
    cases s.writable client <;> simp [Turn.heard?]
  · refine heardFrom_of_turns (talkWith_drain_of_ne hwhy) ?_
    rw [if_pos (Sessions.mem_ids_iff.mpr ⟨session, hs⟩)]
    simp [Turn.heard?]

/-- What was read is the front of what waited, and the rest still waits. -/
theorem unread_netAfter {bytes : List UInt8}
    (h : (s.net.take session.link .server frameSize).1 = .data bytes) :
    bytes ≠ [] ∧ bytes.length ≤ frameSize ∧
      bytes ++ (s.netAfter session).unread session.link = s.net.unread session.link := by
  cases hl : s.net.links[session.link]? with
  | none =>
      rw [Net.take_eq, hl] at h
      cases h
  | some l =>
      rw [Net.take_fst_of_some hl] at h
      have hrest := Link.take_append_inbox h
      rw [netAfter_eq, Net.unread_of_some (Net.links_modify_self _ hl), Net.unread_of_some hl]
      unfold Link.take at h
      split at h
      · next hne =>
        cases h
        refine ⟨?_, List.length_take_le _ _, hrest⟩
        intro hnil
        rcases List.take_eq_nil_iff.mp hnil with hsize | hempty
        · cases hsize
        · rw [hempty] at hne
          cases hne
      · split at h
        · cases h
        · split at h <;> cases h

end Heard

end Server

namespace Loop

open Server

variable {l m : Loop} {client : ClientId} {k : Nat}

section Taking

/-- What a step of the loop takes from a client with the link `k`. -/
inductive Takes (client : ClientId) (k : Nat) (l m : Loop) : Prop
  | read (bytes : List UInt8) (hne : bytes ≠ []) (hlength : bytes.length ≤ frameSize)
      (hheard : m.server.heardFrom client =
        l.server.heardFrom client ++ [Message.decode bytes])
      (hfront : bytes <+: l.server.net.unread k)
      (hrest : client ∈ m.server.sessions.ids →
        bytes ++ m.server.net.unread k = l.server.net.unread k)
  | nothing (hheard : m.server.heardFrom client = l.server.heardFrom client)
      (hrest : client ∈ m.server.sessions.ids →
        m.server.net.unread k = l.server.net.unread k)

theorem takes_of_same (htalk : m.server.talkWith client = l.server.talkWith client)
    (hlinks : m.server.net.links[k]? = l.server.net.links[k]?) : Takes client k l m :=
  .nothing (heardFrom_congr htalk) fun _ => Net.unread_congr hlinks

/-- A step that is about another client takes nothing from this one. -/
theorem takes_of_confined {id : ClientId} {session : Session} (hl : Coherent l)
    (hs : l.server.sessions.get? client = some session)
    (hconfined : Confined id l.server m.server) (hne : id ≠ client) :
    Takes client session.link l m :=
  takes_of_same (hconfined.talkWith hne)
    (hconfined.links _ (linkOf?_ne_of_apart hl.links.apart hs hne))

theorem takes_of_hearing {id : ClientId} {session : Session} {r : Except WireError Message}
    {b t : Server} {job : Option Job} (hs : b.sessions.get? id = some session)
    (h : Hearing b id session.peer r t job) :
    t.heardFrom id = b.heardFrom id ∧
      (id ∈ t.sessions.ids → t.net.unread session.link = b.net.unread session.link) := by
  cases h with
  | @answered msg reply u hcall hsame hreply =>
      have hu : u.sessions.get? id = some session := by rw [hsame.sessions, hs]
      rw [heardFrom_reply hu, hsame.heardFrom]
      refine ⟨rfl, fun hstays => ?_⟩
      rw [unread_reply hu hstays, hsame.net]
  | asked spec hsame _ _ =>
      rw [hsame.heardFrom, hsame.net]
      exact ⟨rfl, fun _ => rfl⟩
  | @stopping u hsame =>
      refine ⟨hsame.heardFrom id, fun _ => ?_⟩
      show u.net.unread _ = _
      rw [hsame.net]
  | forbidden report hr =>
      have hlog : (b.log report).sessions.get? id = some session := hs
      rw [heardFrom_dropClient hlog, (sameClients_log b report).heardFrom]
      exact ⟨rfl, fun hstays => absurd hstays (not_mem_dropClient _ id)⟩

theorem takes_begins {e : Readiness} {session : Session} (hl : Coherent l)
    (hs : l.server.sessions.get? client = some session)
    (h : Begins l.server e m.server m.job) : Takes client session.link l m := by
  obtain ⟨t, ht⟩ : ∃ t, m.server = t := ⟨_, rfl⟩
  obtain ⟨job, hj⟩ : ∃ job, m.job = job := ⟨_, rfl⟩
  rw [ht, hj] at h
  cases h with
  | accepted htoken =>
      refine .nothing (by rw [ht, heardFrom_accept]) fun _ => ?_
      rw [ht]
      refine Net.unread_congr (l.server.accepts.links_of_ne fun hhead => ?_)
      exact link_not_waiting hl.links.apart hs (List.mem_of_mem_head? hhead)
  | signalled htoken =>
      obtain ⟨-, -, -, hnet, htalk⟩ := l.server.takeSignals_cases
      exact takes_of_same (by rw [ht, talkWith, htalk, talkWith]) (by rw [ht, hnet])
  | timed htoken =>
      obtain ⟨-, -, -, hnet, htalk⟩ := l.server.takeExpiry_cases
      exact takes_of_same (by rw [ht, talkWith, htalk, talkWith]) (by rw [ht, hnet])
  | @heard id session' r hs' hr =>
      have hhearing := hearing (l.server.afterReading id session' r) id session'.peer r
      by_cases hclient : id = client
      · subst hclient
        obtain rfl : session = session' := Option.some.inj (hs.symm.trans hs')
        obtain ⟨-, session'', bytes, hs'', htaken, rfl⟩ := Server.eq_of_hears? hr
        obtain rfl : session = session'' := Option.some.inj (hs.symm.trans hs'')
        obtain ⟨hne, hlength, hrest⟩ := unread_netAfter htaken
        have hs₁ : (l.server.afterReading id session (Message.decode bytes)).sessions.get? id =
            some session := hs
        obtain ⟨hheard, hkept⟩ := takes_of_hearing hs₁ hhearing
        rw [heardFrom_afterReading] at hheard
        refine .read bytes hne hlength (by rw [ht, hheard]) ⟨_, hrest⟩ ?_
        rw [ht]
        intro hstays
        rw [hkept hstays]
        exact hrest
      · refine takes_of_confined hl hs ?_ hclient
        rw [ht]
        exact (confined_afterReading hs' r).trans hhearing.confined
  | @left id session' report _ htoken hs' hr _ =>
      have hconfined := confined_afterLeaving hs' report
      by_cases hclient : id = client
      · subst hclient
        refine .nothing ?_ fun hstays => ?_
        · rw [ht, heardFrom_afterLeaving hs']
        · rw [ht] at hstays
          exact absurd hstays (not_mem_dropClient _ id)
      · exact takes_of_confined hl hs (ht ▸ hconfined) hclient
  | nothing _ hr => exact takes_of_same (by rw [ht]) (by rw [ht])
  | stray htoken =>
      refine takes_of_same ?_ (by rw [ht]; rfl)
      rw [ht, (sameClients_log _ _).talkWith]

/-- A step reads once from the client, or takes nothing from it. -/
theorem takes_step {session : Session} (hl : Coherent l)
    (hs : l.server.sessions.get? client = some session) :
    Takes client session.link l l.step := by
  obtain ⟨hm, -⟩ | ⟨job, hend, hjob, hpasses, hm⟩ | ⟨-, -, -, hm⟩ | ⟨-, -, -, -, -, -, hm⟩ |
      ⟨e, es, -, -, -, -, hbegins, -⟩ | ⟨why, hend, -, -, hstop, hm⟩ |
      ⟨s, -, -, -, -, hupdate, hm⟩ | ⟨e, -, -, -, -, -, hm⟩ := l.steps
  · exact takes_of_same (by rw [hm]) (by rw [hm])
  · have hserver : l.step.server = l.server.finish job := by
      rw [hm]
      rfl
    by_cases hclient : job.client = client
    · subst hclient
      obtain ⟨u, reply, hsame, -, hfinish⟩ := l.server.finish_eq_reply job
      have hu : u.sessions.get? job.client = some session := by rw [hsame.sessions, hs]
      refine .nothing ?_ ?_
      · rw [hserver, hfinish, heardFrom_reply hu, hsame.heardFrom]
      · rw [hserver, hfinish]
        intro hstays
        rw [unread_reply hu hstays, hsame.net]
    · exact takes_of_confined hl hs (hserver ▸ confined_finish _ job) hclient
  · exact takes_of_same (by rw [hm]; rfl) (by rw [hm]; rfl)
  · exact takes_of_same (by rw [hm]) (by rw [hm])
  · exact takes_begins hl hs hbegins
  · have hshut := shutsDown_drain why hl.links.apart fun id => hl.stopper why id hstop hend
    have hserver : l.step.server = l.server.drain why := by
      rw [hm]
      rfl
    refine .nothing (by rw [hserver, heardFrom_drain hl.links.apart hs]) ?_
    rw [hserver, Sessions.ids, hshut.sessions]
    rintro ⟨⟩
  · have hsame := sameClients_updateIdle hupdate
    have hserver : l.step.server = s := by
      rw [hm]
      rfl
    exact takes_of_same (by rw [hserver, hsame.talkWith]) (by rw [hserver, hsame.net])
  · have hserver : l.step.server = l.server.stopListening := by
      rw [hm]
      rfl
    refine takes_of_same (by rw [hserver, talkWith_stopListening]) ?_
    rw [hserver]
    exact Net.links_stopListening (link_not_waiting hl.links.apart hs)

end Taking

end Loop
end LineKeeper
