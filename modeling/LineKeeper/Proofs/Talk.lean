import Mathlib.Data.List.Nodup
import LineKeeper.Loop
import LineKeeper.Proofs.Connections
import LineKeeper.Proofs.SessionTable

/-!
# What passes between the server and its clients

The trace of a server says, among much else, what it read from each client, what it
wrote to it and when it closed its session.  These `Turn`s, each with its client, are
the server's `talk`.

**Answers.** `respond` says what a message is answered with in a given state.  A
handler that answers does its work, which no client notices (`SameClients`), and then
replies (`finish_eq_reply`, `release_eq_reply`).  A reply is written if the client's
link delivers it, and else ends the session (`talk_reply`).

**One client at a time.** What a handler does for a client is `Confined` to it: no
other session, and no link but that client's, is touched.
-/

namespace LineKeeper

/-- What can pass between the server and one client. -/
inductive Turn
  | heard (r : Except WireError Message)
  | said (m : Message)
  | closed

/-- The client that an effect is about, and what passed. -/
def Effect.turn? : Effect → Option (ClientId × Turn)
  | .read client r => some (client, .heard r)
  | .wrote client m => some (client, .said m)
  | .closed client => some (client, .closed)
  | _ => none

namespace Server

open Loop (linkOf?)

variable {s t u : Server} {id other : ClientId} {session : Session} {m : Message}

section Turns

/-- What passed between the server and its clients. -/
def talk (s : Server) : List (ClientId × Turn) :=
  s.trace.filterMap Effect.turn?

@[simp] theorem talk_record (s : Server) (e : Effect) :
    (s.record e).talk = s.talk ++ e.turn?.toList := by
  simp only [talk, record, List.filterMap_append]
  cases h : e.turn? with
  | none => rw [List.filterMap_cons_none h, List.filterMap_nil, Option.toList_none]
  | some x => rw [List.filterMap_cons_some h, List.filterMap_nil, Option.toList_some]

@[simp] theorem talk_log (s : Server) (e : LogEvent) : (s.log e).talk = s.talk := by
  rw [log, talk_record]
  exact List.append_nil _

@[simp] theorem talk_withDevice (s : Server) (d : Device) : (s.withDevice d).talk = s.talk := by
  have hcalls : ((d.journal.drop s.device.journal.length).map fun call =>
      Effect.device call).filterMap Effect.turn? = [] := by
    rw [List.filterMap_eq_nil_iff]
    intro e he
    obtain ⟨call, -, rfl⟩ := List.mem_map.mp he
    rfl
  simp only [talk, withDevice, List.filterMap_append, hcalls, List.append_nil]

theorem linkOf?_of_get? (h : s.sessions.get? id = some session) :
    linkOf? s id = some session.link := by
  rw [linkOf?, h]
  rfl

theorem linkOf?_of_none (h : s.sessions.get? id = none) : linkOf? s id = none := by
  rw [linkOf?, h]
  rfl

end Turns

section Links

/-- The links of the sessions, and those that wait to be accepted. -/
def linksInUse (s : Server) : List Nat :=
  s.sessions.entries.map (·.2.link) ++ s.net.waiting

theorem mem_linksInUse (h : s.sessions.get? id = some session) : session.link ∈ s.linksInUse :=
  List.mem_append_left _ (List.mem_map_of_mem (f := fun e => e.2.link) (Sessions.mem_of_get? h))

/-- Where each link is in use once, two sessions have two links. -/
theorem linkOf?_ne_of_apart (hapart : s.linksInUse.Nodup) (h : s.sessions.get? id = some session)
    (hne : other ≠ id) : linkOf? s other ≠ some session.link := by
  intro hlink
  obtain ⟨session', hother, heq⟩ := Option.map_eq_some_iff.mp hlink
  have hnodup := (List.nodup_append.mp hapart).1
  have hsame := List.inj_on_of_nodup_map hnodup (Sessions.mem_of_get? hother)
    (Sessions.mem_of_get? h) heq
  exact hne (congrArg Prod.fst hsame)

theorem link_not_waiting (hapart : s.linksInUse.Nodup)
    (h : s.sessions.get? id = some session) : session.link ∉ s.net.waiting := by
  intro hwaits
  have hmem : session.link ∈ s.sessions.entries.map (·.2.link) :=
    List.mem_map_of_mem (f := fun e => e.2.link) (Sessions.mem_of_get? h)
  exact (List.nodup_append.mp hapart).2.2 _ hmem _ hwaits rfl

end Links

section SameClients

/-- Between `s` and `t` no client could notice anything. -/
structure SameClients (s t : Server) : Prop where
  sessions : t.sessions = s.sessions
  watched : t.watched = s.watched
  net : t.net = s.net
  signals : t.signals = s.signals
  stop : t.stop = s.stop
  talk : t.talk = s.talk

theorem SameClients.refl (s : Server) : SameClients s s :=
  ⟨rfl, rfl, rfl, rfl, rfl, rfl⟩

theorem SameClients.trans (h : SameClients s t) (h' : SameClients t u) : SameClients s u where
  sessions := h'.sessions.trans h.sessions
  watched := h'.watched.trans h.watched
  net := h'.net.trans h.net
  signals := h'.signals.trans h.signals
  stop := h'.stop.trans h.stop
  talk := h'.talk.trans h.talk

theorem sameClients_log (s : Server) (e : LogEvent) : SameClients s (s.log e) :=
  ⟨rfl, rfl, rfl, rfl, rfl, talk_log s e⟩

theorem sameClients_withDevice (s : Server) (d : Device) : SameClients s (s.withDevice d) :=
  ⟨rfl, rfl, rfl, rfl, rfl, talk_withDevice s d⟩

theorem sameClients_requests (s : Server) (r : Requests Nat) :
    SameClients s { s with requests := r } :=
  ⟨rfl, rfl, rfl, rfl, rfl, rfl⟩

theorem sameClients_displace (s : Server) (id : RequestId) : SameClients s (s.displace id) := by
  unfold displace
  split
  · exact SameClients.refl s
  · exact sameClients_withDevice s _

end SameClients

section Replies

/-- Can the server write to the client? -/
def writable (s : Server) (id : ClientId) : Bool :=
  (linkOf? s id).any fun k => s.net.links[k]?.any Net.delivers

/-- What becomes of a reply. -/
def turnFor (s : Server) (id : ClientId) (m : Message) : Turn :=
  if s.writable id then .said m else .closed

theorem SameClients.writable (h : SameClients s t) (id : ClientId) :
    t.writable id = s.writable id := by
  simp only [Server.writable, linkOf?, h.sessions, h.net]

theorem SameClients.turnFor (h : SameClients s t) (id : ClientId) (m : Message) :
    t.turnFor id m = s.turnFor id m := by
  rw [Server.turnFor, h.writable, Server.turnFor]

theorem dropClient_of_none (h : s.sessions.get? id = none) : s.dropClient id = s := by
  rw [dropClient, h]

theorem talk_dropClient (h : s.sessions.get? id = some session) :
    (s.dropClient id).talk = s.talk ++ [(id, .closed)] := by
  rw [dropClient, h]
  simp only [talk, record, log, List.filterMap_append, List.append_assoc]
  rfl

theorem sessions_dropClient (h : s.sessions.get? id = some session) :
    (s.dropClient id).sessions = s.sessions.remove id := by
  rw [dropClient, h]
  rfl

/-- A reply that can be written arrives at the client. -/
theorem reply_of_writable (h : s.sessions.get? id = some session) (hw : s.writable id = true) :
    s.reply id m = { s.record (.wrote id m) with
      net := s.net.modify session.link fun l => Net.delivered l m.encode } := by
  rw [writable, linkOf?_of_get? h, Option.any_some] at hw
  obtain ⟨l, hl, hdelivers⟩ := (Option.any_eq_true _ _).mp hw
  simp only [reply, h, Net.send_server_of_delivers hl hdelivers]

/-- Its bytes come behind those that the client has not taken yet. -/
theorem inbox_reply (h : s.sessions.get? id = some session) (hw : s.writable id = true)
    (m : Message) :
    ∃ l l', s.net.links[session.link]? = some l ∧
      (s.reply id m).net.links[session.link]? = some l' ∧
      l'.client.inbox = l.client.inbox ++ m.encode := by
  have hlink := hw
  rw [writable, linkOf?_of_get? h, Option.any_some] at hlink
  obtain ⟨l, hl, -⟩ := (Option.any_eq_true _ _).mp hlink
  refine ⟨l, Net.delivered l m.encode, hl, ?_, rfl⟩
  rw [reply_of_writable h hw]
  exact Net.links_modify_self _ hl

/-- Why the server cannot write to the client. -/
def refusal (s : Server) (id : ClientId) : Errno :=
  match linkOf? s id with
  | some k => s.net.refusal k
  | none => Errno.brokenPipe

/-- A reply that cannot be written ends the session. -/
theorem reply_of_not_writable (h : s.sessions.get? id = some session)
    (hw : s.writable id = false) :
    s.reply id m = (s.log (.sendFailed (s.refusal id))).dropClient id := by
  rw [writable, linkOf?_of_get? h, Option.any_some] at hw
  simp only [reply, h, Net.send_server_of_not_delivers hw, refusal, linkOf?_of_get? h]

/-- The failure is reported, and the session ends. -/
theorem trace_reply_of_not_writable (h : s.sessions.get? id = some session)
    (hw : s.writable id = false) :
    (s.reply id m).trace =
      s.trace ++ [.log (.sendFailed (s.refusal id)), .log .dropped, .closed id] := by
  rw [reply_of_not_writable h hw]
  simp only [dropClient, record, log, h, List.append_assoc]
  rfl

theorem reply_of_none (h : s.sessions.get? id = none) : s.reply id m = s := by
  simp only [reply, h]

theorem talk_reply (h : s.sessions.get? id = some session) (m : Message) :
    (s.reply id m).talk = s.talk ++ [(id, s.turnFor id m)] := by
  cases hw : s.writable id with
  | true =>
      rw [reply_of_writable h hw, turnFor, if_pos hw]
      exact talk_record s _
  | false =>
      have hlog : (s.log (.sendFailed (s.refusal id))).sessions.get? id = some session := h
      rw [reply_of_not_writable h hw, turnFor, hw, talk_dropClient hlog, talk_log]
      rfl

theorem sessions_reply (h : s.sessions.get? id = some session) (m : Message) :
    (s.reply id m).sessions = if s.writable id then s.sessions else s.sessions.remove id := by
  cases hw : s.writable id with
  | true =>
      rw [reply_of_writable h hw]
      rfl
  | false =>
      have hlog : (s.log (.sendFailed (s.refusal id))).sessions.get? id = some session := h
      rw [reply_of_not_writable h hw, sessions_dropClient hlog]
      rfl

theorem stop_dropClient (s : Server) (id : ClientId) : (s.dropClient id).stop = s.stop := by
  unfold dropClient
  split <;> rfl

theorem stop_reply (s : Server) (id : ClientId) (m : Message) : (s.reply id m).stop = s.stop := by
  unfold reply
  split
  · rfl
  · split
    · rfl
    · exact stop_dropClient _ id

end Replies

section Answers

/-- What a message is answered with.  Messages that only a server sends get no answer. -/
def respond (s : Server) : Message → Option Message
  | .ping => some .ok
  | .stop => some .ok
  | .request spec =>
      match (s.device.request spec).1 with
      | .ok _ => some (.reqOk (RequestId.numbered (s.requests.issued + 1)))
      | .error e => some (.error e)
  | .release id => some (if (s.requests.get? id).isSome then .ok else .error Errno.noEntry)
  | _ => none

/-- Carrying out a line request ends with the answer to it. -/
theorem finish_eq_reply (s : Server) (job : Job) :
    ∃ u r, SameClients s u ∧ s.respond (.request job.spec) = some r ∧
      s.finish job = u.reply job.client r := by
  cases h : (s.device.request job.spec).1 with
  | error e =>
      refine ⟨_, .error e, (sameClients_withDevice s (s.device.request job.spec).2).trans
        (sameClients_log _ (.refused e)), ?_, ?_⟩
      · simp only [respond, h]
      · simp only [finish_eq, h]
  | ok handle =>
      refine ⟨_, .reqOk (RequestId.numbered (s.requests.issued + 1)), ?_,
        by simp only [respond, h], by simp only [finish_eq, h]; rfl⟩
      exact (((sameClients_withDevice s _).trans (sameClients_displace _ _)).trans
        (sameClients_requests _ _)).trans (sameClients_log _ _)

/-- So does carrying out a RELEASE. -/
theorem release_eq_reply (s : Server) (client : ClientId) (id : RequestId) :
    ∃ u r, SameClients s u ∧ s.respond (.release id) = some r ∧
      s.release client id = u.reply client r := by
  cases h : s.requests.get? id with
  | none =>
      refine ⟨_, .error Errno.noEntry, sameClients_log s (.unknownRequest id), ?_, ?_⟩
      · simp only [respond, h, Option.isSome_none, Bool.false_eq_true, if_false]
      · simp only [release, h]
  | some held =>
      refine ⟨_, .ok, ?_, by simp only [respond, h]; rfl, by simp only [release, h]; rfl⟩
      exact ((sameClients_requests s _).trans (sameClients_log _ _)).trans
        (sameClients_withDevice _ _)

end Answers

section Confined

/-- From `s` to `t` nothing was done to any client but `id`, nor on any link but that client's. -/
structure Confined (id : ClientId) (s t : Server) : Prop where
  table : t.sessions = s.sessions ∧ t.watched = s.watched ∨
    t.sessions = s.sessions.remove id ∧
      t.watched = s.watched.filter (· ≠ (Receiver.client id).token)
  links : ∀ k, linkOf? s id ≠ some k → t.net.links[k]? = s.net.links[k]?
  count : t.net.links.length = s.net.links.length
  waiting : t.net.waiting = s.net.waiting
  listens : t.net.listens = s.net.listens
  signals : t.signals = s.signals
  talk : ∃ turns : List Turn, t.talk = s.talk ++ turns.map (Prod.mk id)

theorem SameClients.confined (h : SameClients s t) (id : ClientId) : Confined id s t where
  table := .inl ⟨h.sessions, h.watched⟩
  links := fun _ _ => by rw [h.net]
  count := by rw [h.net]
  waiting := by rw [h.net]
  listens := by rw [h.net]
  signals := h.signals
  talk := ⟨[], by rw [h.talk]; exact (List.append_nil _).symm⟩

theorem Confined.refl (id : ClientId) (s : Server) : Confined id s s :=
  (SameClients.refl s).confined id

/-- The client keeps its link or loses its session. -/
theorem Confined.linkOf?_ne (h : Confined id s t) {k : Nat} (hk : linkOf? s id ≠ some k) :
    linkOf? t id ≠ some k := by
  rcases h.table with ⟨hsame, -⟩ | ⟨hremoved, -⟩
  · rwa [linkOf?, hsame]
  · rw [linkOf?_of_none (hremoved ▸ Sessions.get?_remove_self s.sessions id)]
    rintro ⟨⟩

theorem Confined.trans (h : Confined id s t) (h' : Confined id t u) : Confined id s u where
  table := by
    rcases h.table with ⟨hs, hw⟩ | ⟨hs, hw⟩ <;> rcases h'.table with ⟨hs', hw'⟩ | ⟨hs', hw'⟩
    · exact .inl ⟨hs'.trans hs, hw'.trans hw⟩
    · exact .inr ⟨hs' ▸ hs ▸ rfl, hw' ▸ hw ▸ rfl⟩
    · exact .inr ⟨hs'.trans hs, hw'.trans hw⟩
    · refine .inr ⟨?_, ?_⟩
      · rw [hs', hs, Sessions.remove_remove]
      · rw [hw', hw, List.filter_filter]
        simp only [Bool.and_self]
  links := fun k hk => (h'.links k (h.linkOf?_ne hk)).trans (h.links k hk)
  count := h'.count.trans h.count
  waiting := h'.waiting.trans h.waiting
  listens := h'.listens.trans h.listens
  signals := h'.signals.trans h.signals
  talk := by
    obtain ⟨first, hfirst⟩ := h.talk
    obtain ⟨later, hlater⟩ := h'.talk
    refine ⟨first ++ later, ?_⟩
    rw [hlater, hfirst, List.map_append, List.append_assoc]

/-- Another client's session stays. -/
theorem Confined.get?_of_ne (h : Confined id s t) (hne : other ≠ id) :
    t.sessions.get? other = s.sessions.get? other := by
  rcases h.table with ⟨hsame, -⟩ | ⟨hremoved, -⟩
  · rw [hsame]
  · rw [hremoved, Sessions.get?_remove_of_ne hne]

theorem confined_dropClient (s : Server) (id : ClientId) : Confined id s (s.dropClient id) := by
  cases h : s.sessions.get? id with
  | none =>
      rw [dropClient_of_none h]
      exact Confined.refl id s
  | some session =>
      have htalk := talk_dropClient h
      rw [dropClient, h] at htalk ⊢
      refine ⟨.inr ⟨rfl, rfl⟩, ?_, ?_, rfl, rfl, rfl, ⟨[.closed], htalk⟩⟩
      · intro k hk
        rw [linkOf?_of_get? h] at hk
        exact Net.links_modify_of_ne _ fun hks => hk (congrArg some hks.symm)
      · exact Net.length_modify _ _ _

theorem confined_reply (s : Server) (id : ClientId) (m : Message) :
    Confined id s (s.reply id m) := by
  cases h : s.sessions.get? id with
  | none =>
      rw [reply_of_none h]
      exact Confined.refl id s
  | some session =>
      have htalk := talk_reply h m
      cases hw : s.writable id with
      | true =>
          rw [reply_of_writable h hw] at htalk ⊢
          refine ⟨.inl ⟨rfl, rfl⟩, ?_, ?_, rfl, rfl, rfl, ⟨[_], htalk⟩⟩
          · intro k hk
            rw [linkOf?_of_get? h] at hk
            exact Net.links_modify_of_ne _ fun hks => hk (congrArg some hks.symm)
          · exact Net.length_modify _ _ _
      | false =>
          rw [reply_of_not_writable h hw]
          exact ((sameClients_log s _).confined id).trans (confined_dropClient _ id)

theorem confined_finish (s : Server) (job : Job) : Confined job.client s (s.finish job) := by
  obtain ⟨u, r, hsame, -, hfinish⟩ := s.finish_eq_reply job
  rw [hfinish]
  exact (hsame.confined job.client).trans (confined_reply u _ r)

end Confined

end Server
end LineKeeper
