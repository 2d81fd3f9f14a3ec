import LineKeeper.Proofs.Admissions
import LineKeeper.Proofs.Coherence

/-!
# What a step of the loop means to one client

A message that was `Handled` is answered or ends the session, and `Handled.outcome`
says which, from the message and the server that handled it.  Most messages are handled
in the step that reads them.  A line request is handled when it is carried out, and a
STOP when the server ends; until then the loop owes an answer (`Loop.owed?`).

`Loop.handles?` says what the next step handles.  `Moves` lists all that a step can mean
to one client that gets no identifier in it, and `moves_step` proves that the list is
complete.  `Joins` lists what it means to one that does (`joins_step`).
-/

namespace LineKeeper

/-- Those of the turns that passed with one client. -/
def turnsWith (client : ClientId) (ts : List (ClientId × Turn)) : List Turn :=
  ts.filterMap fun t => if t.1 = client then some t.2 else none

section Turns

variable {client other : ClientId} {turn : Turn} {ts us : List (ClientId × Turn)}

theorem turnsWith_append (client : ClientId) (ts us : List (ClientId × Turn)) :
    turnsWith client (ts ++ us) = turnsWith client ts ++ turnsWith client us :=
  List.filterMap_append

theorem turnsWith_cons_self (client : ClientId) (turn : Turn) (ts : List (ClientId × Turn)) :
    turnsWith client ((client, turn) :: ts) = turn :: turnsWith client ts := by
  simp [turnsWith]

theorem turnsWith_map_self (client : ClientId) (turns : List Turn) :
    turnsWith client (turns.map (Prod.mk client)) = turns := by
  induction turns with
  | nil => rfl
  | cons turn turns ih => rw [List.map_cons, turnsWith_cons_self, ih]

theorem turnsWith_map_of_ne (h : other ≠ client) (turns : List Turn) :
    turnsWith client (turns.map (Prod.mk other)) = [] := by
  simp [turnsWith, List.filterMap_map, h]

end Turns

namespace Server

variable {s t u : Server} {id other client : ClientId} {session : Session}

section Talking

/-- What passed between the server and one client. -/
def talkWith (s : Server) (client : ClientId) : List Turn :=
  turnsWith client s.talk

theorem SameClients.talkWith (h : SameClients s t) (client : ClientId) :
    t.talkWith client = s.talkWith client := by
  rw [Server.talkWith, h.talk, Server.talkWith]

/-- What is said to another client is nothing to this one. -/
theorem Confined.talkWith (h : Confined id s t) (hne : id ≠ client) :
    t.talkWith client = s.talkWith client := by
  obtain ⟨turns, hturns⟩ := h.talk
  rw [Server.talkWith, hturns, turnsWith_append, turnsWith_map_of_ne hne, List.append_nil,
    Server.talkWith]

theorem Confined.mem_ids_iff (h : Confined id s t) (hne : client ≠ id) :
    client ∈ t.sessions.ids ↔ client ∈ s.sessions.ids := by
  rw [Sessions.mem_ids_iff, Sessions.mem_ids_iff, h.get?_of_ne hne]

theorem talkWith_reply (h : s.sessions.get? id = some session) (m : Message) :
    (s.reply id m).talkWith id = s.talkWith id ++ [s.turnFor id m] := by
  rw [talkWith, talk_reply h, turnsWith_append]
  exact congrArg _ (turnsWith_map_self id [_])

theorem talkWith_dropClient (h : s.sessions.get? id = some session) :
    (s.dropClient id).talkWith id = s.talkWith id ++ [.closed] := by
  rw [talkWith, talk_dropClient h, turnsWith_append]
  exact congrArg _ (turnsWith_map_self id [_])

theorem talkWith_afterReading (s : Server) (id : ClientId) (session : Session)
    (r : Except WireError Message) :
    (s.afterReading id session r).talkWith id = s.talkWith id ++ [.heard r] := by
  rw [talkWith, talk_afterReading, turnsWith_append]
  exact congrArg _ (turnsWith_map_self id [_])

theorem not_mem_dropClient (s : Server) (id : ClientId) :
    id ∉ (s.dropClient id).sessions.ids := by
  rw [Sessions.ids, entries_dropClient]
  simp

/-- After a reply the client is still there exactly if the reply could be written. -/
theorem mem_ids_reply (h : s.sessions.get? id = some session) (m : Message) :
    id ∈ (s.reply id m).sessions.ids ↔ s.turnFor id m ≠ .closed := by
  rw [sessions_reply h, turnFor]
  cases s.writable id with
  | true =>
      simp only [if_true]
      exact ⟨fun _ => Turn.noConfusion, fun _ => Sessions.mem_ids_iff.mpr ⟨session, h⟩⟩
  | false =>
      simp only [Bool.false_eq_true, if_false, ne_eq, not_true_eq_false, iff_false]
      rw [Sessions.mem_ids_remove]
      exact fun hmem => hmem.2 rfl

theorem talk_seatBriefly (s : Server) (session : Session) (ks : List Nat) (errno : Errno) :
    (s.seatBriefly session ks errno).talk = s.talk ++ [(s.sessions.next, .closed)] := by
  have hlogs : ((s.log .accepted).log (.unregistered errno s.sessions.next)).talk = s.talk := by
    rw [talk_log, talk_log]
  exact (talk_record _ (.closed s.sessions.next)).trans (congrArg (· ++ _) hlogs)

theorem ids_seatBriefly (s : Server) (session : Session) (ks : List Nat) (errno : Errno) :
    (s.seatBriefly session ks errno).sessions.ids = s.sessions.ids :=
  congrArg (List.map Prod.fst) (s.entries_seatBriefly session ks errno)

end Talking

section Ending

theorem talkWith_foldl_of_notMem {ids : List ClientId} (h : client ∉ ids) (s : Server) :
    (ids.foldl dropClient s).talkWith client = s.talkWith client := by
  induction ids generalizing s with
  | nil => rfl
  | cons id ids ih =>
      rw [List.mem_cons, not_or] at h
      rw [List.foldl_cons, ih h.2, (confined_dropClient s id).talkWith (Ne.symm h.1)]

theorem talkWith_foldl_of_gone {ids : List ClientId} (h : client ∉ s.sessions.ids) :
    (ids.foldl dropClient s).talkWith client = s.talkWith client := by
  induction ids generalizing s with
  | nil => rfl
  | cons id ids ih =>
      have hconfined := confined_dropClient s id
      rw [List.foldl_cons]
      by_cases heq : client = id
      · subst heq
        rw [dropClient_of_none (Sessions.get?_eq_none_iff.mpr h), ih h]
      · rw [ih ((hconfined.mem_ids_iff heq).not.mpr h), hconfined.talkWith (Ne.symm heq)]

/-- Each session that is ended is ended once. -/
theorem talkWith_foldl_of_mem {ids : List ClientId} (hmem : client ∈ ids)
    (h : client ∈ s.sessions.ids) :
    (ids.foldl dropClient s).talkWith client = s.talkWith client ++ [.closed] := by
  induction ids generalizing s with
  | nil => cases hmem
  | cons id ids ih =>
      have hconfined := confined_dropClient s id
      rw [List.foldl_cons]
      by_cases heq : client = id
      · subst heq
        obtain ⟨session, hs⟩ := Sessions.mem_ids_iff.mp h
        rw [talkWith_foldl_of_gone (not_mem_dropClient s client), talkWith_dropClient hs]
      · rw [ih ((List.mem_cons.mp hmem).resolve_left heq) ((hconfined.mem_ids_iff heq).mpr h),
          hconfined.talkWith (Ne.symm heq)]

theorem talkWith_stopListening (s : Server) (client : ClientId) :
    s.stopListening.talkWith client = s.talkWith client := by
  have htalk : s.stopListening.talk = s.talk :=
    (talk_record s .stoppedListening).trans (List.append_nil _)
  rw [talkWith, htalk, talkWith]

/-- Before the client that asked for the stop is answered, the sessions of all others are ended. -/
theorem talkWith_cleared (s : Server) (why : Stop) (client : ClientId) :
    (((s.log (.exiting s.sessions.length s.requests.length)).stopListening
      |>.releaseAll).dropAllBut why.stopper?).talkWith client =
        s.talkWith client ++ if client ∈ s.others why then [.closed] else [] := by
  set began := (s.log (.exiting s.sessions.length s.requests.length)).stopListening with hbegan
  have hreturned := began.releaseAll_returned.2
  have hids : began.releaseAll.sessions.ids = s.sessions.ids := by
    rw [hreturned.sessions]
    rfl
  have hbefore : began.releaseAll.talkWith client = s.talkWith client := by
    rw [hreturned.talkWith, hbegan, talkWith_stopListening, (sameClients_log s _).talkWith]
  rw [dropAllBut, hids, ← hbefore]
  split
  · next hmem =>
    exact talkWith_foldl_of_mem hmem (hids ▸ List.mem_of_mem_filter hmem)
  · next hnot =>
    rw [List.append_nil]
    exact talkWith_foldl_of_notMem hnot _

/-- What ending a server means to a client that did not ask for it. -/
theorem talkWith_drain_of_ne {why : Stop} (hne : why.stopper? ≠ some client) :
    (s.drain why).talkWith client =
      s.talkWith client ++ if client ∈ s.sessions.ids then [.closed] else [] := by
  have hothers : client ∈ s.others why ↔ client ∈ s.sessions.ids := by
    rw [others, List.mem_filter, decide_eq_true_eq]
    exact and_iff_left hne
  have hcleared := talkWith_cleared s why client
  simp only [hothers] at hcleared
  rw [← hcleared]
  unfold drain
  dsimp only
  rw [(sameClients_log _ _).talkWith]
  split
  · next id hwhy =>
    have hid : id ≠ client := by
      rintro rfl
      exact hne hwhy
    rw [(confined_dropClient _ id).talkWith hid, (confined_reply _ id .ok).talkWith hid]
  · rfl

/-- What it means to the client that asked for it. -/
theorem talkWith_drain_of_eq {why : Stop} (hapart : s.linksInUse.Nodup)
    (hwhy : why.stopper? = some client) (hs : s.sessions.get? client = some session) :
    (s.drain why).talkWith client = s.talkWith client ++
      if s.writable client then [.said .ok, .closed] else [.closed] := by
  have hnot : client ∉ s.others why := by
    simp [others, hwhy]
  have htalk := talkWith_cleared s why client
  rw [if_neg hnot, List.append_nil] at htalk
  obtain ⟨hs', hw, -⟩ := (cleared s why).stopper hapart hwhy hs
  unfold drain
  dsimp only
  rw [(sameClients_log _ _).talkWith, hwhy]
  dsimp only
  rw [hwhy] at htalk hs' hw
  revert htalk hs' hw
  generalize (((s.log (.exiting s.sessions.length s.requests.length)).stopListening
    |>.releaseAll).dropAllBut (some client)) = t
  intro htalk hs' hw
  have hreply := talkWith_reply hs' .ok
  rw [turnFor, hw, htalk] at hreply
  cases hwritable : s.writable client with
  | true =>
      rw [hwritable, if_pos rfl] at hreply
      have hstill : (t.reply client .ok).sessions.get? client = some session := by
        rw [sessions_reply hs', hw, hwritable, if_pos rfl, hs']
      rw [talkWith_dropClient hstill, hreply, if_pos rfl, List.append_assoc]
      rfl
  | false =>
      rw [hwritable, if_neg Bool.false_ne_true] at hreply
      have hgone : (t.reply client .ok).sessions.get? client = none := by
        rw [sessions_reply hs', hw, hwritable, if_neg Bool.false_ne_true]
        exact Sessions.get?_remove_self _ _
      rw [dropClient_of_none hgone, hreply, if_neg Bool.false_ne_true]

end Ending

end Server

/-- A message that was handled: what was read, from whom, and the server as it was when it handled
the message. -/
structure Handled where
  client : ClientId
  read : Except WireError Message
  server : Server

namespace Handled

/-- What became of the message: the answer was written, or the session was ended. -/
def outcome (h : Handled) : Turn :=
  match h.read with
  | .error _ => .closed
  | .ok m =>
      match h.server.respond m with
      | none => .closed
      | some reply => h.server.turnFor h.client reply

/-- The message and what became of it. -/
def turns (h : Handled) : List Turn :=
  [.heard h.read, h.outcome]

end Handled

/-- A message that is handled later than it is read. -/
def isPostponed : Except WireError Message → Bool
  | .ok .stop => true
  | .ok (.request _) => true
  | _ => false

namespace Loop

open Server

variable {l m : Loop} {chips : Chips} {period : Nat} {client : ClientId} {k : Nat}

section Owing

/-- The message that the loop has read and not yet handled. -/
def owed? (l : Loop) : Option (ClientId × Message) :=
  match l.ending, l.job, l.server.stop with
  | none, some job, _ => some (job.client, .request job.spec)
  | none, none, some (.requested client) => some (client, .stop)
  | _, _, _ => none

/-- What the loop has read from a client and not yet handled. -/
def owedTo (l : Loop) (client : ClientId) : List Turn :=
  match l.owed? with
  | none => []
  | some (id, m) => if id = client then [.heard (.ok m)] else []

/-- What the next step of the loop handles. -/
def handles? (l : Loop) : Option Handled :=
  match l.ending, l.job, l.phase with
  | none, some job, _ =>
      if l.isStuck then none else some ⟨job.client, .ok (.request job.spec), l.server⟩
  | none, none, .handling [] =>
      match l.server.stop with
      | some (.requested id) => some ⟨id, .ok .stop, l.server⟩
      | _ => none
  | none, none, .handling (e :: _) =>
      match l.server.stop, l.server.hears? e with
      | none, some (id, r) => if isPostponed r then none else some ⟨id, r, l.server⟩
      | _, _ => none
  | _, _, _ => none

/-- What the next step handles of one client. -/
def handlesOf (l : Loop) (client : ClientId) : List Handled :=
  l.handles?.toList.filter (·.client = client)

theorem owedTo_of_owed {id : ClientId} {msg : Message} (h : l.owed? = some (id, msg)) :
    l.owedTo id = [.heard (.ok msg)] := by
  simp only [owedTo, h, if_true]

theorem owedTo_of_ne {id : ClientId} {msg : Message} (h : l.owed? = some (id, msg))
    (hne : id ≠ client) : l.owedTo client = [] := by
  simp only [owedTo, h, hne, if_false]

theorem owedTo_of_none (h : l.owed? = none) : l.owedTo client = [] := by
  simp only [owedTo, h]

theorem owed?_of_job {job : Job} (hend : l.ending = none) (hjob : l.job = some job) :
    l.owed? = some (job.client, .request job.spec) := by
  simp only [owed?, hend, hjob]

/-- Only a request that waits and a STOP are owed an answer. -/
theorem owed?_of_no_stopper (hjob : l.job = none)
    (hstop : ∀ id, l.server.stop ≠ some (.requested id)) : l.owed? = none := by
  unfold owed?
  split
  · next _ hsome =>
    rw [hjob] at hsome
    cases hsome
  · next id _ _ hid => exact absurd hid (hstop id)
  · rfl

theorem owed?_of_idle (hjob : l.job = none) (hstop : l.server.stop = none) : l.owed? = none :=
  owed?_of_no_stopper hjob fun id hid => by rw [hstop] at hid; cases hid

theorem owed?_of_stop {id : ClientId} (hend : l.ending = none) (hjob : l.job = none)
    (hstop : l.server.stop = some (.requested id)) : l.owed? = some (id, .stop) := by
  simp only [owed?, hend, hjob, hstop]

/-- What is owed while no request waits is the answer to a STOP. -/
theorem stop_of_owed {id : ClientId} {msg : Message} (hjob : l.job = none)
    (h : l.owed? = some (id, msg)) : msg = .stop ∧ l.server.stop = some (.requested id) := by
  unfold owed? at h
  split at h
  · next hsome =>
    rw [hjob] at hsome
    cases hsome
  · next client _ _ hstop =>
    cases h
    exact ⟨rfl, hstop⟩
  · cases h

theorem owed?_of_ended {e : Ending} (hend : l.ending = some e) : l.owed? = none := by
  simp only [owed?, hend]

theorem owed?_congr (hend : m.ending = l.ending) (hjob : m.job = l.job)
    (hstop : m.server.stop = l.server.stop) : m.owed? = l.owed? := by
  unfold owed?
  rw [hend, hjob, hstop]

/-- A loop that has ended handles nothing, and neither does one that waits in the device. -/
theorem handles?_of_stayed (h : l.ending.isSome = true ∨ l.isStuck = true) :
    l.handles? = none := by
  unfold handles?
  split
  · next hend hjob =>
    rcases h with hsome | hstuck
    · rw [hend] at hsome
      cases hsome
    · rw [if_pos hstuck]
  · next hend hjob hphase =>
    simp [isStuck, hend, hjob] at h
  · next hend hjob hphase =>
    simp [isStuck, hend, hjob] at h
  · rfl

/-- What the next step handles: a line request that it carries out, a STOP with which it ends, or a
message that it reads. -/
inductive Handles (l : Loop) : Handled → Prop
  | finishes (job : Job) (hend : l.ending = none) (hjob : l.job = some job)
      (hpasses : l.isStuck = false) : Handles l ⟨job.client, .ok (.request job.spec), l.server⟩
  | parts (id : ClientId) (hend : l.ending = none) (hjob : l.job = none)
      (hphase : l.phase = .handling []) (hstop : l.server.stop = some (.requested id)) :
      Handles l ⟨id, .ok .stop, l.server⟩
  | reads (id : ClientId) (r : Except WireError Message) (hheard : l.hears? = some (id, r))
      (hnow : isPostponed r = false) : Handles l ⟨id, r, l.server⟩

theorem handles_of_handles? {h : Handled} (hh : l.handles? = some h) : Handles l h := by
  unfold handles? at hh
  split at hh
  · next job hend hjob =>
    split at hh
    · cases hh
    · next hpasses =>
      cases hh
      exact .finishes job hend hjob (Bool.eq_false_iff.mpr hpasses)
  · next hend hjob hphase =>
    split at hh
    · next id hstop =>
      cases hh
      exact .parts id hend hjob hphase hstop
    · cases hh
  · next e es hend hjob hphase =>
    split at hh
    · next id r hstop hears =>
      split at hh
      · cases hh
      · next hnow =>
        cases hh
        refine .reads id r ?_ (Bool.eq_false_iff.mpr hnow)
        simp only [hears?, hend, hjob, hstop, hphase, hears]
    · cases hh
  · cases hh

theorem handlesOf_of_none (h : l.handles? = none) : l.handlesOf client = [] := by
  rw [handlesOf, h]
  rfl

theorem handlesOf_of_some {h : Handled} (hh : l.handles? = some h) (hclient : h.client = client) :
    l.handlesOf client = [h] := by
  rw [handlesOf, hh]
  exact List.filter_cons_of_pos (decide_eq_true hclient)

theorem handlesOf_of_ne {h : Handled} (hh : l.handles? = some h) (hclient : h.client ≠ client) :
    l.handlesOf client = [] := by
  rw [handlesOf, hh]
  exact List.filter_cons_of_neg (by simpa using hclient)

end Owing

/-- What a step means to one client that gets no identifier in it. -/
inductive Moves (client : ClientId) (l m : Loop) : List Handled → Prop
  | quiet (htalk : m.server.talkWith client = l.server.talkWith client)
      (hids : client ∈ m.server.sessions.ids ↔ client ∈ l.server.sessions.ids)
      (howed : m.owedTo client = l.owedTo client) : Moves client l m []
  | asked (msg : Message) (hin : client ∈ l.server.sessions.ids)
      (hstays : client ∈ m.server.sessions.ids)
      (htalk : m.server.talkWith client =
        l.server.talkWith client ++ [.heard (.ok msg)])
      (howed : l.owedTo client = []) (howed' : m.owedTo client = [.heard (.ok msg)]) :
      Moves client l m []
  | answered (h : Handled) (hin : client ∈ l.server.sessions.ids)
      (hids : client ∈ m.server.sessions.ids ↔ h.outcome ≠ .closed)
      (htalk : ∃ before, h.turns = l.owedTo client ++ before ∧
        m.server.talkWith client = l.server.talkWith client ++ before)
      (howed' : m.owedTo client = []) : Moves client l m [h]
  | parted (h : Handled) (hin : client ∈ l.server.sessions.ids)
      (hgone : client ∉ m.server.sessions.ids) (hsaid : h.outcome ≠ .closed)
      (hread : l.owedTo client = [.heard h.read])
      (htalk : m.server.talkWith client = l.server.talkWith client ++ [h.outcome, .closed])
      (howed' : m.owedTo client = []) : Moves client l m [h]
  | closed (hin : client ∈ l.server.sessions.ids)
      (hgone : client ∉ m.server.sessions.ids)
      (htalk : m.server.talkWith client = l.server.talkWith client ++ [.closed])
      (howed : l.owedTo client = []) (howed' : m.owedTo client = []) : Moves client l m []

/-- What a step means to a client that gets its identifier in it: it has a session, or its session
has ended at once. -/
inductive Joins (client : ClientId) (l m : Loop) : Prop
  | stays (hin : client ∈ m.server.sessions.ids)
      (htalk : m.server.talkWith client = l.server.talkWith client)
      (howed : m.owedTo client = [])
  | passes (hids : client ∈ m.server.sessions.ids ↔ client ∈ l.server.sessions.ids)
      (htalk : m.server.talkWith client = l.server.talkWith client ++ [.closed])
      (howed : m.owedTo client = [])

section Steps

/-- A step that handles nothing and is nothing to any client. -/
theorem moves_of_same (hhandles : l.handles? = none)
    (htalk : m.server.talkWith client = l.server.talkWith client)
    (hids : client ∈ m.server.sessions.ids ↔ client ∈ l.server.sessions.ids)
    (howed : m.owed? = l.owed?) : Moves client l m (l.handlesOf client) := by
  rw [handlesOf_of_none hhandles]
  refine .quiet htalk hids ?_
  rw [owedTo, howed, owedTo]

theorem outcome_of_respond {h : Handled} {msg reply : Message} (hread : h.read = .ok msg)
    (hreply : h.server.respond msg = some reply) :
    h.outcome = h.server.turnFor h.client reply := by
  simp only [Handled.outcome, hread, hreply]

theorem outcome_of_forbidden {h : Handled} (hread : Forbidden h.read) : h.outcome = .closed := by
  unfold Handled.outcome
  split
  · rfl
  · next msg hmsg =>
    have hnone : h.server.respond msg = none := by
      rw [← Option.not_isSome_iff_eq_none, isSome_respond, hread msg hmsg]
      exact Bool.false_ne_true
    rw [hnone]

theorem isPostponed_of_forbidden {r : Except WireError Message} (hr : Forbidden r) :
    isPostponed r = false := by
  unfold isPostponed
  split
  · cases hr _ rfl
  · cases hr _ rfl
  · rfl

/-- A step that serves one client is nothing to the others. -/
theorem moves_of_bystander {id : ClientId} (hclient : id ≠ client)
    (hconfined : Confined id l.server m.server)
    (hhandles : ∀ h, l.handles? = some h → h.client = id)
    (howed : ∀ p, l.owed? = some p → p.1 = id) (howed' : ∀ p, m.owed? = some p → p.1 = id) :
    Moves client l m (l.handlesOf client) := by
  have hnobody : ∀ k : Loop, (∀ p, k.owed? = some p → p.1 = id) → k.owedTo client = [] := by
    intro k hk
    cases ho : k.owed? with
    | none => exact owedTo_of_none ho
    | some p => exact owedTo_of_ne ho (hk p ho ▸ hclient)
  have hnothing : l.handlesOf client = [] := by
    cases hh : l.handles? with
    | none => exact handlesOf_of_none hh
    | some h => exact handlesOf_of_ne hh (hhandles h hh ▸ hclient)
  rw [hnothing]
  refine .quiet (hconfined.talkWith hclient) (hconfined.mem_ids_iff (Ne.symm hclient)) ?_
  rw [hnobody m howed', hnobody l howed]

/-- A line request that is carried out. -/
theorem moves_finished {job : Job} (hl : Coherent l) (hend : l.ending = none)
    (hjob : l.job = some job) (hpasses : l.isStuck = false) (client : ClientId) :
    Moves client l l.step (l.handlesOf client) := by
  have hstep := step_of_job hend hjob hpasses
  have hstop := (hl.running job hjob).2
  obtain ⟨session, hs⟩ := Sessions.mem_ids_iff.mp (hl.asker job hjob)
  obtain ⟨u, reply, hsame, hreply, hfinish⟩ := l.server.finish_eq_reply job
  have hserver : l.step.server = u.reply job.client reply := by
    rw [hstep, ← hfinish]
    rfl
  have hidle : l.step.owed? = none := by
    refine owed?_of_idle (by rw [hstep]; rfl) ?_
    rw [hserver, stop_reply, hsame.stop, hstop]
  have howed := owed?_of_job hend hjob
  have hhandles : l.handles? =
      some ⟨job.client, .ok (.request job.spec), l.server⟩ := by
    simp only [handles?, hend, hjob, hpasses, Bool.false_eq_true, if_false]
  by_cases hclient : job.client = client
  · subst hclient
    have hs' : u.sessions.get? job.client = some session := by
      rw [hsame.sessions, hs]
    set h : Handled := ⟨job.client, .ok (.request job.spec), l.server⟩ with hh
    have houtcome : h.outcome = u.turnFor job.client reply :=
      (outcome_of_respond rfl hreply).trans (hsame.turnFor _ _).symm
    rw [handlesOf_of_some hhandles rfl]
    refine .answered h (Sessions.mem_ids_iff.mpr ⟨session, hs⟩) ?_ ⟨[h.outcome], ?_, ?_⟩
      (owedTo_of_none hidle)
    · rw [hserver, houtcome]
      exact mem_ids_reply hs' reply
    · rw [owedTo_of_owed howed]
      rfl
    · rw [hserver, talkWith_reply hs', hsame.talkWith, houtcome]
  · have hconfined : Confined job.client l.server l.step.server := by
      rw [hserver]
      exact (hsame.confined _).trans (confined_reply _ _ _)
    refine moves_of_bystander hclient hconfined ?_ ?_ ?_
    · rw [hhandles]
      rintro h ⟨⟩
      rfl
    · rw [howed]
      rintro p ⟨⟩
      rfl
    · rw [hidle]
      rintro p ⟨⟩

/-- Whoever is owed an answer after a message was read is its sender. -/
theorem owed?_of_hearing {b t : Server} {id : ClientId} {peer : Peer}
    {r : Except WireError Message} {job : Option Job} (h : Hearing b id peer r t job)
    (hserver : m.server = t) (hjob : m.job = job) (hend : m.ending = none)
    (hstop : b.stop = none) :
    m.owed? = if isPostponed r then r.toOption.map (Prod.mk id) else none := by
  subst hserver hjob
  generalize hserver : m.server = t at h
  generalize hjob : m.job = job at h
  cases h with
  | answered hcall hsame hreply =>
      have hidle : m.owed? = none := by
        refine owed?_of_idle hjob ?_
        rw [hserver, stop_reply, hsame.stop, hstop]
      rcases hcall with rfl | ⟨rid, rfl⟩ <;> exact hidle
  | asked spec hsame _ _ => exact owed?_of_job hend hjob
  | stopping hsame => exact owed?_of_stop hend hjob (by rw [hserver])
  | forbidden report hr =>
      have hidle : m.owed? = none := by
        refine owed?_of_idle hjob ?_
        rw [hserver, stop_dropClient]
        exact hstop
      rw [hidle, isPostponed_of_forbidden hr]
      rfl

/-- What was read means to its sender that it is answered, that an answer is owed, or the end of the
session. -/
theorem moves_sender {b t : Server} {id : ClientId} {session : Session}
    {r : Except WireError Message} {job : Option Job} (hb : b = l.server.afterReading id session r)
    (hs : l.server.sessions.get? id = some session) (h : Hearing b id session.peer r t job)
    (hserver : m.server = t)
    (hhandles : l.handles? = if isPostponed r then none else some ⟨id, r, l.server⟩)
    (howed : l.owedTo id = [])
    (howed' : m.owed? = if isPostponed r then r.toOption.map (Prod.mk id) else none) :
    Moves id l m (l.handlesOf id) := by
  have hin : id ∈ l.server.sessions.ids := Sessions.mem_ids_iff.mpr ⟨session, hs⟩
  have hs' : b.sessions.get? id = some session := by
    rw [hb]
    exact hs
  have htalk : b.talkWith id = l.server.talkWith id ++ [.heard r] := by
    rw [hb]
    exact l.server.talkWith_afterReading id session r
  cases h with
  | @answered msg reply u hcall hsame hreply =>
      have hnow : isPostponed (.ok msg) = false := by
        rcases hcall with rfl | ⟨rid, rfl⟩ <;> rfl
      rw [hnow, if_neg Bool.false_ne_true] at hhandles howed'
      have hu : u.sessions.get? id = some session := by rw [hsame.sessions, hs']
      have hrespond : l.server.respond msg = some reply := by
        rw [hb] at hreply
        exact hreply
      have houtcome : (Handled.mk id (.ok msg) l.server).outcome = u.turnFor id reply := by
        rw [outcome_of_respond (h := ⟨id, .ok msg, l.server⟩) rfl hrespond, hsame.turnFor, turnFor,
          turnFor, hb, writable_afterReading hs]
      rw [handlesOf_of_some hhandles rfl]
      refine .answered _ hin ?_ ⟨(Handled.mk id (.ok msg) l.server).turns, ?_, ?_⟩
        (owedTo_of_none howed')
      · rw [hserver, houtcome]
        exact mem_ids_reply hu reply
      · rw [howed, List.nil_append]
      · rw [hserver, talkWith_reply hu, hsame.talkWith, htalk, Handled.turns, houtcome,
          List.append_assoc]
        rfl
  | asked spec hsame _ _ =>
      rw [handlesOf_of_none hhandles]
      refine .asked (.request spec) hin ?_ ?_ howed (owedTo_of_owed howed')
      · rw [hserver, hsame.sessions]
        exact Sessions.mem_ids_iff.mpr ⟨session, hs'⟩
      · rw [hserver, hsame.talkWith, htalk]
  | @stopping u hsame =>
      rw [handlesOf_of_none hhandles]
      refine .asked .stop hin ?_ ?_ howed (owedTo_of_owed howed')
      · rw [hserver]
        show id ∈ u.sessions.ids
        rw [hsame.sessions]
        exact Sessions.mem_ids_iff.mpr ⟨session, hs'⟩
      · rw [hserver]
        show u.talkWith id = _
        rw [hsame.talkWith, htalk]
  | forbidden report hr =>
      rw [isPostponed_of_forbidden hr, if_neg Bool.false_ne_true] at hhandles howed'
      have hclosed : (Handled.mk id r l.server).outcome = .closed := outcome_of_forbidden hr
      have hlog : (b.log report).sessions.get? id = some session := hs'
      rw [handlesOf_of_some hhandles rfl]
      refine .answered _ hin ?_ ⟨(Handled.mk id r l.server).turns, ?_, ?_⟩ (owedTo_of_none howed')
      · rw [hserver, hclosed]
        exact iff_of_false (not_mem_dropClient _ id) (fun h => h rfl)
      · rw [howed, List.nil_append]
      · rw [hserver, talkWith_dropClient hlog, (sameClients_log b report).talkWith, htalk,
          Handled.turns, hclosed, List.append_assoc]
        rfl

/-- What was read from a client. -/
theorem moves_heard {id : ClientId} {r : Except WireError Message}
    (hheard : l.hears? = some (id, r)) (client : ClientId) :
    Moves client l l.step (l.handlesOf client) := by
  obtain ⟨hend, hjob, hstop, e, es, session, hphase, hears, hs, hstep⟩ := eq_of_hears? hheard
  have hhandles : l.handles? = if isPostponed r then none else some ⟨id, r, l.server⟩ := by
    simp only [handles?, hend, hjob, hphase, hstop, hears]
  have howed : l.owed? = none := owed?_of_idle hjob hstop
  have hhearing := hearing (l.server.afterReading id session r) id session.peer r
  have hserver :
      l.step.server = ((l.server.afterReading id session r).dispatch id session.peer r).1 := by
    rw [hstep]
    rfl
  have howed' : l.step.owed? = if isPostponed r then r.toOption.map (Prod.mk id) else none :=
    owed?_of_hearing hhearing hserver (by rw [hstep]; rfl) (by rw [hstep]; exact hend) hstop
  by_cases hclient : id = client
  · subst hclient
    exact moves_sender rfl hs hhearing hserver hhandles (owedTo_of_none howed) howed'
  · have hconfined : Confined id l.server l.step.server := by
      rw [hserver]
      exact (confined_afterReading hs r).trans hhearing.confined
    refine moves_of_bystander hclient hconfined ?_ ?_ ?_
    · rw [hhandles]
      intro h hh
      split at hh
      · cases hh
      · cases hh
        rfl
    · rw [howed]
      rintro p ⟨⟩
    · rw [howed']
      intro p hp
      split at hp
      · obtain ⟨msg, -, rfl⟩ := Option.map_eq_some_iff.mp hp
        rfl
      · cases hp

/-- The end of a server means an answer to the client that asked for it. -/
theorem moves_stopper (hl : Coherent l) (hend : l.ending = none)
    (hphase : l.phase = .handling []) (hstop : l.server.stop = some (.requested client))
    (hserver : m.server = l.server.drain (.requested client))
    (hgone : client ∉ m.server.sessions.ids) (howed' : m.owedTo client = []) :
    Moves client l m (l.handlesOf client) := by
  have hjob := hl.job_of_stop hstop
  have hasked : (Stop.requested client).stopper? = some client := rfl
  obtain ⟨session, hs⟩ := Sessions.mem_ids_iff.mp (hl.stopper _ client hstop hend hasked)
  have hin : client ∈ l.server.sessions.ids := Sessions.mem_ids_iff.mpr ⟨session, hs⟩
  have hhandles : l.handles? = some ⟨client, .ok .stop, l.server⟩ := by
    simp only [handles?, hend, hjob, hphase, hstop]
  have howed : l.owedTo client = [.heard (.ok .stop)] :=
    owedTo_of_owed (owed?_of_stop hend hjob hstop)
  have htalk := talkWith_drain_of_eq hl.links.apart hasked hs
  rw [← hserver] at htalk
  have houtcome : (Handled.mk client (.ok .stop) l.server).outcome =
      if l.server.writable client then .said .ok else .closed :=
    outcome_of_respond rfl rfl
  rw [handlesOf_of_some hhandles rfl]
  cases hw : l.server.writable client with
  | true =>
      rw [hw, if_pos rfl] at htalk houtcome
      refine .parted _ hin hgone (by rw [houtcome]; exact Turn.noConfusion) howed ?_ howed'
      rw [htalk, houtcome]
  | false =>
      rw [hw, if_neg Bool.false_ne_true] at htalk houtcome
      refine .answered _ hin ?_ ⟨[.closed], ?_, htalk⟩ howed'
      · rw [houtcome]
        exact iff_of_false hgone fun h => h rfl
      · rw [howed, Handled.turns, houtcome]
        rfl

/-- Before the end of a server, nobody is owed an answer but the client that asked for it. -/
theorem nothing_of_others {why : Stop} (hend : l.ending = none) (hjob : l.job = none)
    (hphase : l.phase = .handling []) (hstop : l.server.stop = some why)
    (hwhy : why.stopper? ≠ some client) : l.owedTo client = [] ∧ l.handlesOf client = [] := by
  cases why with
  | requested id =>
      have hid : id ≠ client := by
        rintro rfl
        exact hwhy rfl
      have hhandles : l.handles? = some ⟨id, .ok .stop, l.server⟩ := by
        simp only [handles?, hend, hjob, hphase, hstop]
      exact ⟨owedTo_of_ne (owed?_of_stop hend hjob hstop) hid, handlesOf_of_ne hhandles hid⟩
  | signal signal =>
      refine ⟨owedTo_of_none (owed?_of_no_stopper hjob ?_), handlesOf_of_none ?_⟩
      · rw [hstop]
        rintro id ⟨⟩
      · simp only [handles?, hend, hjob, hphase, hstop]
  | idle =>
      refine ⟨owedTo_of_none (owed?_of_no_stopper hjob ?_), handlesOf_of_none ?_⟩
      · rw [hstop]
        rintro id ⟨⟩
      · simp only [handles?, hend, hjob, hphase, hstop]

/-- The end of a server that has a reason to stop. -/
theorem moves_drained {why : Stop} (hl : Coherent l) (hend : l.ending = none)
    (hphase : l.phase = .handling []) (hstop : l.server.stop = some why)
    (hm : m = l.finishWith (l.server.drain why) (.stopped why.reason)) (client : ClientId) :
    Moves client l m (l.handlesOf client) := by
  have hshut := shutsDown_drain why hl.links.apart fun id => hl.stopper why id hstop hend
  have howed' : m.owedTo client = [] := by
    rw [hm]
    exact owedTo_of_none (owed?_of_ended rfl)
  have hserver : m.server = l.server.drain why := by
    rw [hm]
    rfl
  have hgone : client ∉ m.server.sessions.ids := by
    rw [hserver, Sessions.ids, hshut.sessions]
    exact List.not_mem_nil
  by_cases hwhy : why.stopper? = some client
  · cases why with
    | requested id =>
        cases hwhy
        exact moves_stopper hl hend hphase hstop hserver hgone howed'
    | signal _ => cases hwhy
    | idle => cases hwhy
  · obtain ⟨howed, hhandles⟩ := nothing_of_others hend (hl.job_of_stop hstop) hphase hstop hwhy
    have htalk := talkWith_drain_of_ne (s := l.server) hwhy
    rw [← hserver] at htalk
    rw [hhandles]
    by_cases hin : client ∈ l.server.sessions.ids
    · rw [if_pos hin] at htalk
      exact .closed hin hgone htalk howed howed'
    · rw [if_neg hin, List.append_nil] at htalk
      exact .quiet htalk (iff_of_false hgone hin) (howed'.trans howed.symm)

/-- What accepting a connection means to a client that gets no identifier. -/
theorem talkWith_accept {e : Readiness} {es : List Readiness} (hend : l.ending = none)
    (hjob : l.job = none) (hphase : l.phase = .handling (e :: es)) (hstop : l.server.stop = none)
    (htoken : Receiver.ofToken? e.token = some .listener)
    (hserver : l.step.server = l.server.accept) (hdraws : ∀ k, l.draws? ≠ some (client, k)) :
    l.step.server.talkWith client = l.server.talkWith client ∧
      (client ∈ l.step.server.sessions.ids ↔ client ∈ l.server.sessions.ids) := by
  have hne : ∀ j, l.draws? = some (l.server.sessions.next, j) →
      client ≠ l.server.sessions.next := by
    rintro j hj rfl
    exact hdraws j hj
  cases haccepts : l.accepts? with
  | none =>
      rw [hserver, accept_of_nobody hend hjob hstop hphase htoken haccepts]
      exact ⟨rfl, Iff.rfl⟩
  | some k =>
      cases received haccepts with
      | failed ks errno _ _ _ _ hstep =>
          rw [hstep]
          exact ⟨(sameClients_log _ _).talkWith client, Iff.rfl⟩
      | turnedAway ks report _ _ _ hstep =>
          rw [hstep]
          exact ⟨(sameClients_log _ _).talkWith client, Iff.rfl⟩
      | seatedBriefly ks errno _ hnew _ hstep =>
          rw [hstep, ids_seatBriefly, talkWith, talk_seatBriefly, turnsWith_append]
          refine ⟨?_, Iff.rfl⟩
          exact (congrArg _ (turnsWith_map_of_ne (Ne.symm (hne k hnew)) [.closed])).trans
            (List.append_nil _)
      | seated ks _ hnew _ hstep =>
          rw [hstep]
          refine ⟨(sameClients_log _ _).talkWith client, ?_⟩
          exact (Sessions.mem_ids_insert _).trans (or_iff_left (hne k hnew))

/-- The session of a client that is found gone ends. -/
theorem moves_left {id : ClientId} {session : Session} {report : LogEvent}
    (hs : l.server.sessions.get? id = some session)
    (hserver : m.server = l.server.afterLeaving id session report) (hhandles : l.handles? = none)
    (howed : l.owed? = none) (howed' : m.owed? = none) (client : ClientId) :
    Moves client l m (l.handlesOf client) := by
  by_cases hclient : id = client
  · subst hclient
    have hin : id ∈ l.server.sessions.ids := Sessions.mem_ids_iff.mpr ⟨session, hs⟩
    have hlog :
        (({ l.server with net := l.server.netAfter session }).log report).sessions.get? id =
          some session := hs
    rw [handlesOf_of_none hhandles]
    refine .closed hin ?_ ?_ (owedTo_of_none howed) (owedTo_of_none howed')
    · rw [hserver]
      exact not_mem_dropClient _ id
    · rw [hserver, afterLeaving, talkWith_dropClient hlog, (sameClients_log _ report).talkWith]
      rfl
  · refine moves_of_bystander hclient (hserver ▸ confined_afterLeaving hs report) ?_ ?_ ?_
    · rw [hhandles]
      rintro h ⟨⟩
    · rw [howed]
      rintro p ⟨⟩
    · rw [howed']
      rintro p ⟨⟩

/-- Handling an event. -/
theorem moves_begins {e : Readiness} {es : List Readiness} (hend : l.ending = none)
    (hjob : l.job = none) (hphase : l.phase = .handling (e :: es)) (hstop : l.server.stop = none)
    (h : Begins l.server e l.step.server l.step.job)
    (hdraws : ∀ k, l.draws? ≠ some (client, k)) :
    Moves client l l.step (l.handlesOf client) := by
  have howed := owed?_of_idle hjob hstop
  have hnot : l.server.hears? e = none → l.handles? = none := by
    intro hr
    simp only [handles?, hend, hjob, hphase, hstop, hr]
  have hsilent : (∀ id, Receiver.ofToken? e.token ≠ some (.client id)) →
      l.server.hears? e = none := hears?_of_token
  obtain ⟨t, ht⟩ : ∃ t, l.step.server = t := ⟨_, rfl⟩
  obtain ⟨job, hj⟩ : ∃ job, l.step.job = job := ⟨_, rfl⟩
  rw [ht, hj] at h
  -- Most events leave no request waiting, and no STOP.
  have hfree : (∀ id, t.stop ≠ some (.requested id)) → job = none → l.step.owed? = none := by
    intro hstop' hjob'
    exact owed?_of_no_stopper (hj.trans hjob') (ht ▸ hstop')
  have hkept : t.stop = l.server.stop → ∀ id, t.stop ≠ some (.requested id) := by
    intro hsame id hid
    rw [hsame, hstop] at hid
    cases hid
  cases h with
  | accepted htoken =>
      have hr := hsilent fun id => by rw [htoken]; rintro ⟨⟩
      have howed' := hfree (hkept l.server.reception.stop) rfl
      obtain ⟨htalk, hids⟩ := talkWith_accept hend hjob hphase hstop htoken ht hdraws
      exact moves_of_same (hnot hr) htalk hids (howed'.trans howed.symm)
  | signalled htoken =>
      have hr := hsilent fun id => by rw [htoken]; rintro ⟨⟩
      obtain ⟨hreason, hsessions, -, -, htalk⟩ := l.server.takeSignals_cases
      refine moves_of_same (hnot hr) (by rw [ht, talkWith, htalk, talkWith])
        (by rw [ht, hsessions]) ?_
      rw [howed]
      refine hfree ?_ rfl
      rcases hreason with hsame | ⟨signal, hsignal⟩
      · exact hkept hsame
      · rw [hsignal]
        rintro id ⟨⟩
  | timed htoken =>
      have hr := hsilent fun id => by rw [htoken]; rintro ⟨⟩
      obtain ⟨hreason, hsessions, -, -, htalk⟩ := l.server.takeExpiry_cases
      refine moves_of_same (hnot hr) (by rw [ht, talkWith, htalk, talkWith])
        (by rw [ht, hsessions]) ?_
      rw [howed]
      refine hfree ?_ rfl
      rcases hreason with hsame | ⟨hidle, -⟩
      · exact hkept hsame
      · rw [hidle]
        rintro id ⟨⟩
  | @heard id session r hs hr =>
      have hheard : l.hears? = some (id, r) := by
        simp only [Loop.hears?, hend, hjob, hstop, hphase, hr]
      exact moves_heard hheard client
  | left report _ _ hs hr _ =>
      exact moves_left hs ht (hnot hr) howed (hfree (hkept (stop_dropClient _ _)) rfl) client
  | nothing _ hr =>
      refine moves_of_same (hnot hr) (by rw [ht]) (by rw [ht]) ?_
      rw [howed]
      exact hfree (hkept rfl) rfl
  | stray htoken =>
      have hr := hsilent fun id => by rw [htoken]; rintro ⟨⟩
      refine moves_of_same (hnot hr) ?_ (by rw [ht]; rfl) ?_
      · rw [ht, (sameClients_log _ _).talkWith]
      · rw [howed]
        exact hfree (hkept rfl) rfl

/-- Everything that a step can mean to a client that gets no identifier in it. -/
theorem moves_step (hl : Coherent l) (hdraws : ∀ k, l.draws? ≠ some (client, k)) :
    Moves client l l.step (l.handlesOf client) := by
  obtain ⟨hm, hwhy⟩ | ⟨job, hend, hjob, hpasses, -⟩ | ⟨hend, hjob, hphase, hm⟩ |
      ⟨e, es, hend, hjob, hphase, hstop, hm⟩ | ⟨e, es, hend, hjob, hphase, hstop, hbegins, -⟩ |
      ⟨why, hend, hjob, hphase, hstop, hm⟩ | ⟨s, hend, hjob, hphase, hstop, hupdate, hm⟩ |
      ⟨e, hend, hjob, hphase, hstop, hupdate, hm⟩ := l.steps
  · refine moves_of_same ?_ (by rw [hm]) (by rw [hm]) (by rw [hm])
    exact handles?_of_stayed hwhy
  · exact moves_finished hl hend hjob hpasses client
  · refine moves_of_same ?_ (by rw [hm]; rfl) (by rw [hm]; rfl) (by rw [hm]; rfl)
    simp only [handles?, hend, hjob, hphase]
  · refine moves_of_same ?_ (by rw [hm]) (by rw [hm]) (by rw [hm]; rfl)
    obtain ⟨why, hwhy⟩ := Option.isSome_iff_exists.mp hstop
    simp only [handles?, hend, hjob, hphase, hwhy]
  · exact moves_begins hend hjob hphase hstop hbegins hdraws
  · exact moves_drained hl hend hphase hstop hm client
  · have hsame := sameClients_updateIdle hupdate
    have hserver : l.step.server = s := by rw [hm]; rfl
    refine moves_of_same ?_ ?_ ?_ ?_
    · simp only [handles?, hend, hjob, hphase, hstop]
    · rw [hserver, hsame.talkWith]
    · rw [hserver, hsame.sessions]
    · refine owed?_congr (by rw [hm]; rfl) (by rw [hm]; rfl) ?_
      rw [hserver, hsame.stop]
  · refine moves_of_same ?_ ?_ ?_ ?_
    · simp only [handles?, hend, hjob, hphase, hstop]
    · rw [hm]
      exact talkWith_stopListening _ _
    · rw [hm]
      rfl
    · rw [owed?_of_idle hjob hstop, hm]
      exact owed?_of_ended rfl

/-- Everything that a step can mean to a client that gets its identifier in it, and nothing is
handled in this step. -/
theorem joins_step (hdraws : l.draws? = some (client, k)) :
    Joins client l l.step ∧ l.handlesOf client = [] := by
  obtain ⟨haccepts, rfl, -⟩ := eq_of_draws? hdraws
  obtain ⟨hend, hjob, hstop, e, es, -, hphase, htoken, -⟩ := eq_of_accepts? haccepts
  obtain ⟨-, hjob', hserver⟩ := accept_of_accepts? haccepts
  have hnothing : l.server.hears? e = none :=
    hears?_of_token fun id => by rw [htoken]; rintro ⟨⟩
  have howed : l.step.owedTo l.server.sessions.next = [] := by
    refine owedTo_of_none (owed?_of_idle hjob' ?_)
    rw [hserver, l.server.reception.stop, hstop]
  refine ⟨?_, handlesOf_of_none (by simp only [handles?, hend, hjob, hphase, hstop, hnothing])⟩
  cases received haccepts with
  | failed _ _ _ hnone _ _ _ => cases hnone.symm.trans hdraws
  | turnedAway _ _ _ hnone _ _ => cases hnone.symm.trans hdraws
  | seatedBriefly ks errno _ _ _ hstep =>
      refine .passes ?_ ?_ howed
      · rw [hstep, ids_seatBriefly]
      · rw [hstep, talkWith, talk_seatBriefly, turnsWith_append]
        exact congrArg _ (turnsWith_map_self _ [.closed])
  | seated ks _ _ _ hstep =>
      refine .stays ?_ ?_ howed
      · rw [hstep]
        exact (Sessions.mem_ids_insert _).mpr (.inr rfl)
      · rw [hstep]
        exact (sameClients_log _ _).talkWith _

end Steps

end Loop
end LineKeeper
