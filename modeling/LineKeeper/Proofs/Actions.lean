import LineKeeper.Proofs.Draining
import LineKeeper.Proofs.Runs
import LineKeeper.Proofs.Steps

/-!
# What happens at a server, action by action

An `Action` is the next step of the server or something that is done around it: a
client opens a connection, sends, takes, shuts down or closes, a signal arrives, time
passes, chips come and go, the device's gate moves, or what is ready is listed in
another order.  `Loop.play` does a list of actions in order, and a loop is `Played` when
some list leads to it from a fresh server.

Whatever is done around a server leaves the server's own state as it is (`Around`).

**Invariant.** A played loop is `Coherent`: every link is in use once; a line request
that waits has a client that is there; and a server that has a reason to stop does
nothing else, so the client that asked for the stop is there.
-/

namespace LineKeeper

/-- Something that happens: the server's next step, or something around it. -/
inductive Action
  | serve
  | connect (origin : Origin)
  | send (link : Nat) (bytes : List UInt8)
  | take (link n : Nat)
  | shutdown (link : Nat)
  | close (link : Nat)
  | raise (signal : Signal)
  | pass (nanos : Nat)
  | replug (chips : Chips)
  | gate (closed : Bool)
  | reorder (ready : List UInt64)
deriving DecidableEq

namespace Action

/-- The link that the action is about. -/
def link? : Action → Option Nat
  | send link _ => some link
  | take link _ => some link
  | shutdown link => some link
  | close link => some link
  | _ => none

/-- What the action does to its link. -/
def change : Action → Link → Link
  | send _ bytes, l => if l.server.isOpen && l.client.sends then Net.arrived l bytes else l
  | take _ n, l => (l.take .client n).2
  | shutdown _, l => l.shutdown .client
  | close _, l => l.close .client
  | _, l => l

theorem origin_change (a : Action) (l : Link) : (a.change l).origin = l.origin := by
  cases a with
  | send link bytes =>
      simp only [change]
      split <;> rfl
  | take link n =>
      simp only [change, Link.take]
      repeat' split
      all_goals rfl
  | close link =>
      simp only [change, Link.close]
      split <;> rfl
  | _ => rfl

end Action

/-- The connections after something that a client did. -/
def Net.after (net : Net) : Action → Net
  | .connect origin =>
      match net.connect origin with
      | none => net
      | some (_, net) => net
  | .send link bytes =>
      match net.send link .client bytes with
      | .ok net => net
      | .error _ => net
  | .take link n => (net.take link .client n).2
  | .shutdown link => net.modify link (·.shutdown .client)
  | .close link => net.modify link (·.close .client)
  | _ => net

namespace Loop

open Server

variable {l m n : Loop} {chips : Chips} {period : Nat} {a : Action} {as bs : List Action}

section Playing

/-- The loop after something has happened. -/
def act (l : Loop) : Action → Loop
  | .serve => l.step
  | .raise s => l.signal s
  | .pass nanos => l.atTime (l.server.now + nanos)
  | .replug chips =>
      { l with server := { l.server with device := { l.server.device with chips := chips } } }
  | .gate closed => l.gate closed
  | .reorder ready => if ready.isPerm l.ready then { l with ready := ready } else l
  | a => l.withNet (l.server.net.after a)

/-- The loop after actions in order. -/
def play (l : Loop) (as : List Action) : Loop :=
  as.foldl act l

/-- A fresh server and some actions lead to the loop. -/
def Played (chips : Chips) (period : Nat) (l : Loop) : Prop :=
  ∃ as, l = (start chips period).play as

theorem play_nil (l : Loop) : l.play [] = l := rfl

theorem play_cons (l : Loop) (a : Action) (as : List Action) :
    l.play (a :: as) = (l.act a).play as := rfl

theorem play_append (l : Loop) (as bs : List Action) :
    l.play (as ++ bs) = (l.play as).play bs :=
  List.foldl_append

theorem play_concat (l : Loop) (as : List Action) (a : Action) :
    l.play (as ++ [a]) = (l.play as).act a :=
  play_append l as [a]

theorem Played.start (chips : Chips) (period : Nat) : Played chips period (start chips period) :=
  ⟨[], rfl⟩

theorem Played.play (h : Played chips period l) (bs : List Action) :
    Played chips period (l.play bs) := by
  obtain ⟨as, rfl⟩ := h
  exact ⟨as ++ bs, (play_append _ as bs).symm⟩

theorem Played.act (h : Played chips period l) (a : Action) : Played chips period (l.act a) :=
  h.play [a]

theorem Played.step (h : Played chips period l) : Played chips period l.step :=
  h.act .serve

/-- What holds of a loop and is kept by everything that happens holds ever after. -/
theorem play_induction {P : Loop → Prop} (l : Loop) (as : List Action) (hl : P l)
    (hact : ∀ m a, a ∈ as → P m → P (m.act a)) : P (l.play as) := by
  induction as generalizing l with
  | nil => exact hl
  | cons a as ih =>
      refine ih (l.act a) (hact l a List.mem_cons_self hl) ?_
      intro m b hb
      exact hact m b (List.mem_cons_of_mem _ hb)

/-- What holds of a fresh server and is kept by its steps and by everything around it holds of
every played loop. -/
theorem Played.induction {P : Loop → Prop} (h : Played chips period l)
    (hstart : P (Loop.start chips period))
    (hact : ∀ m a, Played chips period m → P m → P (m.act a)) : P l := by
  obtain ⟨as, rfl⟩ := h
  have hboth : Played chips period ((Loop.start chips period).play as) ∧
      P ((Loop.start chips period).play as) := by
    refine play_induction (P := fun m => Played chips period m ∧ P m) _ _
      ⟨Played.start chips period, hstart⟩ ?_
    rintro m a - ⟨hm, hPm⟩
    exact ⟨hm.act a, hact m a hm hPm⟩
  exact hboth.2

end Playing

section Around

/-- The loop has changed at most around its server. -/
structure Around (l m : Loop) : Prop where
  sessions : m.server.sessions = l.server.sessions
  requests : m.server.requests = l.server.requests
  idle : m.server.idle = l.server.idle
  watched : m.server.watched = l.server.watched
  stop : m.server.stop = l.server.stop
  trace : m.server.trace = l.server.trace
  grants : m.server.device.grants = l.server.device.grants
  issued : m.server.device.issued = l.server.device.issued
  journal : m.server.device.journal = l.server.device.journal
  phase : m.phase = l.phase
  job : m.job = l.job
  ending : m.ending = l.ending

theorem Around.refl (l : Loop) : Around l l :=
  ⟨rfl, rfl, rfl, rfl, rfl, rfl, rfl, rfl, rfl, rfl, rfl, rfl⟩

theorem Around.trans (h : Around l m) (h' : Around m n) : Around l n where
  sessions := h'.sessions.trans h.sessions
  requests := h'.requests.trans h.requests
  idle := h'.idle.trans h.idle
  watched := h'.watched.trans h.watched
  stop := h'.stop.trans h.stop
  trace := h'.trace.trans h.trace
  grants := h'.grants.trans h.grants
  issued := h'.issued.trans h.issued
  journal := h'.journal.trans h.journal
  phase := h'.phase.trans h.phase
  job := h'.job.trans h.job
  ending := h'.ending.trans h.ending

theorem Around.linkOf? (h : Around l m) (id : ClientId) :
    Loop.linkOf? m.server id = Loop.linkOf? l.server id := by
  rw [Loop.linkOf?, h.sessions, Loop.linkOf?]

theorem Around.talk (h : Around l m) : m.server.talk = l.server.talk := by
  rw [Server.talk, h.trace, Server.talk]

theorem Around.quiet (h : Around l m) : Quiet l.server m.server :=
  ⟨h.requests, h.grants, h.issued, h.trace ▸ List.prefix_refl _⟩

theorem around_surround (l : Loop) (w : Surroundings) : Around l (l.surround w) :=
  ⟨rfl, rfl, rfl, rfl, rfl, rfl, rfl, rfl, rfl, rfl, rfl, rfl⟩

/-- Anything but a step of the server is a change around it. -/
theorem act_eq_surround (l : Loop) (ha : a ≠ .serve) :
    ∃ w, l.act a = l.surround w ∧ w.net = l.server.net.after a := by
  have hnet : ∀ net, l.withNet net =
      l.surround { l.surroundings with net := net, ready := (l.withNet net).ready } :=
    fun _ => rfl
  cases a with
  | serve => exact absurd rfl ha
  | connect origin => exact ⟨_, hnet _, rfl⟩
  | send link bytes => exact ⟨_, hnet _, rfl⟩
  | take link n => exact ⟨_, hnet _, rfl⟩
  | shutdown link => exact ⟨_, hnet _, rfl⟩
  | close link => exact ⟨_, hnet _, rfl⟩
  | raise s =>
      exact ⟨{ l.surroundings with
        signals := l.server.signals.raise s
        ready := (l.signal s).ready }, rfl, rfl⟩
  | pass nanos =>
      exact ⟨{ l.surroundings with
        now := l.server.now + nanos
        ready := (l.atTime (l.server.now + nanos)).ready }, rfl, rfl⟩
  | replug chips => exact ⟨{ l.surroundings with chips := chips }, rfl, rfl⟩
  | gate closed => exact ⟨{ l.surroundings with gateClosed := closed }, rfl, rfl⟩
  | reorder ready =>
      by_cases hperm : ready.isPerm l.ready = true
      · exact ⟨{ l.surroundings with ready := ready }, if_pos hperm, rfl⟩
      · exact ⟨l.surroundings, if_neg hperm, rfl⟩

theorem around_act (l : Loop) (ha : a ≠ .serve) : Around l (l.act a) := by
  obtain ⟨w, hw, -⟩ := act_eq_surround l ha
  rw [hw]
  exact around_surround l w

theorem net_act (l : Loop) (ha : a ≠ .serve) : (l.act a).server.net = l.server.net.after a := by
  obtain ⟨w, hw, hnet⟩ := act_eq_surround l ha
  rw [hw]
  exact hnet

/-- Only signals that arrive change those that wait. -/
theorem signals_act (l : Loop) (ha : a ≠ .serve) (hraise : ∀ s, a ≠ .raise s) :
    (l.act a).server.signals = l.server.signals := by
  cases a with
  | serve => exact absurd rfl ha
  | raise s => exact absurd rfl (hraise s)
  | reorder ready =>
      simp only [act]
      split <;> rfl
  | _ => rfl

theorem around_play (l : Loop) (has : .serve ∉ as) : Around l (l.play as) := by
  refine play_induction l as (Around.refl l) ?_
  intro m a ha hm
  exact hm.trans (around_act m fun h => has (h ▸ ha))

theorem net_play (l : Loop) (has : .serve ∉ as) :
    (l.play as).server.net = as.foldl Net.after l.server.net := by
  induction as generalizing l with
  | nil => rfl
  | cons a as ih =>
      rw [List.mem_cons, not_or] at has
      rw [play_cons, ih _ has.2, net_act l (Ne.symm has.1), List.foldl_cons]

theorem next_act (l : Loop) (a : Action) : Next l (l.act a) := by
  by_cases ha : a = .serve
  · rw [ha]
    exact Next.step l
  · obtain ⟨w, hw, -⟩ := act_eq_surround l ha
    rw [hw]
    exact Next.surround l w

theorem run_play (l : Loop) (as : List Action) : Run l (l.play as) := by
  refine play_induction l as (Run.refl l) ?_
  intro m a _ hm
  exact hm.trans (Relation.ReflTransGen.single (next_act m a))

theorem Played.reachable (h : Played chips period l) : Reachable chips period l := by
  obtain ⟨as, rfl⟩ := h
  exact run_play _ as

end Around

section Links

/-- An action that is about a link changes this link. -/
theorem after_of_link? (net : Net) {k : Nat} (h : a.link? = some k) :
    net.after a = net.modify k a.change := by
  cases a with
  | send link bytes =>
      cases h
      by_cases hsend : ∃ l, net.links[k]? = some l ∧ (l.server.isOpen && l.client.sends) = true
      · obtain ⟨l, hl, hopen⟩ := hsend
        have hchange : Action.change (.send k bytes) l = Net.arrived l bytes := if_pos hopen
        simp only [Net.after, Net.send_client_of_open hl hopen]
        rw [← Net.set_eq_modify _ hl, ← Net.set_eq_modify _ hl, hchange]
      · have herror : ∃ e, net.send k .client bytes = .error e := by
          cases hsent : net.send k .client bytes with
          | error e => exact ⟨e, rfl⟩
          | ok net' =>
              obtain ⟨l, hl, hopen, -⟩ := Net.eq_of_send_client hsent
              exact absurd ⟨l, hl, hopen⟩ hsend
        obtain ⟨e, he⟩ := herror
        simp only [Net.after, he]
        refine (Net.modify_eq_self fun l hl => ?_).symm
        exact if_neg fun hopen => hsend ⟨l, hl, hopen⟩
  | take link n =>
      cases h
      simp only [Net.after, Net.take_eq]
      rfl
  | shutdown link =>
      cases h
      rfl
  | close link =>
      cases h
      rfl
  | _ => cases h

/-- Any other one opens at most a connection. -/
theorem after_of_link?_none (net : Net) (h : a.link? = none) :
    net.after a = net ∨ net.listens = true ∧ ∃ origin, a = .connect origin ∧ net.after a =
    { net with
      links := net.links ++ [Link.opened origin]
      waiting := net.waiting ++ [net.links.length] } := by
  cases a with
  | connect origin =>
      by_cases hlistens : net.listens = true
      · right
        refine ⟨hlistens, origin, rfl, ?_⟩
        simp only [Net.after, Net.connect, hlistens, if_true]
      · left
        simp only [Net.after, Net.connect, hlistens, Bool.false_eq_true, if_false]
  | send link bytes => cases h
  | take link n => cases h
  | shutdown link => cases h
  | close link => cases h
  | _ => exact .inl rfl

theorem listens_after (net : Net) (a : Action) : (net.after a).listens = net.listens := by
  cases h : a.link? with
  | some k =>
      rw [after_of_link? net h]
      rfl
  | none =>
      rcases after_of_link?_none net h with hsame | ⟨-, origin, -, hafter⟩
      · rw [hsame]
      · rw [hafter]

/-- Nothing that is done elsewhere touches a link. -/
theorem links_after_of_ne (net : Net) {k : Nat} (hk : k < net.links.length)
    (h : a.link? ≠ some k) : (net.after a).links[k]? = net.links[k]? := by
  cases hlink : a.link? with
  | some j =>
      rw [after_of_link? net hlink]
      refine Net.links_modify_of_ne _ ?_
      rintro rfl
      exact h hlink
  | none =>
      rcases after_of_link?_none net hlink with hsame | ⟨-, origin, -, hafter⟩
      · rw [hsame]
      · rw [hafter]
        exact List.getElem?_append_left hk

/-- Nothing that is done changes where a link comes from. -/
theorem originOf_after (net : Net) (a : Action) {k : Nat} (hk : k < net.links.length) :
    (net.after a).originOf k = net.originOf k := by
  cases hlink : a.link? with
  | some j =>
      rw [after_of_link? net hlink]
      exact Net.originOf_modify a.origin_change k
  | none =>
      refine Net.originOf_congr (links_after_of_ne net hk ?_)
      rw [hlink]
      rintro ⟨⟩

/-- What is done on a link depends on this link only. -/
theorem links_after_congr {net net' : Net} {k : Nat} (hk : net'.links[k]? = net.links[k]?)
    (hcount : net'.links.length = net.links.length) (hlistens : net'.listens = net.listens)
    (a : Action) :
    (net'.after a).links[k]? = (net.after a).links[k]? ∧
      (net'.after a).links.length = (net.after a).links.length := by
  cases hlink : a.link? with
  | some j =>
      rw [after_of_link? net hlink, after_of_link? net' hlink, Net.links_modify,
        Net.links_modify, Net.length_modify, Net.length_modify, hk]
      exact ⟨rfl, hcount⟩
  | none =>
      cases a with
      | connect origin =>
          simp only [Net.after, Net.connect, hlistens]
          cases net.listens with
          | true =>
              simp only [if_true, List.length_append, hcount, and_true]
              rw [List.getElem?_append, List.getElem?_append, hcount, hk]
          | false => exact ⟨hk, hcount⟩
      | send link bytes => cases hlink
      | take link n => cases hlink
      | shutdown link => cases hlink
      | close link => cases hlink
      | _ => exact ⟨hk, hcount⟩

theorem links_foldl_after_congr {net net' : Net} {k : Nat}
    (hk : net'.links[k]? = net.links[k]?) (hcount : net'.links.length = net.links.length)
    (hlistens : net'.listens = net.listens) (as : List Action) :
    (as.foldl Net.after net').links[k]? = (as.foldl Net.after net).links[k]? := by
  induction as generalizing net net' with
  | nil => exact hk
  | cons a as ih =>
      obtain ⟨hk', hcount'⟩ := links_after_congr hk hcount hlistens a
      refine ih hk' hcount' ?_
      rw [listens_after, listens_after, hlistens]

/-- Only a new link joins those that wait, and its number is no other link's. -/
theorem apart_after {net : Net} {ks : List Nat} (hapart : (ks ++ net.waiting).Nodup)
    (hplaced : ∀ k ∈ ks ++ net.waiting, k < net.links.length) (a : Action) :
    (ks ++ (net.after a).waiting).Nodup ∧
      ∀ k ∈ ks ++ (net.after a).waiting, k < (net.after a).links.length := by
  cases hlink : a.link? with
  | some j =>
      rw [after_of_link? net hlink, Net.length_modify]
      exact ⟨hapart, hplaced⟩
  | none =>
      rcases after_of_link?_none net hlink with hsame | ⟨-, origin, -, hafter⟩
      · rw [hsame]
        exact ⟨hapart, hplaced⟩
      · have hfresh : net.links.length ∉ ks ++ net.waiting := fun hmem =>
          Nat.lt_irrefl _ (hplaced _ hmem)
        rw [hafter, ← List.append_assoc, ← List.concat_eq_append, List.length_append]
        refine ⟨hapart.concat hfresh, fun k hk => ?_⟩
        rw [List.concat_eq_append, List.mem_append, List.mem_singleton] at hk
        rcases hk with hold | rfl
        · exact Nat.lt_succ_of_lt (hplaced k hold)
        · exact Nat.lt_succ_self _

/-- Every link is in use once, and is there. -/
structure OwnLinks (s : Server) : Prop where
  apart : s.linksInUse.Nodup
  placed : ∀ k ∈ s.linksInUse, k < s.net.links.length

variable {s t : Server}

theorem OwnLinks.of_sublist (h : OwnLinks s) (hlinks : t.linksInUse.Sublist s.linksInUse)
    (hcount : t.net.links.length = s.net.links.length) : OwnLinks t where
  apart := h.apart.sublist hlinks
  placed := by
    intro k hk
    rw [hcount]
    exact h.placed k (hlinks.subset hk)

theorem OwnLinks.of_same (h : OwnLinks s) (hsessions : t.sessions = s.sessions)
    (hnet : t.net = s.net) : OwnLinks t := by
  refine h.of_sublist ?_ (congrArg (fun net => net.links.length) hnet)
  rw [linksInUse, linksInUse, hsessions, hnet]

theorem OwnLinks.confined {id : ClientId} (h : OwnLinks s) (hst : Confined id s t) :
    OwnLinks t := by
  refine h.of_sublist ?_ hst.count
  rw [linksInUse, linksInUse, hst.waiting]
  rcases hst.table with ⟨hsame, -⟩ | ⟨hremoved, -⟩
  · rw [hsame]
  · rw [hremoved]
    exact (List.filter_sublist.map _).append (List.Sublist.refl _)

theorem OwnLinks.sameClients (h : OwnLinks s) (hst : SameClients s t) : OwnLinks t :=
  h.of_same hst.sessions hst.net

/-- A link that is accepted waits on, or is that of a session, or is no longer in use. -/
theorem linksInUse_accept (s : Server) : s.accept.linksInUse.Sublist s.linksInUse := by
  have haccepts := s.accepts
  generalize s.accept = t at haccepts
  have hpassed : ∀ k ks, s.net.waiting = k :: ks →
      (s.sessions.entries.map (·.2.link) ++ ks).Sublist s.linksInUse := by
    intro k ks hwaiting
    rw [linksInUse, hwaiting]
    exact (List.Sublist.refl _).append (List.sublist_cons_self k ks)
  cases haccepts with
  | nobody _ => exact List.Sublist.refl _
  | failed k ks errno _ _ => exact List.Sublist.refl _
  | turnedAway k ks report hwaiting _ _ => exact hpassed k ks hwaiting
  | seatedBriefly k ks errno hwaiting _ _ =>
      rw [linksInUse, sessions_seatBriefly]
      exact hpassed k ks hwaiting
  | seated k ks hwaiting _ _ =>
      simp only [linksInUse, hwaiting, seat, Sessions.insert, List.map_append, List.append_assoc]
      exact List.Sublist.refl _

theorem OwnLinks.accept (h : OwnLinks s) : OwnLinks s.accept :=
  h.of_sublist (linksInUse_accept s) s.reception.length

theorem OwnLinks.after (h : OwnLinks s) (ht : t.sessions = s.sessions)
    (hnet : t.net = s.net.after a) : OwnLinks t := by
  obtain ⟨hapart, hplaced⟩ := apart_after h.apart h.placed a
  have hlinks : t.linksInUse = s.sessions.entries.map (·.2.link) ++ (s.net.after a).waiting := by
    rw [linksInUse, ht, hnet]
  constructor
  · rw [hlinks]
    exact hapart
  · rw [hlinks, hnet]
    exact hplaced

end Links

end Loop
end LineKeeper
