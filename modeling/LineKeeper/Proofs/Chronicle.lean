import Mathlib.Data.List.Induction
import Mathlib.Data.List.Perm.Subperm
import LineKeeper.Proofs.Inputs

/-!
# The chronicle of a run

A `Chronicle` remembers, of a run, who got an identifier on which link, what came in over
each link, and which messages were handled, in order.  `Chronicle.note` adds what one action
does, and `chronicle` is the chronicle of a list of actions.

A step begins at most one session, which may end at once, and changes nothing else about
who is connected but to end sessions and to turn those away that wait (`Loop.Seating`).

**Invariants.**
* `Tabled`: no identifier is handed out twice, and every client has a link of its own.
* `Fed`: what came in over a link that waits is unread, and nothing came in over a link
  that is not there yet.

Identifiers come from a counter of 64 bits, so `Tabled` holds of runs with at most
`2 ^ 64` connections.
-/

namespace LineKeeper

namespace Loop

open Server

variable {l m : Loop} {client : ClientId} {k : Nat}

section Seating

/-- What a step does to the table of sessions and to the links that wait. -/
inductive Seating (l m : Loop) : Option (ClientId × Nat) → Prop
  | kept (hentries : m.server.sessions.entries.Sublist l.server.sessions.entries)
      (hnext : m.ending = none →
        l.ending = none ∧ m.server.sessions.next = l.server.sessions.next)
      (hwaiting : m.server.net.waiting.Sublist l.server.net.waiting)
      (hlinks : ∀ k ∈ m.server.net.waiting, m.server.net.links[k]? = l.server.net.links[k]?)
      (hcount : m.server.net.links.length = l.server.net.links.length) : Seating l m none
  | retried (k : Nat) (haccepts : l.accepts? = some k)
      (hsessions : m.server.sessions = l.server.sessions)
      (hnet : m.server.net = l.server.net.modify k Link.retried) : Seating l m none
  | seated (session : Session) (hend : l.ending = none)
      (hwaiting : l.server.net.waiting = session.link :: m.server.net.waiting)
      (hsessions : m.server.sessions = (l.server.sessions.insert session).2)
      (hlinks : m.server.net.links = l.server.net.links) :
      Seating l m (some (l.server.sessions.next, session.link))
  | passed (k : Nat) (hend : l.ending = none)
      (hwaiting : l.server.net.waiting = k :: m.server.net.waiting)
      (hsessions : m.server.sessions =
        { l.server.sessions with next := l.server.sessions.next.next })
      (hlinks : ∀ j, j ≠ k → m.server.net.links[j]? = l.server.net.links[j]?)
      (hcount : m.server.net.links.length = l.server.net.links.length) :
      Seating l m (some (l.server.sessions.next, k))

theorem seating_of_same (hend : m.ending = none → l.ending = none)
    (hsessions : m.server.sessions = l.server.sessions)
    (hnet : m.server.net = l.server.net) : Seating l m none := by
  refine .kept (by rw [hsessions]) (fun h => ⟨hend h, by rw [hsessions]⟩) (by rw [hnet]) ?_
    (by rw [hnet])
  intro k _
  rw [hnet]

theorem seating_of_confined (id : ClientId) (hl : Coherent l)
    (hend : m.ending = none → l.ending = none) (h : Confined id l.server m.server) :
    Seating l m none := by
  refine .kept ?_ (fun hm => ⟨hend hm, ?_⟩) (h.waiting ▸ List.Sublist.refl _) ?_ h.count
  · rcases h.table with ⟨hsame, -⟩ | ⟨hremoved, -⟩
    · rw [hsame]
    · rw [hremoved]
      exact List.filter_sublist
  · rcases h.table with ⟨hsame, -⟩ | ⟨hremoved, -⟩
    · rw [hsame]
    · rw [hremoved]
      rfl
  · intro k hk
    refine h.links k fun hlink => ?_
    obtain ⟨session, hs, rfl⟩ := Option.map_eq_some_iff.mp hlink
    exact link_not_waiting hl.links.apart hs (h.waiting ▸ hk)

/-- Ending a server leaves no session and no link that waits. -/
theorem seating_of_ended {e : Ending} (hend : m.ending = some e)
    (hentries : m.server.sessions.entries.Sublist l.server.sessions.entries)
    (hwaiting : m.server.net.waiting = [])
    (hcount : m.server.net.links.length = l.server.net.links.length) : Seating l m none := by
  refine .kept hentries ?_ (hwaiting ▸ List.nil_sublist _) ?_ hcount
  · rw [hend]
    rintro ⟨⟩
  · rw [hwaiting]
    rintro k ⟨⟩

/-- Accepting a connection, or trying to. -/
theorem seating_accepts (hl : Coherent l) (haccepts : l.accepts? = some k) :
    Seating l l.step l.draws? := by
  obtain ⟨hend, -⟩ := eq_of_accepts? haccepts
  have hclosed : ∀ j, j ≠ k → (l.server.net.modify k (·.close .server)).links[j]? =
      l.server.net.links[j]? := fun j hj => Net.links_modify_of_ne _ hj
  have hcount := Net.length_modify l.server.net k (·.close .server)
  cases received haccepts with
  | failed ks errno _ hdraws _ _ hstep =>
      rw [hdraws]
      exact .retried k haccepts (by rw [hstep]; rfl) (by rw [hstep])
  | turnedAway ks report hwaiting hdraws _ hstep =>
      have hapart := (List.nodup_append.mp hl.links.apart).2.1
      rw [hwaiting, List.nodup_cons] at hapart
      rw [hdraws]
      refine .kept ?_ (fun _ => ⟨hend, ?_⟩) ?_ ?_ ?_ <;> rw [hstep]
      · exact List.Sublist.refl _
      · rfl
      · exact hwaiting ▸ List.sublist_cons_self k ks
      · intro j hj
        refine hclosed j ?_
        rintro rfl
        exact hapart.1 hj
      · exact hcount
  | seatedBriefly ks errno hwaiting hdraws _ hstep =>
      rw [hdraws]
      refine .passed k hend ?_ ?_ ?_ ?_ <;> rw [hstep]
      · exact hwaiting
      · exact sessions_seatBriefly _ _ _ _
      · exact hclosed
      · exact hcount
  | seated ks hwaiting hdraws _ hstep =>
      rw [hdraws]
      exact .seated ⟨k, _⟩ hend (by rw [hstep]; exact hwaiting) (by rw [hstep]; rfl)
        (by rw [hstep]; rfl)

theorem seating_begins {e : Readiness} {es : List Readiness} (hl : Coherent l)
    (hend : l.ending = none) (hjob : l.job = none) (hphase : l.phase = .handling (e :: es))
    (hstop : l.server.stop = none) (h : Begins l.server e l.step.server l.step.job) :
    Seating l l.step l.draws? := by
  cases haccepts : l.accepts? with
  | some k => exact seating_accepts hl haccepts
  | none =>
      have hkept : l.step.ending = none → l.ending = none := fun _ => hend
      rw [draws?_of_none haccepts]
      obtain ⟨t, ht⟩ : ∃ t, l.step.server = t := ⟨_, rfl⟩
      obtain ⟨job, hj⟩ : ∃ job, l.step.job = job := ⟨_, rfl⟩
      rw [ht, hj] at h
      cases h with
      | accepted htoken =>
          have hsame : l.step.server = l.server :=
            ht.trans (accept_of_nobody hend hjob hstop hphase htoken haccepts)
          exact seating_of_same hkept (by rw [hsame]) (by rw [hsame])
      | signalled htoken =>
          obtain ⟨-, hsessions, -, hnet, -⟩ := l.server.takeSignals_cases
          exact seating_of_same hkept (by rw [ht, hsessions]) (by rw [ht, hnet])
      | timed htoken =>
          obtain ⟨-, hsessions, -, hnet, -⟩ := l.server.takeExpiry_cases
          exact seating_of_same hkept (by rw [ht, hsessions]) (by rw [ht, hnet])
      | @heard id session r hs hr =>
          refine seating_of_confined id hl hkept ?_
          rw [ht]
          exact (confined_afterReading hs r).trans (hearing _ id session.peer r).confined
      | left report _ htoken hs _ _ =>
          exact seating_of_confined _ hl hkept (ht ▸ confined_afterLeaving hs report)
      | nothing htoken _ => exact seating_of_same hkept (by rw [ht]) (by rw [ht])
      | stray htoken => exact seating_of_same hkept (by rw [ht]; rfl) (by rw [ht]; rfl)

theorem seating_step (hl : Coherent l) : Seating l l.step l.draws? := by
  obtain ⟨hm, hwhy⟩ | ⟨job, hend, hjob, -, hm⟩ | ⟨hend, hjob, hphase, hm⟩ |
      ⟨e, es, hend, hjob, hphase, hstop, hm⟩ | ⟨e, es, hend, hjob, hphase, hstop, hbegins, -⟩ |
      ⟨why, hend, hjob, hphase, hstop, hm⟩ | ⟨s, hend, hjob, hphase, hstop, hupdate, hm⟩ |
      ⟨e, hend, hjob, hphase, hstop, -, hm⟩ := l.steps
  · have haccepts : l.accepts? = none := by
      unfold accepts?
      split
      · next hend hjob _ _ =>
        simp [isStuck, hend, hjob] at hwhy
      · rfl
    rw [draws?_of_none haccepts]
    exact seating_of_same (fun h => by rwa [hm] at h) (by rw [hm]) (by rw [hm])
  · have haccepts : l.accepts? = none := by simp only [accepts?, hend, hjob]
    rw [draws?_of_none haccepts]
    refine seating_of_confined job.client hl (fun _ => hend) ?_
    rw [hm]
    exact confined_finish _ job
  · rw [draws?_of_none (accepts?_of_phase (by rw [hphase]; rintro _ _ ⟨⟩))]
    exact seating_of_same (fun _ => hend) (by rw [hm]; rfl) (by rw [hm]; rfl)
  · have haccepts : l.accepts? = none := by
      obtain ⟨why, hwhy⟩ := Option.isSome_iff_exists.mp hstop
      simp only [accepts?, hend, hjob, hwhy]
    rw [draws?_of_none haccepts]
    exact seating_of_same (fun _ => hend) (by rw [hm]) (by rw [hm])
  · exact seating_begins hl hend hjob hphase hstop hbegins
  · have hshut := shutsDown_drain why hl.links.apart fun id => hl.stopper why id hstop hend
    rw [draws?_of_none (accepts?_of_phase (by rw [hphase]; rintro _ _ ⟨⟩)), hm]
    refine seating_of_ended rfl ?_ hshut.waiting hshut.count
    show (l.server.drain why).sessions.entries.Sublist _
    rw [hshut.sessions]
    exact List.nil_sublist _
  · have hsame := sameClients_updateIdle hupdate
    rw [draws?_of_none (accepts?_of_phase (by rw [hphase]; rintro _ _ ⟨⟩)), hm]
    exact seating_of_same (fun _ => hend) hsame.sessions hsame.net
  · rw [draws?_of_none (accepts?_of_phase (by rw [hphase]; rintro _ _ ⟨⟩)), hm]
    exact seating_of_ended rfl (List.Sublist.refl _) rfl (Net.length_stopListening _)

end Seating

section Counting

theorem Seating.count {p : Option (ClientId × Nat)} (h : Seating l m p) :
    m.server.net.links.length = l.server.net.links.length := by
  cases h with
  | kept _ _ _ _ hcount => exact hcount
  | retried k _ _ hnet => rw [hnet, Net.length_modify]
  | seated _ _ _ _ hlinks => rw [hlinks]
  | passed _ _ _ _ _ hcount => exact hcount

/-- No step adds a link to those that wait. -/
theorem Seating.waiting {p : Option (ClientId × Nat)} (h : Seating l m p) :
    m.server.net.waiting ⊆ l.server.net.waiting := by
  cases h with
  | kept _ _ hwaiting _ _ => exact hwaiting.subset
  | retried k _ _ hnet =>
      rw [hnet]
      exact List.Subset.refl _
  | seated session _ hwaiting _ _ =>
      rw [hwaiting]
      exact List.subset_cons_self _ _
  | passed k _ hwaiting _ _ _ =>
      rw [hwaiting]
      exact List.subset_cons_self _ _

/-- Only a new link is added to those that wait. -/
theorem waiting_after (net : Net) (a : Action) (hk : k ∈ (net.after a).waiting) :
    k ∈ net.waiting ∨ k = net.links.length := by
  cases hlink : a.link? with
  | some j =>
      rw [after_of_link? net hlink] at hk
      exact .inl hk
  | none =>
      rcases after_of_link?_none net hlink with hsame | ⟨-, origin, -, hafter⟩
      · exact .inl (hsame ▸ hk)
      · rw [hafter, List.mem_append, List.mem_singleton] at hk
        exact hk

/-- Links are only added. -/
theorem length_le_after (net : Net) (a : Action) :
    net.links.length ≤ (net.after a).links.length := by
  cases hlink : a.link? with
  | some k =>
      exact Nat.le_of_eq (by rw [after_of_link? net hlink, Net.length_modify])
  | none =>
      rcases after_of_link?_none net hlink with hsame | ⟨-, origin, -, hafter⟩
      · exact Nat.le_of_eq (congrArg (fun net => net.links.length) hsame.symm)
      · rw [hafter, List.length_append]
        exact Nat.le_add_right _ _

theorem length_le_act (hl : Coherent l) (a : Action) :
    l.server.net.links.length ≤ (l.act a).server.net.links.length := by
  by_cases ha : a = .serve
  · subst ha
    exact Nat.le_of_eq (seating_step hl).count.symm
  · rw [net_act l ha]
    exact length_le_after l.server.net a

theorem length_le_play (hl : Played chips period l) (as : List Action) :
    l.server.net.links.length ≤ (l.play as).server.net.links.length := by
  induction as using List.reverseRecOn with
  | nil => exact Nat.le_refl _
  | append_singleton as a ih =>
      rw [play_concat]
      exact Nat.le_trans ih (length_le_act (hl.play as).coherent a)

end Counting

end Loop

/-- What is remembered of a run, beside the loop that it led to: who got an identifier on which
link, what came in over each link, and the messages that were handled. -/
structure Chronicle where
  loop : Loop
  seats : List (ClientId × Nat)
  sent : Nat → List UInt8
  handled : List Handled

/-- Nothing has happened yet. -/
def Chronicle.start (chips : Chips) (period : Nat) : Chronicle :=
  ⟨Loop.start chips period, [], fun _ => [], []⟩

/-- Adds what an action does. -/
def Chronicle.note (w : Chronicle) (a : Action) : Chronicle where
  loop := w.loop.act a
  seats := if a = .serve then w.seats ++ w.loop.draws?.toList else w.seats
  sent := fun k => w.sent k ++ w.loop.server.net.arriving a k
  handled := if a = .serve then w.handled ++ w.loop.handles?.toList else w.handled

/-- The chronicle of a list of actions. -/
def chronicle (chips : Chips) (period : Nat) (as : List Action) : Chronicle :=
  as.foldl Chronicle.note (.start chips period)

namespace Chronicle

open Server
open Loop (linkOf? Coherent Seating Around)

variable {w : Chronicle} {a : Action} {as : List Action} {chips : Chips} {period : Nat}
  {client : ClientId} {k : Nat}

section Noting

/-- The clients that got an identifier. -/
def clients (w : Chronicle) : List ClientId :=
  w.seats.map Prod.fst

/-- The links of these clients, and those that wait. -/
def links (w : Chronicle) : List Nat :=
  w.seats.map Prod.snd ++ w.loop.server.net.waiting

/-- The messages of one client that were handled. -/
def handledOf (w : Chronicle) (client : ClientId) : List Handled :=
  w.handled.filter (·.client = client)

theorem chronicle_concat (chips : Chips) (period : Nat) (as : List Action) (a : Action) :
    chronicle chips period (as ++ [a]) = (chronicle chips period as).note a :=
  List.foldl_concat _ _ _ _

theorem loop_chronicle (chips : Chips) (period : Nat) (as : List Action) :
    (chronicle chips period as).loop = (Loop.start chips period).play as := by
  induction as using List.reverseRecOn with
  | nil => rfl
  | append_singleton as a ih =>
      rw [chronicle_concat, Loop.play_concat, ← ih]
      rfl

theorem coherent_chronicle (chips : Chips) (period : Nat) (as : List Action) :
    Coherent (chronicle chips period as).loop := by
  rw [loop_chronicle]
  exact Loop.Played.coherent ⟨as, rfl⟩

theorem seats_note_serve (w : Chronicle) :
    (w.note .serve).seats = w.seats ++ w.loop.draws?.toList := rfl

theorem seats_note_of_none (hdraws : w.loop.draws? = none) : (w.note .serve).seats = w.seats := by
  rw [seats_note_serve, hdraws]
  exact List.append_nil _

theorem clients_note_of_none (hdraws : w.loop.draws? = none) :
    (w.note .serve).clients = w.clients := by
  rw [clients, seats_note_of_none hdraws, clients]

theorem seats_note_of_some (hdraws : w.loop.draws? = some (client, k)) :
    (w.note .serve).seats = w.seats ++ [(client, k)] := by
  rw [seats_note_serve, hdraws]
  rfl

theorem clients_note_of_some (hdraws : w.loop.draws? = some (client, k)) :
    (w.note .serve).clients = w.clients ++ [client] := by
  rw [clients, seats_note_of_some hdraws, List.map_append]
  rfl

theorem length_note_of_some (hdraws : w.loop.draws? = some (client, k)) :
    (w.note .serve).seats.length = w.seats.length + 1 := by
  rw [seats_note_of_some hdraws, List.length_append]
  rfl

theorem seats_note_of_ne (w : Chronicle) (ha : a ≠ .serve) : (w.note a).seats = w.seats :=
  if_neg ha

theorem handledOf_note_serve (w : Chronicle) (client : ClientId) :
    (w.note .serve).handledOf client = w.handledOf client ++ w.loop.handlesOf client :=
  List.filter_append ..

theorem handled_note_of_ne (w : Chronicle) (ha : a ≠ .serve) :
    (w.note a).handled = w.handled :=
  if_neg ha

theorem handledOf_note_of_ne (w : Chronicle) (ha : a ≠ .serve) :
    (w.note a).handledOf client = w.handledOf client := by
  rw [handledOf, handled_note_of_ne w ha, handledOf]

theorem sent_note_serve (w : Chronicle) : (w.note .serve).sent = w.sent :=
  funext fun _ => List.append_nil _

end Noting

section Tabled

/-- Every client got an identifier of its own, and has a link of its own. -/
structure Tabled (w : Chronicle) : Prop where
  numbered : w.loop.ending = none → w.loop.server.sessions.Numbered w.seats.length
  seated : ∀ e ∈ w.loop.server.sessions.entries, (e.1, e.2.link) ∈ w.seats
  numbers : ∀ id ∈ w.clients, id.number.toNat < w.seats.length
  own : w.clients.Nodup
  apart : w.links.Nodup
  placed : ∀ k ∈ w.links, k < w.loop.server.net.links.length

theorem tabled_start (chips : Chips) (period : Nat) : Tabled (start chips period) where
  numbered := fun _ => Sessions.numbered_empty
  seated := by rintro e ⟨⟩
  numbers := by rintro id ⟨⟩
  own := List.nodup_nil
  apart := List.nodup_nil
  placed := by rintro k ⟨⟩

/-- There are at most as many clients and links that wait as connections. -/
theorem Tabled.count (h : Tabled w) : w.links.length ≤ w.loop.server.net.links.length := by
  have hsub : w.links ⊆ List.range w.loop.server.net.links.length := fun k hk =>
    List.mem_range.mpr (h.placed k hk)
  have hlength := (h.apart.subperm hsub).length_le
  rwa [List.length_range] at hlength

/-- The identifier that is handed out next was never handed out before. -/
theorem Tabled.fresh (h : Tabled w) {waiting : List Nat} (hend : w.loop.ending = none)
    (hwaiting : w.loop.server.net.waiting = k :: waiting)
    (hbound : w.loop.server.net.links.length ≤ 2 ^ 64) :
    w.seats.length < 2 ^ 64 ∧ w.loop.server.sessions.next ∉ w.clients := by
  have hcount := h.count
  rw [links, List.length_append, List.length_map, hwaiting, List.length_cons] at hcount
  have hlt : w.seats.length < 2 ^ 64 := by omega
  refine ⟨hlt, fun hmem => ?_⟩
  have hnumber := h.numbers _ hmem
  rw [(h.numbered hend).next_toNat hlt] at hnumber
  exact Nat.lt_irrefl _ hnumber

/-- Who has a session got its identifier on its link. -/
theorem Tabled.mem_seats {session : Session} (h : Tabled w)
    (hs : w.loop.server.sessions.get? client = some session) :
    (client, session.link) ∈ w.seats :=
  h.seated _ (Sessions.mem_of_get? hs)

theorem Tabled.mem_clients (h : Tabled w) (hin : client ∈ w.loop.server.sessions.ids) :
    client ∈ w.clients := by
  obtain ⟨session, hs⟩ := Sessions.mem_ids_iff.mp hin
  exact List.mem_map_of_mem (f := Prod.fst) (h.mem_seats hs)

/-- A client that is there has the link on which it got its identifier. -/
theorem Tabled.link_eq {session : Session} (h : Tabled w)
    (hs : w.loop.server.sessions.get? client = some session) (hseat : (client, k) ∈ w.seats) :
    session.link = k := by
  have hsame := List.inj_on_of_nodup_map h.own (h.mem_seats hs) hseat rfl
  exact congrArg Prod.snd hsame

/-- A step that hands out no identifier. -/
theorem Tabled.undrawn (h : Tabled w) (hdraws : w.loop.draws? = none)
    (hentries : w.loop.step.server.sessions.entries.Sublist w.loop.server.sessions.entries)
    (hnext : w.loop.step.ending = none → w.loop.ending = none ∧
      w.loop.step.server.sessions.next = w.loop.server.sessions.next)
    (hwaiting : w.loop.step.server.net.waiting.Sublist w.loop.server.net.waiting)
    (hcount : w.loop.step.server.net.links.length = w.loop.server.net.links.length) :
    Tabled (w.note .serve) := by
  have hloop : (w.note .serve).loop = w.loop.step := rfl
  have hseats := seats_note_of_none hdraws
  have hclients := clients_note_of_none hdraws
  have hsub : (w.note .serve).links.Sublist w.links := by
    rw [links, links, hseats]
    exact (List.Sublist.refl _).append hwaiting
  constructor
  · intro hend
    obtain ⟨hend', hnext'⟩ := hnext hend
    have hnumbered := h.numbered hend'
    rw [hseats, hloop]
    refine ⟨hnext'.symm ▸ hnumbered.next, fun id hid => ?_⟩
    exact hnumbered.below id ((hentries.map Prod.fst).subset hid)
  · intro e he
    rw [hseats]
    exact h.seated e (hentries.subset he)
  · rw [hclients, hseats]
    exact h.numbers
  · rw [hclients]
    exact h.own
  · exact h.apart.sublist hsub
  · intro k hk
    rw [hloop, hcount]
    exact h.placed k (hsub.subset hk)

/-- A step that hands out the next identifier, with a session that lasts or not. -/
theorem Tabled.drawn (h : Tabled w) (hend : w.loop.ending = none)
    (hdraws : w.loop.draws? = some (w.loop.server.sessions.next, k))
    (hwaiting : w.loop.server.net.waiting = k :: w.loop.step.server.net.waiting)
    (hbound : w.loop.server.net.links.length ≤ 2 ^ 64)
    (hnumbered : w.seats.length < 2 ^ 64 →
      w.loop.step.server.sessions.Numbered (w.seats.length + 1))
    (hentries : ∀ e ∈ w.loop.step.server.sessions.entries,
      e ∈ w.loop.server.sessions.entries ∨ (e.1, e.2.link) = (w.loop.server.sessions.next, k))
    (hcount : w.loop.step.server.net.links.length = w.loop.server.net.links.length) :
    Tabled (w.note .serve) := by
  obtain ⟨hlt, hfresh⟩ := h.fresh hend hwaiting hbound
  have hloop : (w.note .serve).loop = w.loop.step := rfl
  have hseats := seats_note_of_some hdraws
  have hclients := clients_note_of_some hdraws
  have hlength := length_note_of_some hdraws
  have hlast := (h.numbered hend).next_toNat hlt
  have hsame : (w.note .serve).links = w.links := by
    rw [links, links, hseats, hwaiting, List.map_append, List.append_assoc]
    rfl
  constructor
  · intro _
    rw [hlength, hloop]
    exact hnumbered hlt
  · intro e he
    rw [hseats, List.mem_append]
    rcases hentries e he with hold | hadded
    · exact .inl (h.seated e hold)
    · rw [hadded]
      exact .inr List.mem_cons_self
  · intro id hid
    rw [hlength]
    rw [hclients, List.mem_append] at hid
    rcases hid with hold | hadded
    · exact Nat.lt_succ_of_lt (h.numbers id hold)
    · rw [List.mem_singleton.mp hadded, hlast]
      exact Nat.lt_succ_self _
  · rw [hclients, ← List.concat_eq_append]
    exact h.own.concat hfresh
  · rw [hsame]
    exact h.apart
  · intro k hk
    rw [hloop, hcount]
    exact h.placed k (hsame ▸ hk)

theorem Tabled.note_serve (h : Tabled w) (hl : Coherent w.loop)
    (hbound : w.loop.server.net.links.length ≤ 2 ^ 64) : Tabled (w.note .serve) := by
  have hseating := Loop.seating_step hl
  have hcount := hseating.count
  generalize hdraws : w.loop.draws? = p at hseating
  cases hseating with
  | kept hentries hnext hwaiting _ _ => exact h.undrawn hdraws hentries hnext hwaiting hcount
  | retried k haccepts hsessions hnet =>
      have hend := (Loop.eq_of_accepts? haccepts).1
      refine h.undrawn hdraws ?_ (fun _ => ⟨hend, by rw [hsessions]⟩) ?_ hcount
      · rw [hsessions]
      · rw [hnet]
        exact List.Sublist.refl _
  | seated session hend hwaiting hsessions _ =>
      refine h.drawn hend hdraws hwaiting hbound (fun hlt => ?_) ?_ hcount
      · rw [hsessions]
        exact (h.numbered hend).insert hlt session
      · intro e he
        rw [hsessions] at he
        refine (List.mem_append.mp he).imp_right fun hadded => ?_
        rw [List.mem_singleton.mp hadded]
  | passed k hend hwaiting hsessions _ _ =>
      refine h.drawn hend hdraws hwaiting hbound (fun hlt => ?_) ?_ hcount
      · rw [hsessions]
        exact (h.numbered hend).skip
      · intro e he
        rw [hsessions] at he
        exact .inl he

theorem Tabled.note_of_ne (h : Tabled w) (ha : a ≠ .serve) : Tabled (w.note a) := by
  have haround : Around w.loop (w.note a).loop := Loop.around_act w.loop ha
  have hnet : (w.note a).loop.server.net = w.loop.server.net.after a := Loop.net_act w.loop ha
  have hseats := w.seats_note_of_ne ha
  have hclients : (w.note a).clients = w.clients := by rw [clients, hseats, clients]
  obtain ⟨hapart, hplaced⟩ := Loop.apart_after h.apart h.placed a
  constructor
  · rw [haround.ending, haround.sessions, hseats]
    exact h.numbered
  · rw [haround.sessions, hseats]
    exact h.seated
  · rw [hclients, hseats]
    exact h.numbers
  · rw [hclients]
    exact h.own
  · rw [links, hseats, hnet]
    exact hapart
  · rw [links, hseats, hnet]
    exact hplaced

theorem tabled_chronicle (hbound : (chronicle chips period as).loop.server.net.links.length
    ≤ 2 ^ 64) : Tabled (chronicle chips period as) := by
  induction as using List.reverseRecOn with
  | nil => exact tabled_start chips period
  | append_singleton as a ih =>
      rw [chronicle_concat] at hbound ⊢
      have hl := coherent_chronicle chips period as
      have hbefore := Nat.le_trans (Loop.length_le_act hl a) hbound
      by_cases ha : a = .serve
      · subst ha
        exact (ih hbefore).note_serve hl hbefore
      · exact (ih hbefore).note_of_ne ha

end Tabled

section Fed

/-- What came in over a link that waits is unread. -/
structure Fed (w : Chronicle) : Prop where
  later : ∀ k, w.loop.server.net.links.length ≤ k → w.sent k = []
  waiting : ∀ k ∈ w.loop.server.net.waiting, w.loop.server.net.unread k = w.sent k

/-- A step reads nothing of the links that still wait. -/
theorem Fed.note_serve (h : Fed w) (hl : Coherent w.loop) : Fed (w.note .serve) := by
  have hseating := Loop.seating_step hl
  have hcount := hseating.count
  have hloop : (w.note .serve).loop = w.loop.step := rfl
  constructor
  · intro k hk
    rw [sent_note_serve]
    exact h.later k (hcount ▸ hk)
  · intro k hk
    rw [sent_note_serve]
    generalize w.loop.draws? = p at hseating
    cases hseating with
    | kept _ _ hwaiting hlinks _ =>
        rw [← h.waiting k (hwaiting.subset hk)]
        exact Net.unread_congr (hlinks k hk)
    | retried j _ _ hnet =>
        rw [hloop, hnet] at hk ⊢
        rw [← h.waiting k hk]
        exact Net.unread_modify fun _ => rfl
    | seated session _ hwaiting _ hlinks =>
        rw [← h.waiting k (hwaiting ▸ List.mem_cons_of_mem _ hk)]
        exact Net.unread_congr (by rw [hloop, hlinks])
    | passed j _ hwaiting _ hlinks _ =>
        have hapart := (List.nodup_append.mp hl.links.apart).2.1
        rw [hwaiting, List.nodup_cons] at hapart
        rw [← h.waiting k (hwaiting ▸ List.mem_cons_of_mem _ hk)]
        refine Net.unread_congr (hlinks k ?_)
        rintro rfl
        exact hapart.1 hk

/-- What a client sends is kept as it comes in. -/
theorem Fed.note_of_ne (h : Fed w) (ha : a ≠ .serve) : Fed (w.note a) := by
  have hnet : (w.note a).loop.server.net = w.loop.server.net.after a := Loop.net_act w.loop ha
  have hsent : ∀ k, (w.note a).sent k = w.sent k ++ w.loop.server.net.arriving a k := fun _ => rfl
  have hunread := w.loop.server.net.unread_after a
  have hcount := Loop.length_le_after w.loop.server.net a
  rw [← hnet] at hunread hcount
  constructor
  · intro k hk
    have hnothing := hunread k
    rw [Net.unread_of_length_le hk, Net.unread_of_length_le (Nat.le_trans hcount hk),
      List.nil_append] at hnothing
    rw [hsent, h.later k (Nat.le_trans hcount hk), ← hnothing]
    rfl
  · intro k hk
    rw [hunread k, hsent]
    rcases Loop.waiting_after _ a (hnet ▸ hk) with hold | rfl
    · rw [h.waiting k hold]
    · rw [Net.unread_of_length_le (Nat.le_refl _), h.later _ (Nat.le_refl _)]

theorem fed_chronicle (chips : Chips) (period : Nat) (as : List Action) :
    Fed (chronicle chips period as) := by
  induction as using List.reverseRecOn with
  | nil => exact ⟨fun _ _ => rfl, by rintro k ⟨⟩⟩
  | append_singleton as a ih =>
      have hl := coherent_chronicle chips period as
      rw [chronicle_concat]
      by_cases ha : a = .serve
      · subst ha
        exact ih.note_serve hl
      · exact ih.note_of_ne ha

end Fed

end Chronicle
end LineKeeper
