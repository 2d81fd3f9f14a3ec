import LineKeeper.Proofs.Attention

/-!
# Tokens, sessions and what the server watches

A server is `Registered` if the tokens that it watches are those of its listening socket,
while it listens, of the signals and the idle timer, and of the clients with a session, in
this order and each once.  Every step keeps this, whichever way a session ends
(`Registered.step`).

Identifiers are drawn from a counter and never go back to it, also where a session ends as
it begins because its client cannot be watched.  So in a run that draws fewer than
`2 ^ 64 - 16` of them no two clients share a token, none has the token of another receiver,
and an event leads to the receiver it was registered for (`Dispatched`): to the session that
was there when the event was reported or, if that one has ended, to nothing.
-/

namespace LineKeeper

namespace ClientId

section Counting

theorem next_nextBy (id : ClientId) (n : Nat) : (id.nextBy n).next = id.nextBy (n + 1) := by
  induction n generalizing id with
  | zero => rfl
  | succ n ih => exact ih id.next

theorem number_first_nextBy (n : Nat) : (first.nextBy n).number = UInt64.ofNat n := by
  induction n with
  | zero => rfl
  | succ n ih =>
      rw [← next_nextBy, UInt64.ofNat_add, ← ih]
      rfl

theorem toNat_first_nextBy {n : Nat} (hn : n < 2 ^ 64) : (first.nextBy n).number.toNat = n := by
  rw [number_first_nextBy, UInt64.toNat_ofNat']
  exact Nat.mod_eq_of_lt hn

/-- As long as the counter does not come around, what it gives increases. -/
theorem pairwise_nextBy {n : Nat} (hn : n ≤ 2 ^ 64) :
    ((List.range n).map first.nextBy).Pairwise (·.number < ·.number) := by
  rw [List.pairwise_map]
  refine List.Pairwise.imp_of_mem ?_ (List.pairwise_lt_range (n := n))
  intro i j hi hj hij
  rw [List.mem_range] at hi hj
  rw [UInt64.lt_iff_toNat_lt, toNat_first_nextBy (Nat.lt_of_lt_of_le hi hn),
    toNat_first_nextBy (Nat.lt_of_lt_of_le hj hn)]
  exact hij

end Counting

end ClientId

namespace Receiver

variable {r r' : Receiver} {t : UInt64}

section Tokens

/-- The receivers that are there without any client. -/
def standing : List Receiver :=
  [.listener, .signals, .idleTimer]

/-- A client has one of the numbers that tokens are left for. -/
def InRange (r : Receiver) : Prop :=
  ∀ id, r = client id → id.number.toNat < UInt64.size - 16

theorem inRange_standing (h : r ∈ standing) : r.InRange := by
  rintro id rfl
  simp [standing] at h

theorem inRange_client {id : ClientId} (h : id.number.toNat < 2 ^ 64 - 16) :
    (client id).InRange := by
  rintro _ ⟨⟩
  exact h

theorem token_inj (hr : r.InRange) (hr' : r'.InRange) (h : r.token = r'.token) : r = r' := by
  have hsame := ofToken?_token hr
  rw [h, ofToken?_token hr'] at hsame
  exact (Option.some.inj hsame).symm

theorem token_of_ofToken? (h : ofToken? t = some r) : r.token = t := by
  unfold ofToken? at h
  split at h
  · next ht => cases h; exact ht.symm
  · split at h
    · next ht => cases h; exact ht.symm
    · split at h
      · next ht => cases h; exact ht.symm
      · split at h
        · cases h
          exact (UInt64.add_comm ..).trans (UInt64.sub_add_cancel t firstClientToken)
        · cases h

theorem ofToken?_eq_some_iff (hr : r.InRange) : ofToken? t = some r ↔ t = r.token := by
  constructor
  · exact fun h => (token_of_ofToken? h).symm
  · rintro rfl
    exact ofToken?_token hr

end Tokens

end Receiver

namespace Server

open Loop (Coherent)

variable {s t : Server} {id : ClientId} {e : Readiness} {job : Option Job}

section Registered

/-- What a server has to watch. -/
def registrations (s : Server) : List Receiver :=
  (if s.net.listens then [.listener] else []) ++
    .signals :: .idleTimer :: s.sessions.ids.map .client

/-- The server watches that and nothing else. -/
structure Registered (s : Server) : Prop where
  watched : s.watched = s.registrations.map Receiver.token
  inRange : ∀ r ∈ s.registrations, r.InRange

theorem mem_registrations_client : .client id ∈ s.registrations ↔ id ∈ s.sessions.ids := by
  unfold registrations
  split <;> simp

theorem nodup_registrations (h : s.sessions.ids.Nodup) : s.registrations.Nodup := by
  have hclients : (s.sessions.ids.map Receiver.client).Nodup :=
    h.map fun _ _ => Receiver.client.inj
  unfold registrations
  split <;> simp [hclients]

/-- What is watched is watched once. -/
theorem Registered.nodup_watched (h : Registered s) (hids : s.sessions.ids.Nodup) :
    s.watched.Nodup := by
  rw [h.watched]
  refine (nodup_registrations hids).map_on fun r hr r' hr' => ?_
  exact Receiver.token_inj (h.inRange r hr) (h.inRange r' hr')

/-- To forget the token of a receiver is to forget the receiver. -/
theorem Registered.watched_filter (h : Registered s) {r : Receiver} (hr : r.InRange) :
    s.watched.filter (· ≠ r.token) = (s.registrations.filter (· ≠ r)).map Receiver.token := by
  rw [h.watched, List.filter_map]
  refine congrArg _ (List.filter_congr fun r' hr' => ?_)
  rw [Function.comp_apply, decide_eq_decide, not_iff_not]
  exact ⟨Receiver.token_inj (h.inRange r' hr') hr, congrArg Receiver.token⟩

theorem Registered.of_ids (h : Registered s) (hids : t.sessions.ids = s.sessions.ids)
    (hwatched : t.watched = s.watched) (hlistens : t.net.listens = s.net.listens) :
    Registered t := by
  have hsame : t.registrations = s.registrations := by
    rw [registrations, hids, hlistens, registrations]
  exact ⟨by rw [hsame, hwatched, h.watched], hsame ▸ h.inRange⟩

theorem Registered.of_same (h : Registered s) (hsessions : t.sessions = s.sessions)
    (hwatched : t.watched = s.watched) (hlistens : t.net.listens = s.net.listens) :
    Registered t :=
  h.of_ids (by rw [hsessions]) hwatched hlistens

theorem Registered.sameClients (h : Registered s) (hst : SameClients s t) : Registered t :=
  h.of_same hst.sessions hst.watched (by rw [hst.net])

theorem registrations_remove (hsessions : t.sessions = s.sessions.remove id)
    (hlistens : t.net.listens = s.net.listens) :
    t.registrations = s.registrations.filter (· ≠ .client id) := by
  have hids : t.sessions.ids.map Receiver.client =
      (s.sessions.ids.map Receiver.client).filter (· ≠ .client id) := by
    rw [hsessions, Sessions.ids_remove, List.filter_map]
    refine congrArg _ (List.filter_congr fun other _ => ?_)
    simp
  rw [registrations, hids, hlistens, registrations]
  split <;> simp

/-- A session ends together with its registration. -/
theorem Registered.confined (h : Registered s) (hid : id ∈ s.sessions.ids)
    (hst : Confined id s t) : Registered t := by
  rcases hst.table with ⟨hsessions, hwatched⟩ | ⟨hsessions, hwatched⟩
  · exact h.of_same hsessions hwatched hst.listens
  · have hregistrations := registrations_remove hsessions hst.listens
    refine ⟨?_, ?_⟩
    · rw [hwatched, hregistrations,
        h.watched_filter (h.inRange _ (mem_registrations_client.mpr hid))]
    · rw [hregistrations]
      exact fun r hr => h.inRange r (List.mem_of_mem_filter hr)

theorem Registered.dropClient (h : Registered s) (id : ClientId) :
    Registered (s.dropClient id) := by
  cases hs : s.sessions.get? id with
  | none => rwa [dropClient_of_none hs]
  | some session =>
      exact h.confined (Sessions.mem_ids_iff.mpr ⟨session, hs⟩) (confined_dropClient s id)

theorem Registered.reply (h : Registered s) (id : ClientId) (m : Message) :
    Registered (s.reply id m) := by
  cases hs : s.sessions.get? id with
  | none => rwa [reply_of_none hs]
  | some session =>
      exact h.confined (Sessions.mem_ids_iff.mpr ⟨session, hs⟩) (confined_reply s id m)

/-- A session begins together with its registration. -/
theorem Registered.inserted (h : Registered s) {session : Session}
    (hrange : s.sessions.next.number.toNat < 2 ^ 64 - 16)
    (hsessions : t.sessions = (s.sessions.insert session).2)
    (hwatched : t.watched = s.watched ++ [(Receiver.client s.sessions.next).token])
    (hlistens : t.net.listens = s.net.listens) : Registered t := by
  have hregistrations : t.registrations = s.registrations ++ [.client s.sessions.next] := by
    rw [registrations, hsessions, Sessions.ids_insert, hlistens, registrations]
    simp
  constructor
  · rw [hwatched, hregistrations, List.map_append, ← h.watched]
    rfl
  · rw [hregistrations]
    intro r hr
    rcases List.mem_append.mp hr with hold | hlast
    · exact h.inRange r hold
    · rw [List.mem_singleton.mp hlast]
      exact Receiver.inRange_client hrange

/-- Nobody is registered for a connection that gets no session, nor for one whose session ends as
it begins. -/
theorem Registered.accept (h : Registered s)
    (hnext : ∀ k, s.net.waiting.head? = some k → (s.net.originOf k).isNumbered = true →
      s.sessions.next.number.toNat < 2 ^ 64 - 16) :
    Registered s.accept := by
  have haccepts := s.accepts
  generalize s.accept = t at haccepts
  cases haccepts with
  | nobody _ => exact h
  | failed k ks errno _ _ => exact h.of_ids rfl rfl rfl
  | turnedAway k ks report _ _ _ => exact h.of_ids rfl rfl rfl
  | seatedBriefly k ks errno _ _ _ => exact h.of_ids (ids_seatBriefly _ _ _ _) rfl rfl
  | seated k ks hwaiting hlast hadmission =>
      refine h.inserted (hnext k (by rw [hwaiting]; rfl) ?_) rfl rfl rfl
      simp [Origin.isNumbered, hlast, hadmission]

theorem Registered.stopListening (h : Registered s) : Registered s.stopListening := by
  have hregistrations : s.stopListening.registrations =
      s.registrations.filter (· ≠ .listener) := by
    have hkept : (s.sessions.ids.map Receiver.client).filter (· ≠ .listener) =
        s.sessions.ids.map Receiver.client := by
      rw [List.filter_eq_self]
      intro r hr
      obtain ⟨id, -, rfl⟩ := List.mem_map.mp hr
      rfl
    have hfront : (if s.net.listens then [Receiver.listener] else []).filter (· ≠ .listener) =
        [] := by
      split <;> rfl
    unfold registrations
    rw [List.filter_append, hfront, List.filter_cons_of_pos (by decide),
      List.filter_cons_of_pos (by decide), hkept]
    rfl
  constructor
  · rw [hregistrations, ← h.watched_filter (Receiver.inRange_standing List.mem_cons_self)]
    rfl
  · rw [hregistrations]
    exact fun r hr => h.inRange r (List.mem_of_mem_filter hr)

theorem Registered.drain (h : Registered s) (why : Stop) : Registered (s.drain why) := by
  have hbegan := (h.sameClients (sameClients_log s
    (.exiting s.sessions.length s.requests.length))).stopListening
  have hreturned := hbegan.sameClients (releaseAll_returned _).2
  have hdropped : ∀ (ids : List ClientId) (u : Server), Registered u →
      Registered (ids.foldl Server.dropClient u) := by
    intro ids
    induction ids with
    | nil => exact fun u hu => hu
    | cons id ids ih => exact fun u hu => ih _ (hu.dropClient id)
  unfold Server.drain
  dsimp only
  refine Registered.sameClients ?_ (sameClients_log _ _)
  split
  · exact ((hdropped _ _ hreturned).reply _ _).dropClient _
  · exact hdropped _ _ hreturned

theorem Registered.begins (h : Registered s) (hbegins : Begins s e t job)
    (hnext : Receiver.ofToken? e.token = some .listener → ∀ k, s.net.waiting.head? = some k →
      (s.net.originOf k).isNumbered = true → s.sessions.next.number.toNat < 2 ^ 64 - 16) :
    Registered t := by
  cases hbegins with
  | accepted htoken => exact h.accept (hnext htoken)
  | signalled _ =>
      obtain ⟨-, hsessions, hwatched, hnet, -⟩ := s.takeSignals_cases
      exact h.of_same hsessions hwatched (by rw [hnet])
  | timed _ =>
      obtain ⟨-, hsessions, hwatched, hnet, -⟩ := s.takeExpiry_cases
      exact h.of_same hsessions hwatched (by rw [hnet])
  | @heard id session r hs _ =>
      exact h.confined (Sessions.mem_ids_iff.mpr ⟨session, hs⟩)
        ((confined_afterReading hs r).trans (hearing _ id session.peer r).confined)
  | @left id session report _ _ hs _ _ =>
      exact h.confined (Sessions.mem_ids_iff.mpr ⟨session, hs⟩) (confined_afterLeaving hs report)
  | nothing _ _ => exact h
  | stray _ => exact h.sameClients (sameClients_log s _)

end Registered

end Server

namespace Loop

open Server

variable {l m : Loop} {a : Action} {chips : Chips} {period : Nat}

section Registered

theorem registered_start (chips : Chips) (period : Nat) :
    Registered (start chips period).server where
  watched := rfl
  inRange := fun _ hr => Receiver.inRange_standing hr

/-- Whatever the server does, it watches what it should, if identifiers do not run out. -/
theorem Registered.step (h : Registered l.server) (hl : Coherent l)
    (hnext : ∀ p, l.draws? = some p → p.1.number.toNat < 2 ^ 64 - 16) :
    Registered l.step.server := by
  obtain ⟨hm, -⟩ | ⟨job, -, hjob, -, hm⟩ | ⟨-, -, -, hm⟩ | ⟨e, es, -, -, -, -, hm⟩ |
      ⟨e, es, hend, hjob, hphase, hstop, hbegins, -⟩ | ⟨why, -, -, -, -, hm⟩ |
      ⟨s, -, -, -, -, hupdate, hm⟩ | ⟨e, -, -, -, -, -, hm⟩ := l.steps
  · rwa [hm]
  · rw [hm]
    exact h.confined (hl.asker job hjob) (confined_finish l.server job)
  · rw [hm]
    exact h
  · rw [hm]
    exact h
  · refine h.begins hbegins fun htoken k hk hnumbered => ?_
    have haccepts := accepts?_of_token hend hjob hstop hphase htoken
    exact hnext _ (draws?_of_numbered (haccepts.trans hk) hnumbered)
  · rw [hm]
    exact h.drain why
  · rw [hm]
    exact h.sameClients (sameClients_updateIdle hupdate)
  · rw [hm]
    exact h.stopListening

end Registered

section Reports

theorem ready_refresh_subset (l : Loop) : l.refresh.ready ⊆ l.server.watched := by
  unfold refresh
  refine List.append_subset.mpr ⟨fun t ht => ?_, List.filter_subset_self ..⟩
  simpa using (List.mem_filter.mp ht).2

theorem ready_wait_subset (l : Loop) : l.wait.ready ⊆ l.ready := by
  intro t ht
  rcases List.mem_append.mp ht with hrest | hfound
  · exact report_snd _ _ _ hrest
  · exact (report_fst _ _ _ hfound).1

/-- Only what is watched is listed. -/
theorem ready_step_subset (h : l.ready ⊆ l.server.watched) :
    l.step.ready ⊆ l.step.server.watched := by
  have hserver : ∀ (m : Loop) (s : Server), (m.withServer s).ready ⊆ s.watched :=
    fun m s => ready_refresh_subset { m with server := s }
  obtain ⟨hm, -⟩ | ⟨job, -, hjob, -, hm⟩ | ⟨-, -, -, hm⟩ | ⟨e, es, -, -, -, -, hm⟩ |
      ⟨e, es, -, -, -, -, -, hm⟩ | ⟨why, -, -, -, -, hm⟩ | ⟨s, -, -, -, -, -, hm⟩ |
      ⟨e, -, -, -, -, -, hm⟩ := l.steps
  · rwa [hm]
  · rw [hm]
    exact hserver _ _
  · rw [hm]
    exact List.Subset.trans (ready_wait_subset l) h
  · rw [hm]
    exact h
  · rw [hm]
    exact hserver _ _
  · rw [hm]
    exact List.nil_subset _
  · rw [hm]
    exact hserver _ _
  · rw [hm]
    exact List.nil_subset _

theorem ready_act_subset (ha : a ≠ .serve) (h : l.ready ⊆ l.server.watched) :
    (l.act a).ready ⊆ (l.act a).server.watched := by
  cases a with
  | serve => exact absurd rfl ha
  | replug chips => exact h
  | gate closed => exact h
  | reorder ready =>
      simp only [act]
      split
      · next hperm => exact List.Subset.trans (List.isPerm_iff.mp hperm).subset h
      · exact h
  | _ => exact ready_refresh_subset _

theorem Played.ready_subset (h : Played chips period l) : l.ready ⊆ l.server.watched := by
  refine h.induction (P := fun m => m.ready ⊆ m.server.watched) (List.nil_subset _) ?_
  intro m a _ hm
  by_cases ha : a = .serve
  · rw [ha]
    exact ready_step_subset hm
  · exact ready_act_subset ha hm

/-- A loop that is about to ask which receivers are ready. -/
structure Asks (l : Loop) : Prop where
  ending : l.ending = none
  job : l.job = none
  phase : l.phase = .waiting

theorem Asks.step_eq (h : l.Asks) : l.step = l.wait := by
  simp only [Loop.step, h.ending, h.job, h.phase, Option.isSome_none, Bool.false_eq_true, if_false]

/-- Events come from nowhere but a wait. -/
theorem pending_step (l : Loop) : l.step.pending ⊆ l.pending ∨ l.Asks := by
  obtain ⟨hm, -⟩ | ⟨job, -, hjob, -, hm⟩ | ⟨hend, hjob, hphase, hm⟩ | ⟨e, es, -, -, -, -, hm⟩ |
      ⟨e, es, -, -, hphase, -, -, hm⟩ | ⟨why, -, -, -, -, hm⟩ | ⟨s, -, -, -, -, -, hm⟩ |
      ⟨e, -, -, -, -, -, hm⟩ := l.steps
  · rw [hm]
    exact .inl (List.Subset.refl _)
  · rw [hm]
    exact .inl (List.Subset.refl _)
  · exact .inr ⟨hend, hjob, hphase⟩
  · rw [hm]
    exact .inl (List.nil_subset _)
  · rw [hm]
    left
    show es ⊆ l.pending
    simp only [pending, hphase]
    exact List.subset_cons_self e es
  · rw [hm]
    exact .inl (List.nil_subset _)
  · rw [hm]
    exact .inl (List.nil_subset _)
  · rw [hm]
    exact .inl (List.nil_subset _)

/-- A wait reports listed receivers only. -/
theorem Asks.listed (h : l.Asks) {e : Readiness} (he : e ∈ l.step.pending) :
    e.token ∈ l.ready := by
  rw [h.step_eq, pending_wait] at he
  obtain ⟨t, ht, rfl⟩ := List.mem_map.mp he
  exact (report_fst _ _ _ ht).1

end Reports

end Loop

namespace Chronicle

open Server
open Loop (Coherent Asks pending)

variable {w : Chronicle} {a : Action} {as bs cs : List Action} {chips : Chips} {period : Nat}
  {id : ClientId} {session : Session} {e : Readiness}

section Enrolled

/-- Identifiers were drawn one after another, and who has a session drew its own. -/
structure Enrolled (w : Chronicle) : Prop where
  drawn : w.clients = (List.range w.seats.length).map ClientId.first.nextBy
  next : w.loop.ending = none →
    w.loop.server.sessions.next = ClientId.first.nextBy w.seats.length
  live : w.loop.server.sessions.ids.Sublist w.clients
  registered : Registered w.loop.server

theorem enrolled_start (chips : Chips) (period : Nat) : Enrolled (start chips period) where
  drawn := rfl
  next := fun _ => rfl
  live := List.Sublist.refl _
  registered := Loop.registered_start chips period

theorem Enrolled.increasing (h : Enrolled w) (hbound : w.seats.length ≤ 2 ^ 64) :
    w.clients.Pairwise (·.number < ·.number) :=
  h.drawn ▸ ClientId.pairwise_nextBy hbound

/-- So no two sessions have one identifier. -/
theorem Enrolled.nodup (h : Enrolled w) (hbound : w.seats.length ≤ 2 ^ 64) :
    w.loop.server.sessions.ids.Nodup :=
  ((h.increasing hbound).sublist h.live).imp fun hlt => by
    rintro rfl
    exact UInt64.lt_irrefl _ hlt

theorem Enrolled.below (h : Enrolled w) (hbound : w.seats.length ≤ 2 ^ 64)
    (hid : id ∈ w.clients) : id.number.toNat < w.seats.length := by
  rw [h.drawn] at hid
  obtain ⟨n, hn, rfl⟩ := List.mem_map.mp hid
  rw [List.mem_range] at hn
  rwa [ClientId.toNat_first_nextBy (Nat.lt_of_lt_of_le hn hbound)]

theorem seats_grow_note (w : Chronicle) (a : Action) : w.seats <+: (w.note a).seats := by
  by_cases ha : a = .serve
  · subst ha
    exact List.prefix_append _ _
  · exact ⟨[], (List.append_nil _).trans (seats_note_of_ne w ha).symm⟩

/-- A step that hands out no identifier. -/
theorem Enrolled.undrawn (h : Enrolled w) (hdraws : w.loop.draws? = none)
    (hentries : w.loop.step.server.sessions.entries.Sublist w.loop.server.sessions.entries)
    (hnext : w.loop.step.ending = none → w.loop.ending = none ∧
      w.loop.step.server.sessions.next = w.loop.server.sessions.next)
    (hregistered : Registered w.loop.step.server) : Enrolled (w.note .serve) := by
  have hseats := seats_note_of_none hdraws
  have hclients := clients_note_of_none hdraws
  refine ⟨?_, fun hend => ?_, ?_, hregistered⟩
  · rw [hclients, hseats, h.drawn]
  · obtain ⟨hend', hsame⟩ := hnext hend
    rw [hseats, ← h.next hend']
    exact hsame
  · rw [hclients]
    exact (hentries.map Prod.fst).trans h.live

/-- A step that hands out the next identifier, with a session that lasts or not. -/
theorem Enrolled.drawn_next (h : Enrolled w) {k : Nat} (hend : w.loop.ending = none)
    (hdraws : w.loop.draws? = some (w.loop.server.sessions.next, k))
    (hnext : w.loop.step.server.sessions.next = w.loop.server.sessions.next.next)
    (hids : w.loop.step.server.sessions.ids.Sublist
      (w.loop.server.sessions.ids ++ [w.loop.server.sessions.next]))
    (hregistered : Registered w.loop.step.server) : Enrolled (w.note .serve) := by
  have hclients := clients_note_of_some hdraws
  have hlength := length_note_of_some hdraws
  refine ⟨?_, fun _ => ?_, ?_, hregistered⟩
  · rw [hclients, hlength, List.range_succ, List.map_append, h.drawn, h.next hend]
    rfl
  · show w.loop.step.server.sessions.next = _
    rw [hnext, hlength, ← ClientId.next_nextBy, ← h.next hend]
  · rw [hclients]
    exact hids.trans (h.live.append (List.Sublist.refl _))

theorem Enrolled.note_serve (h : Enrolled w) (hl : Coherent w.loop)
    (hbound : (w.note .serve).seats.length < 2 ^ 64 - 16) : Enrolled (w.note .serve) := by
  have hseating := Loop.seating_step hl
  have hregistered : Registered w.loop.step.server := by
    refine Loop.Registered.step h.registered hl fun p hp => ?_
    obtain ⟨haccepts, hfirst, -⟩ := Loop.eq_of_draws? hp
    rw [length_note_of_some hp] at hbound
    rw [hfirst, h.next (Loop.eq_of_accepts? haccepts).1, ClientId.toNat_first_nextBy (by omega)]
    omega
  generalize hdraws : w.loop.draws? = p at hseating
  cases hseating with
  | kept hentries hnext => exact h.undrawn hdraws hentries hnext hregistered
  | retried k haccepts hsessions _ =>
      have hend := (Loop.eq_of_accepts? haccepts).1
      exact h.undrawn hdraws (by rw [hsessions]) (fun _ => ⟨hend, by rw [hsessions]⟩) hregistered
  | seated session hend _ hsessions =>
      refine h.drawn_next hend hdraws (by rw [hsessions]; rfl) ?_ hregistered
      rw [hsessions, Sessions.ids_insert]
  | passed k hend _ hsessions =>
      refine h.drawn_next hend hdraws (by rw [hsessions]) ?_ hregistered
      rw [hsessions]
      exact List.sublist_append_left _ _

theorem Enrolled.note_of_ne (h : Enrolled w) (ha : a ≠ .serve) : Enrolled (w.note a) := by
  have haround := Loop.around_act w.loop ha
  have hseats := seats_note_of_ne w ha
  have hclients : (w.note a).clients = w.clients := by rw [clients, hseats, clients]
  refine ⟨by rw [hclients, hseats, h.drawn], fun hend => ?_, ?_, ?_⟩
  · show (w.loop.act a).server.sessions.next = _
    rw [haround.sessions, hseats]
    exact h.next (haround.ending ▸ hend)
  · show (w.loop.act a).server.sessions.ids.Sublist _
    rw [haround.sessions, hclients]
    exact h.live
  · refine h.registered.of_same haround.sessions haround.watched ?_
    show (w.loop.act a).server.net.listens = _
    rw [Loop.net_act w.loop ha, Loop.listens_after]

theorem enrolled_chronicle (hbound : (chronicle chips period as).seats.length < 2 ^ 64 - 16) :
    Enrolled (chronicle chips period as) := by
  induction as using List.reverseRecOn with
  | nil => exact enrolled_start chips period
  | append_singleton as a ih =>
      have hl := coherent_chronicle chips period as
      rw [chronicle_concat] at hbound ⊢
      have h := ih (Nat.lt_of_le_of_lt (seats_grow_note _ a).length_le hbound)
      by_cases ha : a = .serve
      · subst ha
        exact h.note_serve hl hbound
      · exact h.note_of_ne ha

theorem seats_grow (chips : Chips) (period : Nat) (as bs : List Action) :
    (chronicle chips period as).seats <+: (chronicle chips period (as ++ bs)).seats := by
  induction bs using List.reverseRecOn with
  | nil => exact ⟨[], by rw [List.append_nil, List.append_nil]⟩
  | append_singleton bs b ih =>
      rw [← List.append_assoc, chronicle_concat]
      exact ih.trans (seats_grow_note _ b)

/-- No client comes back: a session that is found was there before, if its client was. -/
theorem Enrolled.get?_note (h : Enrolled w) (hl : Coherent w.loop)
    (hbound : w.seats.length < 2 ^ 64) (hid : id ∈ w.clients)
    (hs : (w.note a).loop.server.sessions.get? id = some session) :
    w.loop.server.sessions.get? id = some session := by
  by_cases ha : a = .serve
  · subst ha
    have hnodup := h.nodup (Nat.le_of_lt hbound)
    have hseating := Loop.seating_step hl
    generalize w.loop.draws? = p at hseating
    cases hseating with
    | kept hentries =>
        exact Sessions.get?_of_mem hnodup (hentries.subset (Sessions.mem_of_get? hs))
    | retried _ _ hsessions _ => exact hsessions ▸ hs
    | passed _ _ _ hsessions _ _ =>
        have hs' : Sessions.get? { w.loop.server.sessions with
            next := w.loop.server.sessions.next.next } id = some session := hsessions ▸ hs
        exact hs'
    | seated new hend _ hsessions =>
        have hs' : (w.loop.server.sessions.insert new).2.get? id = some session :=
          hsessions ▸ hs
        rwa [Sessions.get?_insert_of_ne] at hs'
        rintro rfl
        have hbelow := h.below (Nat.le_of_lt hbound) hid
        rw [h.next hend, ClientId.toNat_first_nextBy hbound] at hbelow
        exact Nat.lt_irrefl _ hbelow
  · have hsame : (w.note a).loop.server.sessions = w.loop.server.sessions :=
      (Loop.around_act w.loop ha).sessions
    rwa [hsame] at hs

theorem get?_later
    (hbound : (chronicle chips period (as ++ bs)).seats.length < 2 ^ 64 - 16)
    (hid : id ∈ (chronicle chips period as).clients)
    (hs : (chronicle chips period (as ++ bs)).loop.server.sessions.get? id = some session) :
    (chronicle chips period as).loop.server.sessions.get? id = some session := by
  induction bs using List.reverseRecOn with
  | nil => rwa [List.append_nil] at hs
  | append_singleton bs b ih =>
      rw [← List.append_assoc, chronicle_concat] at hbound hs
      have hbound' := Nat.lt_of_le_of_lt (seats_grow_note _ b).length_le hbound
      have hid' : id ∈ (chronicle chips period (as ++ bs)).clients :=
        ((seats_grow chips period as bs).map Prod.fst).subset hid
      exact ih hbound' ((enrolled_chronicle hbound').get?_note
        (coherent_chronicle chips period (as ++ bs)) (by omega) hid' hs)

end Enrolled

section Tokens

/-- All receivers that there were. -/
def receivers (w : Chronicle) : List Receiver :=
  Receiver.standing ++ w.clients.map .client

/-- What tokens and identifiers stand for, after a run. -/
structure Distinguished (w : Chronicle) : Prop where
  watched : w.loop.server.watched = w.loop.server.registrations.map Receiver.token
  drawn : w.clients.Pairwise (·.number < ·.number)
  live : w.loop.server.sessions.ids.Sublist w.clients
  ascending : w.loop.server.sessions.ids.Pairwise (·.number < ·.number)
  present : ∀ id, id ∈ w.loop.server.sessions.ids ↔
    ∃ session, w.loop.server.sessions.get? id = some session
  inverse : ∀ r ∈ w.receivers, ∀ t, Receiver.ofToken? t = some r ↔ t = r.token
  unassigned : ∀ t, Receiver.ofToken? t = none ↔ 3 ≤ t.toNat ∧ t.toNat < 16

/-- An event that `l` reported as it asked, and what it leads to in `m`: the receiver that it was
registered for and, if this is a client, the session that the client had then. -/
structure Dispatched (l m : Loop) (e : Readiness) (r : Receiver) : Prop where
  asks : l.Asks
  reported : e ∈ l.step.pending
  registered : r ∈ l.server.registrations
  token : e.token = r.token
  leads : Receiver.ofToken? e.token = some r
  session : ∀ id, r = .client id →
    m.server.sessions.get? id = l.server.sessions.get? id ∨
      m.server.sessions.get? id = none ∧ m.server.begin e = (m.server, none)

theorem Enrolled.inRange (h : Enrolled w) (hbound : w.seats.length < 2 ^ 64 - 16)
    {r : Receiver} (hr : r ∈ w.receivers) : r.InRange := by
  rcases List.mem_append.mp hr with hstanding | hclient
  · exact Receiver.inRange_standing hstanding
  · obtain ⟨id, hid, rfl⟩ := List.mem_map.mp hclient
    exact Receiver.inRange_client (Nat.lt_trans (h.below (by omega) hid) hbound)

theorem Enrolled.distinguished (h : Enrolled w) (hbound : w.seats.length < 2 ^ 64 - 16) :
    Distinguished w where
  watched := h.registered.watched
  drawn := h.increasing (by omega)
  live := h.live
  ascending := (h.increasing (by omega)).sublist h.live
  present := fun _ => Sessions.mem_ids_iff
  inverse := fun _ hr _ => Receiver.ofToken?_eq_some_iff (h.inRange hbound hr)
  unassigned := fun _ => Receiver.ofToken?_eq_none_iff

/-- Every event that is not handled yet was reported by some wait of the run. -/
theorem exists_asks (he : e ∈ (chronicle chips period as).loop.pending) :
    ∃ bs cs, as = bs ++ .serve :: cs ∧ (chronicle chips period bs).loop.Asks ∧
      e ∈ (chronicle chips period bs).loop.step.pending := by
  induction as using List.reverseRecOn with
  | nil => cases he
  | append_singleton as a ih =>
      have hearlier : e ∈ (chronicle chips period as).loop.pending →
          ∃ bs cs, as ++ [a] = bs ++ .serve :: cs ∧ (chronicle chips period bs).loop.Asks ∧
            e ∈ (chronicle chips period bs).loop.step.pending := by
        intro hmem
        obtain ⟨bs, cs, rfl, hasks, hreported⟩ := ih hmem
        exact ⟨bs, cs ++ [a], by rw [List.append_assoc, List.cons_append], hasks, hreported⟩
      rw [chronicle_concat] at he
      by_cases ha : a = .serve
      · subst ha
        rcases Loop.pending_step (chronicle chips period as).loop with hsub | hasks
        · exact hearlier (hsub he)
        · exact ⟨as, [], rfl, hasks, he⟩
      · have hphase := (Loop.around_act (chronicle chips period as).loop ha).phase
        refine hearlier ?_
        rw [pending, ← hphase]
        exact he

theorem begin_of_gone {s : Server} (htoken : Receiver.ofToken? e.token = some (.client id))
    (hs : s.sessions.get? id = none) : s.begin e = (s, none) := by
  simp only [begin, htoken, receive, hs]

/-- Whatever happens between a report and its handling, the event leads to the receiver that it
was registered for, and to no session that was not there yet. -/
theorem dispatched_of_asks
    (hbound : (chronicle chips period (bs ++ cs)).seats.length < 2 ^ 64 - 16)
    (hasks : (chronicle chips period bs).loop.Asks)
    (he : e ∈ (chronicle chips period bs).loop.step.pending) :
    ∃ r, Dispatched (chronicle chips period bs).loop (chronicle chips period (bs ++ cs)).loop
      e r := by
  have hbound' :=
    Nat.lt_of_le_of_lt (seats_grow chips period bs cs).length_le hbound
  have h := enrolled_chronicle hbound'
  have hplayed : Loop.Played chips period (chronicle chips period bs).loop :=
    ⟨bs, loop_chronicle chips period bs⟩
  have hwatched := hplayed.ready_subset (hasks.listed he)
  rw [h.registered.watched] at hwatched
  obtain ⟨r, hr, htoken⟩ := List.mem_map.mp hwatched
  have hleads : Receiver.ofToken? e.token = some r :=
    (Receiver.ofToken?_eq_some_iff (h.registered.inRange r hr)).mpr htoken.symm
  refine ⟨r, hasks, he, hr, htoken.symm, hleads, ?_⟩
  rintro id rfl
  have hid : id ∈ (chronicle chips period bs).clients :=
    h.live.subset (mem_registrations_client.mp hr)
  cases hs : (chronicle chips period (bs ++ cs)).loop.server.sessions.get? id with
  | none => exact .inr ⟨rfl, begin_of_gone hleads hs⟩
  | some session => exact .inl (get?_later hbound hid hs).symm

/-- In a run that hands out fewer than `2 ^ 64 - 16` identifiers, with sessions that last or not,
the server watches exactly its own receivers and the clients with a session, identifiers only
increase, tokens and receivers lead to each other, and every event that is not handled yet leads to
what it was registered for. -/
theorem distinguished_chronicle
    (hbound : (chronicle chips period as).seats.length < 2 ^ 64 - 16) :
    Distinguished (chronicle chips period as) ∧
      ∀ e ∈ (chronicle chips period as).loop.pending, ∃ bs cs r, as = bs ++ .serve :: cs ∧
        Dispatched (chronicle chips period bs).loop (chronicle chips period as).loop e r := by
  refine ⟨(enrolled_chronicle hbound).distinguished hbound, fun e he => ?_⟩
  obtain ⟨bs, cs, rfl, hasks, hreported⟩ := exists_asks he
  obtain ⟨r, hr⟩ := dispatched_of_asks hbound hasks hreported
  exact ⟨bs, cs, r, rfl, hr⟩

/-- A client that the server cannot watch: there is no space for another watch. -/
def unwatched : Origin :=
  { Origin.usual ⟨0, 0, ""⟩ with admission := .unregistered 28 }

/-- Three clients connect, and the second one cannot be watched.  The first one leaves, a fourth one
connects and the third one sends a byte. -/
def relieved : List Action :=
  [.serve, .connect (.usual ⟨0, 0, ""⟩), .connect unwatched, .connect (.usual ⟨0, 0, ""⟩)] ++
    List.replicate 8 .serve ++ [.close 0, .serve, .serve, .serve,
      .connect (.usual ⟨0, 0, ""⟩), .send 2 [0], .serve, .serve, .serve]

/-- The identifier of the second client is used up.  The event of the third one was reported before
the fourth one was accepted, and is still about the third. -/
theorem relieved_distinguished :
    (chronicle Chips.none 0 relieved).clients = [⟨0⟩, ⟨1⟩, ⟨2⟩, ⟨3⟩] ∧
      (chronicle Chips.none 0 relieved).loop.server.sessions.ids = [⟨2⟩, ⟨3⟩] ∧
      (chronicle Chips.none 0 relieved).loop.server.watched = [0, 1, 2, 18, 19] ∧
      Distinguished (chronicle Chips.none 0 relieved) ∧
      ∃ bs cs r, relieved = bs ++ .serve :: cs ∧ Dispatched (chronicle Chips.none 0 bs).loop
        (chronicle Chips.none 0 relieved).loop ⟨18, false⟩ r := by
  have hbound : (chronicle Chips.none 0 relieved).seats.length < 2 ^ 64 - 16 := by
    decide +kernel
  have hpending : ⟨18, false⟩ ∈ (chronicle Chips.none 0 relieved).loop.pending := by
    decide +kernel
  obtain ⟨hdistinguished, hdispatched⟩ := distinguished_chronicle hbound
  refine ⟨?_, ?_, ?_, hdistinguished, hdispatched _ hpending⟩ <;> decide +kernel

end Tokens

end Chronicle

end LineKeeper
