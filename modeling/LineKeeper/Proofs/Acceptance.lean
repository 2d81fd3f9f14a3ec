import LineKeeper.Server
import LineKeeper.Proofs.Connections
import LineKeeper.Proofs.SessionTable

/-!
# How a connection is accepted

The event of the listening socket makes the server accept the connection that has waited
longest.  `Accepts` lists what can come of that:

* nobody waits any more;
* the attempt fails, and the connection waits on;
* the connection is closed without a session;
* a session begins and ends at once, because its client cannot be watched;
* a session begins.

Whatever comes of it, only the sessions, the connections and the trace change, and the trace
only grows.  The fourth outcome uses up an identifier as the fifth does.
-/

namespace LineKeeper

namespace Server

variable {s t : Server}

section Accepting

/-- Of a session that ends at once only its identifier is left, which is not handed out again. -/
theorem sessions_seatBriefly (s : Server) (session : Session) (ks : List Nat) (errno : Errno) :
    (s.seatBriefly session ks errno).sessions =
      { s.sessions with next := s.sessions.next.next } :=
  s.sessions.withdraw_insert session

theorem entries_seatBriefly (s : Server) (session : Session) (ks : List Nat) (errno : Errno) :
    (s.seatBriefly session ks errno).sessions.entries = s.sessions.entries := by
  rw [sessions_seatBriefly]

/-- What accepting a connection can come to. -/
inductive Accepts (s : Server) : Server → Prop
  | nobody (hwaiting : s.net.waiting = []) : Accepts s s
  | failed (k : Nat) (ks : List Nat) (errno : Errno) (hwaiting : s.net.waiting = k :: ks)
      (hfails : (s.net.originOf k).failures.head? = some errno) :
      Accepts s { s.log (.acceptFailed errno) with net := s.net.modify k Link.retried }
  | turnedAway (k : Nat) (ks : List Nat) (report : LogEvent) (hwaiting : s.net.waiting = k :: ks)
      (hlast : (s.net.originOf k).failures = [])
      (hreport : (∃ cause, report = .unidentified cause ∧
          (s.net.originOf k).admission = .unidentified cause) ∨
        ∃ errno, report = .unconfigured errno ∧
          (s.net.originOf k).admission = .unconfigured errno) :
      Accepts s (s.turnAway k ks report)
  | seatedBriefly (k : Nat) (ks : List Nat) (errno : Errno) (hwaiting : s.net.waiting = k :: ks)
      (hlast : (s.net.originOf k).failures = [])
      (hadmission : (s.net.originOf k).admission = .unregistered errno) :
      Accepts s (s.seatBriefly ⟨k, (s.net.originOf k).peer⟩ ks errno)
  | seated (k : Nat) (ks : List Nat) (hwaiting : s.net.waiting = k :: ks)
      (hlast : (s.net.originOf k).failures = [])
      (hadmission : (s.net.originOf k).admission = .admitted) :
      Accepts s (s.seat ⟨k, (s.net.originOf k).peer⟩ ks)

theorem accepts (s : Server) : Accepts s s.accept := by
  unfold accept
  split
  · next hwaiting => exact .nobody hwaiting
  · next k ks hwaiting =>
    dsimp only
    split
    · next errno _ hfailures =>
      exact .failed k ks errno hwaiting (congrArg List.head? hfailures)
    · next cause hlast hadmission =>
      exact .turnedAway k ks _ hwaiting hlast (.inl ⟨cause, rfl, hadmission⟩)
    · next errno hlast hadmission =>
      exact .turnedAway k ks _ hwaiting hlast (.inr ⟨errno, rfl, hadmission⟩)
    · next errno hlast hadmission => exact .seatedBriefly k ks errno hwaiting hlast hadmission
    · next hlast hadmission => exact .seated k ks hwaiting hlast hadmission

end Accepting

section Unchanged

/-- What accepting leaves as it is, whatever comes of it. -/
structure Reception (s t : Server) : Prop where
  requests : t.requests = s.requests
  device : t.device = s.device
  idle : t.idle = s.idle
  now : t.now = s.now
  signals : t.signals = s.signals
  stop : t.stop = s.stop
  listens : t.net.listens = s.net.listens
  length : t.net.links.length = s.net.links.length

theorem Accepts.reception (h : Accepts s t) : Reception s t := by
  cases h with
  | nobody _ => exact ⟨rfl, rfl, rfl, rfl, rfl, rfl, rfl, rfl⟩
  | failed k ks errno _ _ =>
      exact ⟨rfl, rfl, rfl, rfl, rfl, rfl, rfl, Net.length_modify _ _ _⟩
  | turnedAway k ks report _ _ _ =>
      exact ⟨rfl, rfl, rfl, rfl, rfl, rfl, rfl, Net.length_modify _ _ _⟩
  | seatedBriefly k ks errno _ _ _ =>
      exact ⟨rfl, rfl, rfl, rfl, rfl, rfl, rfl, Net.length_modify _ _ _⟩
  | seated k ks _ _ _ => exact ⟨rfl, rfl, rfl, rfl, rfl, rfl, rfl, rfl⟩

theorem reception (s : Server) : Reception s s.accept :=
  s.accepts.reception

/-- What accepting a connection can show. -/
inductive Shows : Effect → Prop
  | accepted : Shows (.log .accepted)
  | failed (errno : Errno) : Shows (.log (.acceptFailed errno))
  | unidentified (cause : Failure) : Shows (.log (.unidentified cause))
  | unconfigured (errno : Errno) : Shows (.log (.unconfigured errno))
  | unregistered (errno : Errno) (id : ClientId) : Shows (.log (.unregistered errno id))
  | closed (id : ClientId) : Shows (.closed id)

theorem Accepts.shows (h : Accepts s t) :
    ∃ effects, t.trace = s.trace ++ effects ∧ ∀ e ∈ effects, Shows e := by
  cases h with
  | nobody _ => exact ⟨[], (List.append_nil _).symm, by rintro e ⟨⟩⟩
  | failed k ks errno _ _ =>
      exact ⟨[_], rfl, fun e he => List.mem_singleton.mp he ▸ .failed errno⟩
  | turnedAway k ks report _ _ hreport =>
      refine ⟨[_], rfl, fun e he => ?_⟩
      rw [List.mem_singleton.mp he]
      rcases hreport with ⟨cause, rfl, -⟩ | ⟨errno, rfl, -⟩
      · exact .unidentified cause
      · exact .unconfigured errno
  | seatedBriefly k ks errno _ _ _ =>
      refine ⟨[.log .accepted, .log (.unregistered errno s.sessions.next),
        .closed s.sessions.next], ?_, fun e he => ?_⟩
      · simp only [seatBriefly, record, log, List.append_assoc]
        rfl
      · simp only [List.mem_cons, List.not_mem_nil, or_false] at he
        rcases he with rfl | rfl | rfl
        · exact .accepted
        · exact .unregistered errno _
        · exact .closed _
  | seated k ks _ _ _ => exact ⟨[_], rfl, fun e he => List.mem_singleton.mp he ▸ .accepted⟩

theorem Accepts.trace (h : Accepts s t) : s.trace <+: t.trace := by
  obtain ⟨effects, htrace, -⟩ := h.shows
  exact htrace ▸ List.prefix_append _ _

/-- What is read off the trace is as before, if accepting shows nothing of it. -/
theorem Accepts.filterMap_trace {α : Type} (h : Accepts s t) {f : Effect → Option α}
    (hf : ∀ e, Shows e → f e = none) : t.trace.filterMap f = s.trace.filterMap f := by
  obtain ⟨effects, htrace, hshows⟩ := h.shows
  rw [htrace, List.filterMap_append,
    List.filterMap_eq_nil_iff.mpr fun e he => hf e (hshows e he), List.append_nil]

/-- Who waits behind the first one in line, or beside it, is not touched. -/
theorem Accepts.links_of_ne (h : Accepts s t) {j : Nat} (hj : s.net.waiting.head? ≠ some j) :
    t.net.links[j]? = s.net.links[j]? := by
  have hmodify : ∀ k ks (f : Link → Link), s.net.waiting = k :: ks →
      (s.net.modify k f).links[j]? = s.net.links[j]? := by
    intro k ks f hwaiting
    refine Net.links_modify_of_ne f ?_
    rintro rfl
    exact hj (by rw [hwaiting]; rfl)
  cases h with
  | nobody _ => rfl
  | failed k ks errno hwaiting _ => exact hmodify k ks _ hwaiting
  | turnedAway k ks report hwaiting _ _ => exact hmodify k ks _ hwaiting
  | seatedBriefly k ks errno hwaiting _ _ => exact hmodify k ks _ hwaiting
  | seated k ks _ _ _ => rfl

end Unchanged

section Sessions

/-- A connection keeps its place in line or leaves it for a session, or for good. -/
theorem Accepts.waiting (h : Accepts s t) : t.net.waiting <:+ s.net.waiting := by
  cases h with
  | nobody _ => exact List.suffix_refl _
  | failed k ks errno _ _ => exact List.suffix_refl _
  | turnedAway k ks report hwaiting _ _ => exact hwaiting ▸ List.suffix_cons k ks
  | seatedBriefly k ks errno hwaiting _ _ => exact hwaiting ▸ List.suffix_cons k ks
  | seated k ks hwaiting _ _ => exact hwaiting ▸ List.suffix_cons k ks

theorem Accepts.mem_waiting {j : Nat} (h : Accepts s t) (hj : j ∈ s.net.waiting)
    (hhead : s.net.waiting.head? ≠ some j) : j ∈ t.net.waiting := by
  have hbehind : ∀ k ks, s.net.waiting = k :: ks → j ∈ ks := by
    intro k ks hwaiting
    rw [hwaiting] at hj hhead
    exact (List.mem_cons.mp hj).resolve_left fun hjk => hhead (congrArg some hjk.symm)
  cases h with
  | nobody _ => exact hj
  | failed k ks errno _ _ => exact hj
  | turnedAway k ks report hwaiting _ _ => exact hbehind k ks hwaiting
  | seatedBriefly k ks errno hwaiting _ _ => exact hbehind k ks hwaiting
  | seated k ks hwaiting _ _ => exact hbehind k ks hwaiting

/-- The sessions that are there stay, in their order. -/
theorem Accepts.entries (h : Accepts s t) : s.sessions.entries <+: t.sessions.entries := by
  cases h with
  | seated k ks _ _ _ => exact List.prefix_append _ _
  | seatedBriefly k ks errno _ _ _ => exact s.entries_seatBriefly _ ks errno ▸ List.prefix_refl _
  | _ => exact List.prefix_refl _

theorem Accepts.get?_of_some {id : ClientId} {session : Session} (h : Accepts s t)
    (hs : s.sessions.get? id = some session) : t.sessions.get? id = some session := by
  cases h with
  | seated k ks _ _ _ => exact Sessions.get?_insert_of_some _ hs
  | seatedBriefly k ks errno _ _ _ =>
      rw [sessions_seatBriefly]
      exact hs
  | _ => exact hs

theorem Accepts.ids (h : Accepts s t) : s.sessions.ids ⊆ t.sessions.ids :=
  List.map_subset _ h.entries.subset

/-- The receivers that are watched stay watched. -/
theorem Accepts.watched (h : Accepts s t) : s.watched ⊆ t.watched := by
  cases h with
  | seated k ks _ _ _ => exact List.subset_append_left _ _
  | _ => exact List.Subset.refl _

theorem Accepts.useCount_le (h : Accepts s t) : s.useCount ≤ t.useCount := by
  rw [useCount, useCount, h.reception.requests]
  exact Nat.add_le_add_right h.entries.length_le _

end Sessions

end Server
end LineKeeper
