import LineKeeper.Proofs.Chronicle

/-!
# What a running server watches

A server that runs is `Attentive`.

* It watches its listening socket and every client that has a session.
* What it watches and is ready is listed, so a wait can report it.
* A token that is watched, listed or reported belongs to a client that got its identifier.
* A hang-up is reported only of a connection that is gone, and it stays gone.

The tokens of clients are numbers of 64 bits too, and the first 16 of them are not for
clients, so this holds of runs with at most `2 ^ 64 - 16` connections.
-/

namespace LineKeeper

namespace Receiver

variable {id other : ClientId}

section Tokens

/-- Two clients have two tokens. -/
theorem token_client_inj (h : (client id).token = (client other).token) : id = other := by
  cases id
  cases other
  simpa [token] using h

/-- No client among the first `2 ^ 64 - 16` has the token of another receiver. -/
theorem token_ne_client {r : Receiver} (hr : ofToken? r.token = some r) (hne : r ≠ client id)
    (h : id.number.toNat < 2 ^ 64 - 16) : r.token ≠ (client id).token := by
  intro htoken
  have hclient := ofToken?_token (r := client id) fun other hother => by
    cases hother
    exact h
  rw [← htoken, hr] at hclient
  exact hne (Option.some.inj hclient)

end Tokens

end Receiver

namespace Net

variable {net : Net} {a : Action} {i k : Nat} {l : Link}

section HungUp

theorem isHungUp_congr {net' : Net} (h : net'.links[k]? = net.links[k]?) (side : Side) :
    net'.isHungUp k side = net.isHungUp k side := by
  simp only [isHungUp, h]

theorem isHungUp_of_some (h : net.links[k]? = some l) (side : Side) :
    net.isHungUp k side = l.isHungUp side := by
  simp only [isHungUp, h]

theorem isHungUp_modify {f : Link → Link} {side : Side}
    (hf : ∀ l, (f l).isHungUp side = l.isHungUp side) :
    (net.modify i f).isHungUp k side = net.isHungUp k side := by
  by_cases hk : i = k
  · subst hk
    cases hl : net.links[i]? with
    | none =>
        refine isHungUp_congr ?_ side
        rw [links_modify, if_pos rfl, hl]
        rfl
    | some l =>
        rw [isHungUp_of_some (links_modify_self f hl), isHungUp_of_some hl, hf]
  · exact isHungUp_congr (links_modify_of_ne f (Ne.symm hk)) side

/-- A client that is gone does not come back. -/
theorem isHungUp_after (net : Net) (a : Action) (h : net.isHungUp k .server = true) :
    (net.after a).isHungUp k .server = true := by
  have hthere : ∃ l, net.links[k]? = some l := by
    cases hl : net.links[k]? with
    | none =>
        simp only [isHungUp, hl] at h
        cases h
    | some l => exact ⟨l, rfl⟩
  obtain ⟨l, hl⟩ := hthere
  have hlt : k < net.links.length := (List.getElem?_eq_some_iff.mp hl).1
  by_cases hlink : a.link? = some k
  · rw [isHungUp_of_some hl] at h
    rw [Loop.after_of_link? net hlink, isHungUp_of_some (links_modify_self _ hl)]
    cases a with
    | send link bytes =>
        simp only [Action.change]
        split <;> exact h
    | take link n =>
        simp only [Action.change, Link.take]
        repeat' split
        all_goals exact h
    | shutdown link => exact h
    | close link =>
        simp only [Action.change, Link.close]
        split <;> rfl
    | _ => cases hlink
  · rw [isHungUp_congr (Loop.links_after_of_ne net hlt hlink)]
    exact h

end HungUp

end Net

namespace Server

open Loop (linkOf?)

variable {s t u : Server} {id : ClientId} {session : Session} {k : Nat}

section HungUp

/-- What was found out about the connection of a client stays true, as long as it has a session. -/
def KeepsHungUp (id : ClientId) (s t : Server) : Prop :=
  ∀ k, linkOf? t id = some k → s.net.isHungUp k .server = true →
    t.net.isHungUp k .server = true

theorem keepsHungUp_of_gone (h : id ∉ t.sessions.ids) : KeepsHungUp id s t := by
  intro k hk
  rw [linkOf?_of_none (Sessions.get?_eq_none_iff.mpr h)] at hk
  cases hk

theorem keepsHungUp_reply (h : s.sessions.get? id = some session) (m : Message) :
    KeepsHungUp id s (s.reply id m) := by
  cases hw : s.writable id with
  | true =>
      rw [reply_of_writable h hw]
      intro k _ hgone
      rw [← hgone]
      exact Net.isHungUp_modify fun _ => rfl
  | false =>
      rw [reply_of_not_writable h hw]
      exact keepsHungUp_of_gone (not_mem_dropClient _ id)

/-- Reading takes no notice of a connection that is gone while there are bytes. -/
theorem isHungUp_netAfter {bytes : List UInt8}
    (h : (s.net.take session.link .server frameSize).1 = .data bytes) (k : Nat) :
    (s.netAfter session).isHungUp k .server = s.net.isHungUp k .server := by
  rw [netAfter_eq]
  cases hl : s.net.links[session.link]? with
  | none =>
      rw [Net.take_eq, hl] at h
      cases h
  | some l =>
      rw [Net.take_fst_of_some hl] at h
      by_cases hk : k = session.link
      · subst hk
        rw [Net.isHungUp_of_some (Net.links_modify_self _ hl), Net.isHungUp_of_some hl]
        unfold Link.take at h ⊢
        split
        · rfl
        · next hempty =>
          rw [if_neg hempty] at h
          split at h
          · cases h
          · split at h <;> cases h
      · exact Net.isHungUp_congr (Net.links_modify_of_ne _ hk) _

theorem keepsHungUp_hearing {peer : Peer} {r : Except WireError Message} {job : Option Job}
    (hs : s.sessions.get? id = some session) (h : Hearing s id peer r t job) :
    KeepsHungUp id s t := by
  cases h with
  | @answered msg reply u _ hsame _ =>
      have hu : u.sessions.get? id = some session := by rw [hsame.sessions, hs]
      intro k hk hgone
      exact keepsHungUp_reply hu reply k hk (by rw [hsame.net, hgone])
  | asked spec hsame _ _ =>
      intro k _ hgone
      rw [hsame.net, hgone]
  | @stopping u hsame =>
      intro k _ hgone
      show u.net.isHungUp k .server = true
      rw [hsame.net, hgone]
  | forbidden report hr => exact keepsHungUp_of_gone (not_mem_dropClient _ id)

end HungUp

end Server

namespace Loop

open Server

variable {l m : Loop} {n : Nat} {client : ClientId} {k : Nat} {a : Action}

section Listing

/-- The events that were reported and are not yet handled. -/
def pending (l : Loop) : List Readiness :=
  match l.phase with
  | .waiting => []
  | .handling es => es

theorem mem_refresh {t : UInt64} (hwatched : t ∈ l.server.watched)
    (hready : isReady l.server t = true) : t ∈ l.refresh.ready := by
  unfold refresh
  dsimp only
  rw [List.mem_append]
  by_cases hkept : t ∈ l.ready.filter l.server.watched.contains
  · exact .inl hkept
  · refine .inr (List.mem_filter.mpr ⟨hwatched, ?_⟩)
    simp only [hready, Bool.true_and, Bool.not_eq_true', List.contains_eq_mem,
      decide_eq_false_iff_not]
    exact hkept

theorem mem_of_mem_refresh {t : UInt64} (h : t ∈ l.refresh.ready) :
    t ∈ l.ready ∨ t ∈ l.server.watched := by
  unfold refresh at h
  dsimp only at h
  rw [List.mem_append] at h
  rcases h with hkept | hfresh
  · exact .inl (List.mem_of_mem_filter hkept)
  · exact .inr (List.mem_of_mem_filter hfresh)

/-- A wait reports only what is listed, and only what is ready. -/
theorem report_fst (s : Server) (n : Nat) (ts : List UInt64) {t : UInt64}
    (h : t ∈ (report s n ts).1) : t ∈ ts ∧ isReady s t = true := by
  induction ts generalizing n with
  | nil => cases n <;> cases h
  | cons u ts ih =>
      cases n with
      | zero => cases h
      | succ n =>
          simp only [report] at h
          split at h
          · next hready =>
            rcases List.mem_cons.mp h with rfl | hlater
            · exact ⟨List.mem_cons_self, hready⟩
            · obtain ⟨hmem, hready'⟩ := ih n hlater
              exact ⟨List.mem_cons_of_mem _ hmem, hready'⟩
          · obtain ⟨hmem, hready'⟩ := ih (n + 1) h
            exact ⟨List.mem_cons_of_mem _ hmem, hready'⟩

theorem report_snd (s : Server) (n : Nat) (ts : List UInt64) {t : UInt64}
    (h : t ∈ (report s n ts).2) : t ∈ ts := by
  induction ts generalizing n with
  | nil => cases n <;> cases h
  | cons u ts ih =>
      cases n with
      | zero => exact h
      | succ n =>
          simp only [report] at h
          split at h
          · exact List.mem_cons_of_mem _ (ih n h)
          · exact List.mem_cons_of_mem _ (ih (n + 1) h)

/-- It forgets nothing that is ready. -/
theorem mem_report (s : Server) (n : Nat) (ts : List UInt64) {t : UInt64} (h : t ∈ ts)
    (hready : isReady s t = true) : t ∈ (report s n ts).1 ∨ t ∈ (report s n ts).2 := by
  induction ts generalizing n with
  | nil => cases h
  | cons u ts ih =>
      cases n with
      | zero => exact .inr h
      | succ n =>
          simp only [report]
          rcases List.mem_cons.mp h with rfl | hlater
          · rw [if_pos hready]
            exact .inl List.mem_cons_self
          · split
            · rcases ih n hlater with hfound | hrest
              · exact .inl (List.mem_cons_of_mem _ hfound)
              · exact .inr hrest
            · exact ih (n + 1) hlater

theorem pending_wait (l : Loop) :
    l.wait.pending =
      (report l.server maxEvents l.ready).1.map fun t => ⟨t, isHungUp l.server t⟩ := by
  simp only [wait, pending]
  cases (report l.server maxEvents l.ready).1 with
  | nil => rfl
  | cons t ts => rfl

end Listing

section Attentive

/-- A server that has handed out `n` identifiers watches all that it should. -/
structure Attentive (n : Nat) (l : Loop) : Prop where
  listens : l.server.net.listens = true
  listener : Receiver.listener.token ∈ l.server.watched
  watches : ∀ id ∈ l.server.sessions.ids, (Receiver.client id).token ∈ l.server.watched
  lists : ∀ t ∈ l.server.watched, isReady l.server t = true → t ∈ l.ready
  known : ∀ t, t ∈ l.server.watched ∨ t ∈ l.ready ∨ t ∈ l.pending.map Readiness.token →
    ∀ id, Receiver.ofToken? t = some (.client id) → id.number.toNat < n
  hungUp : ∀ e ∈ l.pending, e.hungUp = true → ∀ id k,
    Receiver.ofToken? e.token = some (.client id) → linkOf? l.server id = some k →
      l.server.net.isHungUp k .server = true

theorem Attentive.mono {n' : Nat} (h : Attentive n l) (hn : n ≤ n') : Attentive n' l where
  listens := h.listens
  listener := h.listener
  watches := h.watches
  lists := h.lists
  known := fun t ht id hid => Nat.lt_of_lt_of_le (h.known t ht id hid) hn
  hungUp := h.hungUp

/-- A server at which nothing was changed that is watched. -/
theorem Attentive.spared {s : Server} (h : Attentive n l) (hserver : m.server = s)
    (hready : m.ready = ({ l with server := s }).refresh.ready ∨ s = l.server ∧ m.ready = l.ready)
    (hpending : m.pending ⊆ l.pending)
    (hentries : s.sessions.entries = l.server.sessions.entries)
    (hwatched : s.watched = l.server.watched) (hlistens : s.net.listens = l.server.net.listens)
    (hlinks : ∀ id k, linkOf? l.server id = some k →
      s.net.links[k]? = l.server.net.links[k]?) : Attentive n m := by
  have hlink : ∀ id, linkOf? s id = linkOf? l.server id := by
    intro id
    simp only [linkOf?, Sessions.get?, hentries]
  constructor
  · rw [hserver, hlistens]
    exact h.listens
  · rw [hserver, hwatched]
    exact h.listener
  · rw [hserver, Sessions.ids, hentries, hwatched]
    exact h.watches
  · rw [hserver]
    intro t ht hready'
    rcases hready with hrefresh | ⟨rfl, hsame⟩
    · rw [hrefresh]
      exact mem_refresh ht hready'
    · rw [hsame]
      exact h.lists t ht hready'
  · intro t ht
    refine h.known t ?_
    rw [hserver, hwatched] at ht
    rcases ht with hwatch | hlist | hpend
    · exact .inl hwatch
    · rcases hready with hrefresh | ⟨rfl, hsame⟩
      · rw [hrefresh] at hlist
        rcases mem_of_mem_refresh hlist with hold | hnew
        · exact .inr (.inl hold)
        · exact .inl (hwatched ▸ hnew)
      · exact .inr (.inl (hsame ▸ hlist))
    · exact .inr (.inr (List.map_subset _ hpending hpend))
  · intro e he hflag id k hid hk
    rw [hserver] at hk ⊢
    rw [hlink] at hk
    rw [Net.isHungUp_congr (hlinks id k hk)]
    exact h.hungUp e (hpending he) hflag id k hid hk

theorem Attentive.same {s : Server} (h : Attentive n l) (hserver : m.server = s)
    (hready : m.ready = ({ l with server := s }).refresh.ready ∨ s = l.server ∧ m.ready = l.ready)
    (hpending : m.pending ⊆ l.pending)
    (hsessions : s.sessions = l.server.sessions) (hwatched : s.watched = l.server.watched)
    (hnet : s.net = l.server.net) : Attentive n m :=
  h.spared hserver hready hpending (by rw [hsessions]) hwatched (by rw [hnet])
    fun _ _ _ => by rw [hnet]

/-- A server at which something was done to one client. -/
theorem Attentive.confined {s : Server} {id : ClientId} (h : Attentive n l) (hl : Coherent l)
    (hn : n ≤ 2 ^ 64 - 16) (hid : id.number.toNat < n) (hserver : m.server = s)
    (hready : m.ready = ({ l with server := s }).refresh.ready)
    (hpending : m.pending ⊆ l.pending) (hconfined : Confined id l.server s)
    (hkeeps : KeepsHungUp id l.server s) : Attentive n m := by
  have hspared : ∀ t ∈ l.server.watched, t ≠ (Receiver.client id).token → t ∈ s.watched := by
    intro t ht hne
    rcases hconfined.table with ⟨-, hsame⟩ | ⟨-, hfiltered⟩
    · rw [hsame]
      exact ht
    · rw [hfiltered]
      exact List.mem_filter.mpr ⟨ht, decide_eq_true hne⟩
  have hsub : s.watched ⊆ l.server.watched := by
    rcases hconfined.table with ⟨-, hsame⟩ | ⟨-, hfiltered⟩
    · rw [hsame]
      exact List.Subset.refl _
    · rw [hfiltered]
      exact List.filter_subset_self ..
  constructor
  · rw [hserver, hconfined.listens]
    exact h.listens
  · rw [hserver]
    exact hspared _ h.listener (Receiver.token_ne_client rfl
      Receiver.noConfusion (Nat.lt_of_lt_of_le hid hn))
  · rw [hserver]
    intro other hother
    by_cases heq : other = id
    · subst heq
      rcases hconfined.table with ⟨hsame, hwatched⟩ | ⟨hremoved, -⟩
      · rw [hwatched]
        exact h.watches _ (hsame ▸ hother)
      · rw [hremoved, Sessions.mem_ids_remove] at hother
        exact absurd rfl hother.2
    · refine hspared _ (h.watches _ ((hconfined.mem_ids_iff heq).mp hother)) fun htoken => ?_
      exact heq (Receiver.token_client_inj htoken)
  · rw [hserver, hready]
    intro t ht hready'
    exact mem_refresh ht hready'
  · intro t ht
    refine h.known t ?_
    rw [hserver, hready] at ht
    rcases ht with hwatch | hlist | hpend
    · exact .inl (hsub hwatch)
    · rcases mem_of_mem_refresh hlist with hold | hnew
      · exact .inr (.inl hold)
      · exact .inl (hsub hnew)
    · exact .inr (.inr (List.map_subset _ hpending hpend))
  · intro e he hflag other k hother hk
    rw [hserver] at hk ⊢
    by_cases heq : other = id
    · subst heq
      refine hkeeps k hk (h.hungUp e (hpending he) hflag other k hother ?_)
      rcases hconfined.table with ⟨hsame, -⟩ | ⟨hremoved, -⟩
      · rwa [linkOf?, hsame] at hk
      · rw [linkOf?_of_none (hremoved ▸ Sessions.get?_remove_self _ _)] at hk
        cases hk
    · have hk' : linkOf? l.server other = some k := by
        rwa [linkOf?, hconfined.get?_of_ne heq] at hk
      obtain ⟨session, hs, rfl⟩ := Option.map_eq_some_iff.mp hk'
      have hlink := hconfined.links _ (linkOf?_ne_of_apart hl.links.apart hs (Ne.symm heq))
      rw [Net.isHungUp_congr hlink]
      exact h.hungUp e (hpending he) hflag other _ hother hk'

/-- The next client is watched as well. -/
theorem Attentive.accepted (waiting : List Nat) (session : Session) (h : Attentive n l)
    (hnumber : l.server.sessions.next.number.toNat = n) (hn : n < 2 ^ 64 - 16)
    (hsessions : m.server.sessions = (l.server.sessions.insert session).2)
    (hnet : m.server.net = { l.server.net with waiting := waiting })
    (hwatched : m.server.watched =
      l.server.watched ++ [(Receiver.client l.server.sessions.next).token])
    (hready : m.ready = ({ l with server := m.server }).refresh.ready)
    (hpending : m.pending ⊆ l.pending) : Attentive (n + 1) m := by
  set new := l.server.sessions.next with hnew
  constructor
  · rw [hnet]
    exact h.listens
  · rw [hwatched]
    exact List.mem_append_left _ h.listener
  · rw [hsessions, hwatched]
    intro id hid
    rcases (Sessions.mem_ids_insert session).mp hid with hold | rfl
    · exact List.mem_append_left _ (h.watches id hold)
    · exact List.mem_append_right _ List.mem_cons_self
  · rw [hready]
    intro t ht hready'
    exact mem_refresh ht hready'
  · have hwatch : ∀ t ∈ m.server.watched, ∀ id, Receiver.ofToken? t = some (.client id) →
        id.number.toNat < n + 1 := by
      intro t ht id hid
      rw [hwatched, List.mem_append, List.mem_singleton] at ht
      rcases ht with hold | rfl
      · exact Nat.lt_succ_of_lt (h.known t (.inl hold) id hid)
      · rw [Receiver.ofToken?_token fun other hother => by cases hother; exact hnumber ▸ hn] at hid
        cases hid
        exact hnumber ▸ Nat.lt_succ_self _
    intro t ht id hid
    rw [hready] at ht
    rcases ht with ht | hlist | hpend
    · exact hwatch t ht id hid
    · rcases mem_of_mem_refresh hlist with hold | hwatched'
      · exact Nat.lt_succ_of_lt (h.known t (.inr (.inl hold)) id hid)
      · exact hwatch t hwatched' id hid
    · exact Nat.lt_succ_of_lt
        (h.known t (.inr (.inr (List.map_subset _ hpending hpend))) id hid)
  · intro e he hflag id k hid hk
    have hbelow := h.known e.token (.inr (.inr (List.mem_map_of_mem (hpending he)))) id hid
    have hne : id ≠ new := by
      rintro rfl
      rw [hnumber] at hbelow
      exact Nat.lt_irrefl n hbelow
    rw [linkOf?, hsessions, Sessions.get?_insert_of_ne session hne] at hk
    rw [hnet]
    exact h.hungUp e (hpending he) hflag id k hid hk

theorem attentive_start (chips : Chips) (period : Nat) : Attentive 0 (start chips period) where
  listens := rfl
  listener := List.mem_cons_self
  watches := by rintro id ⟨⟩
  lists := by
    intro t ht hready
    have hcases : t = Receiver.listener.token ∨ t = Receiver.signals.token ∨
        t = Receiver.idleTimer.token := by
      simpa [start, Server.start, log, record] using ht
    rcases hcases with rfl | rfl | rfl <;> cases hready
  known := by
    intro t ht id hid
    have hcases : t = Receiver.listener.token ∨ t = Receiver.signals.token ∨
        t = Receiver.idleTimer.token := by
      simpa [start, Server.start, log, record, pending] using ht
    rcases hcases with rfl | rfl | rfl <;> cases hid
  hungUp := by rintro e ⟨⟩

/-- A connection is accepted, or that fails: nothing is new but a client that is admitted. -/
theorem Attentive.accepts (h : Attentive n l) (hl : Coherent l) (haccepts : l.accepts? = some k)
    (hn : n + l.draws?.toList.length ≤ 2 ^ 64 - 16)
    (hnext : l.server.sessions.next.number.toNat = n)
    (hready : l.step.ready = ({ l with server := l.step.server }).refresh.ready)
    (hpending : l.step.pending ⊆ l.pending) : Attentive (n + l.draws?.toList.length) l.step := by
  have hlistens : l.step.server.net.listens = l.server.net.listens := by
    rw [(accept_of_accepts? haccepts).2.2]
    exact l.server.reception.listens
  -- The links of the sessions do not wait, so accepting does not touch them.
  have hlinks : ∀ id j, linkOf? l.server id = some j →
      l.step.server.net.links[j]? = l.server.net.links[j]? := by
    intro id j hj
    obtain ⟨session, hs, rfl⟩ := Option.map_eq_some_iff.mp hj
    rw [(accept_of_accepts? haccepts).2.2]
    refine l.server.accepts.links_of_ne fun hhead => ?_
    exact link_not_waiting hl.links.apart hs (List.mem_of_mem_head? hhead)
  have hspared : l.step.server.sessions.entries = l.server.sessions.entries →
      l.step.server.watched = l.server.watched →
        Attentive (n + l.draws?.toList.length) l.step := fun hentries hwatched =>
    (h.spared rfl (.inl hready) hpending hentries hwatched hlistens hlinks).mono
      (Nat.le_add_right _ _)
  cases received haccepts with
  | failed ks errno _ _ _ _ hstep => exact hspared (by rw [hstep]; rfl) (by rw [hstep]; rfl)
  | turnedAway ks report _ _ _ hstep => exact hspared (by rw [hstep]; rfl) (by rw [hstep]; rfl)
  | seatedBriefly ks errno _ _ _ hstep =>
      exact hspared (by rw [hstep, sessions_seatBriefly]) (by rw [hstep]; rfl)
  | seated ks _ hdraws _ hstep =>
      rw [hdraws] at hn ⊢
      exact Attentive.accepted ks ⟨k, _⟩ h hnext (Nat.lt_of_succ_le hn) (by rw [hstep]; rfl)
        (by rw [hstep]; rfl) (by rw [hstep]; rfl) hready hpending

/-- An event is handled: it concerns one client, or accepts one, or neither. -/
theorem Attentive.begins {e : Readiness} {es : List Readiness} (h : Attentive n l)
    (hl : Coherent l) (hend : l.ending = none) (hjob : l.job = none)
    (hphase : l.phase = .handling (e :: es)) (hstop : l.server.stop = none)
    (hn : n + l.draws?.toList.length ≤ 2 ^ 64 - 16)
    (hnext : l.server.sessions.next.number.toNat = n)
    (hbegins : Begins l.server e l.step.server l.step.job)
    (hready : l.step.ready = ({ l with server := l.step.server }).refresh.ready)
    (hpending : l.step.pending ⊆ l.pending) : Attentive (n + l.draws?.toList.length) l.step := by
  have hle : n ≤ n + l.draws?.toList.length := Nat.le_add_right _ _
  have hn' : n ≤ 2 ^ 64 - 16 := Nat.le_trans hle hn
  have hknown : ∀ id, Receiver.ofToken? e.token = some (.client id) → id.number.toNat < n := by
    intro id hid
    refine h.known e.token (.inr (.inr ?_)) id hid
    simp only [pending, hphase]
    exact List.mem_cons_self
  obtain ⟨t, ht⟩ : ∃ t, l.step.server = t := ⟨_, rfl⟩
  obtain ⟨job, hj⟩ : ∃ job, l.step.job = job := ⟨_, rfl⟩
  have hready' : l.step.ready = ({ l with server := t }).refresh.ready := by rw [hready, ht]
  rw [ht, hj] at hbegins
  cases hbegins with
  | accepted htoken =>
      cases haccepts : l.accepts? with
      | some k => exact h.accepts hl haccepts hn hnext hready hpending
      | none =>
          rw [accept_of_nobody hend hjob hstop hphase htoken haccepts] at ht
          exact (h.same ht (.inl (ht ▸ hready)) hpending rfl rfl rfl).mono hle
  | signalled htoken =>
      obtain ⟨-, hsessions, hwatched, hnet, -⟩ := l.server.takeSignals_cases
      exact (h.same ht (.inl hready') hpending hsessions hwatched hnet).mono hle
  | timed htoken =>
      obtain ⟨-, hsessions, hwatched, hnet, -⟩ := l.server.takeExpiry_cases
      exact (h.same ht (.inl hready') hpending hsessions hwatched hnet).mono hle
  | @heard id session r hs hr =>
      obtain ⟨htoken, session', bytes, hs', htaken, -⟩ := Server.eq_of_hears? hr
      obtain rfl : session = session' := Option.some.inj (hs.symm.trans hs')
      have hread : (l.server.afterReading id session r).sessions.get? id = some session := hs
      have hhearing := hearing (l.server.afterReading id session r) id session.peer r
      refine (h.confined hl hn' (hknown id htoken) ht hready' hpending
        ((confined_afterReading hs r).trans hhearing.confined) ?_).mono hle
      intro k hk hgone
      refine keepsHungUp_hearing hread hhearing k hk ?_
      show (l.server.netAfter session).isHungUp k .server = true
      rw [isHungUp_netAfter htaken, hgone]
  | @left id session report _ htoken hs _ _ =>
      exact (h.confined hl hn' (hknown id htoken) ht hready' hpending
        (confined_afterLeaving hs report)
        (keepsHungUp_of_gone (not_mem_dropClient _ id))).mono hle
  | nothing _ _ => exact (h.same ht (.inl hready') hpending rfl rfl rfl).mono hle
  | stray _ => exact (h.same ht (.inl hready') hpending rfl rfl rfl).mono hle

theorem Attentive.waited (h : Attentive n l) : Attentive n l.wait := by
  have hpend : ∀ e ∈ l.wait.pending, ∃ t ∈ l.ready, e = ⟨t, isHungUp l.server t⟩ := by
    intro e he
    rw [pending_wait] at he
    obtain ⟨t, ht, rfl⟩ := List.mem_map.mp he
    exact ⟨t, (report_fst _ _ _ ht).1, rfl⟩
  have hlisted : ∀ t ∈ l.wait.ready, t ∈ l.ready := by
    intro t ht
    rcases List.mem_append.mp ht with hrest | hfound
    · exact report_snd _ _ _ hrest
    · exact (report_fst _ _ _ hfound).1
  constructor
  · exact h.listens
  · exact h.listener
  · exact h.watches
  · intro t ht hready
    refine List.mem_append.mpr (Or.symm ?_)
    exact mem_report l.server maxEvents l.ready (h.lists t ht hready) hready
  · intro t ht
    refine h.known t ?_
    rcases ht with hwatch | hlist | hpending
    · exact .inl hwatch
    · exact .inr (.inl (hlisted t hlist))
    · obtain ⟨e, he, rfl⟩ := List.mem_map.mp hpending
      obtain ⟨t, ht, rfl⟩ := hpend e he
      exact .inr (.inl ht)
  · intro e he hflag id k hid hk
    obtain ⟨t, -, rfl⟩ := hpend e he
    simp only [isHungUp, hid] at hflag
    have hk' : linkOf? l.server id = some k := hk
    rw [hk', Option.any_some] at hflag
    exact hflag

/-- A step of a server that goes on. -/
theorem Attentive.step (h : Attentive n l) (hl : Coherent l)
    (hn : n + l.draws?.toList.length ≤ 2 ^ 64 - 16)
    (hbelow : ∀ id ∈ l.server.sessions.ids, id.number.toNat < n)
    (hnext : l.server.sessions.next.number.toNat = n) (hend : l.step.ending = none) :
    Attentive (n + l.draws?.toList.length) l.step := by
  have hle : n ≤ n + l.draws?.toList.length := Nat.le_add_right _ _
  obtain ⟨hm, -⟩ | ⟨job, hend', hjob, -, hm⟩ | ⟨-, -, -, hm⟩ | ⟨e, es, -, -, hphase, -, hm⟩ |
      ⟨e, es, hend', hjob, hphase, hstop, hbegins, hm⟩ | ⟨why, -, -, -, -, hm⟩ |
      ⟨s, -, -, -, -, hupdate, hm⟩ | ⟨e, -, -, -, -, -, hm⟩ := l.steps
  · rw [hm]
    exact h.mono hle
  · obtain ⟨session, hs⟩ := Sessions.mem_ids_iff.mp (hl.asker job hjob)
    obtain ⟨u, reply, hsame, -, hfinish⟩ := l.server.finish_eq_reply job
    have hu : u.sessions.get? job.client = some session := by rw [hsame.sessions, hs]
    have hkeeps : KeepsHungUp job.client l.server (l.server.finish job) := by
      rw [hfinish]
      intro k hk hgone
      exact keepsHungUp_reply hu reply k hk (by rw [hsame.net, hgone])
    have hserver : l.step.server = l.server.finish job := by
      rw [hm]
      rfl
    have hpending : l.step.pending = l.pending := by
      rw [hm]
      rfl
    exact (h.confined hl (Nat.le_trans hle hn) (hbelow _ (hl.asker job hjob)) hserver
      (by rw [hm]; rfl) (hpending ▸ List.Subset.refl _) (confined_finish _ job) hkeeps).mono hle
  · rw [hm]
    exact h.waited.mono hle
  · have hpending : l.step.pending = [] := by
      rw [hm]
      rfl
    have hserver : l.step.server = l.server := by rw [hm]
    exact (h.same hserver (.inr ⟨rfl, by rw [hm]⟩) (hpending ▸ List.nil_subset _) rfl rfl
      rfl).mono hle
  · refine h.begins hl hend' hjob hphase hstop hn hnext hbegins (by rw [hm]; rfl) ?_
    rw [hm]
    show es ⊆ l.pending
    simp only [pending, hphase]
    exact List.subset_cons_self e es
  · rw [hm] at hend
    cases hend
  · have hsame := sameClients_updateIdle hupdate
    rw [hm]
    exact (h.same rfl (.inl rfl) (List.nil_subset _) hsame.sessions hsame.watched
      hsame.net).mono hle
  · rw [hm] at hend
    cases hend

/-- Whatever is done around the server, what is ready is listed. -/
theorem ready_act (ha : a ≠ .serve)
    (h : ∀ t ∈ l.server.watched, isReady l.server t = true → t ∈ l.ready) :
    (∀ t ∈ l.server.watched, isReady (l.act a).server t = true → t ∈ (l.act a).ready) ∧
      ∀ t ∈ (l.act a).ready, t ∈ l.ready ∨ t ∈ l.server.watched := by
  have hfresh : ∀ s : Server, s.watched = l.server.watched →
      (∀ t ∈ l.server.watched, isReady s t = true → t ∈ (l.withServer s).ready) ∧
        ∀ t ∈ (l.withServer s).ready, t ∈ l.ready ∨ t ∈ l.server.watched := by
    intro s hs
    constructor
    · intro t ht hready
      exact mem_refresh (l := { l with server := s }) (hs ▸ ht) hready
    · intro t ht
      rw [← hs]
      exact mem_of_mem_refresh (l := { l with server := s }) ht
  have hsame : ∀ t ∈ l.ready, t ∈ l.ready ∨ t ∈ l.server.watched := fun t ht => .inl ht
  cases a with
  | serve => exact absurd rfl ha
  | replug chips => exact ⟨h, hsame⟩
  | gate closed => exact ⟨h, hsame⟩
  | reorder ready =>
      simp only [act]
      split
      · next hperm =>
        have hmem : ∀ t, t ∈ ready ↔ t ∈ l.ready := fun t => (List.isPerm_iff.mp hperm).mem_iff
        exact ⟨fun t ht hready => (hmem t).mpr (h t ht hready), fun t ht => .inl ((hmem t).mp ht)⟩
      · exact ⟨h, hsame⟩
  | raise signal => exact hfresh _ rfl
  | pass nanos => exact hfresh _ rfl
  | connect peer => exact hfresh _ rfl
  | send link bytes => exact hfresh _ rfl
  | take link count => exact hfresh _ rfl
  | shutdown link => exact hfresh _ rfl
  | close link => exact hfresh _ rfl

theorem Attentive.act (h : Attentive n l) (ha : a ≠ .serve) : Attentive n (l.act a) := by
  have haround := around_act l ha
  have hnet := net_act l ha
  obtain ⟨hlists, hsub⟩ := ready_act ha h.lists
  have hpending : (l.act a).pending = l.pending := by
    rw [pending, haround.phase, pending]
  constructor
  · rw [hnet, listens_after]
    exact h.listens
  · rw [haround.watched]
    exact h.listener
  · rw [haround.watched, haround.sessions]
    exact h.watches
  · rw [haround.watched]
    exact hlists
  · intro t ht
    refine h.known t ?_
    rw [haround.watched, hpending] at ht
    rcases ht with hwatch | hlist | hpend
    · exact .inl hwatch
    · rcases hsub t hlist with hold | hwatch
      · exact .inr (.inl hold)
      · exact .inl hwatch
    · exact .inr (.inr hpend)
  · rw [hpending, hnet]
    intro e he hflag id k hid hk
    rw [haround.linkOf?] at hk
    exact Net.isHungUp_after _ a (h.hungUp e he hflag id k hid hk)

end Attentive

end Loop

namespace Chronicle

open Loop (Attentive)

variable {chips : Chips} {period : Nat} {as : List Action}

section Attentive

theorem attentive_chronicle
    (hbound : (chronicle chips period as).loop.server.net.links.length ≤ 2 ^ 64 - 16)
    (hend : (chronicle chips period as).loop.ending = none) :
    Attentive (chronicle chips period as).seats.length (chronicle chips period as).loop := by
  induction as using List.reverseRecOn with
  | nil => exact Loop.attentive_start chips period
  | append_singleton as a ih =>
      have hl := coherent_chronicle chips period as
      rw [chronicle_concat] at hbound hend ⊢
      have hbefore := Nat.le_trans (Loop.length_le_act hl a) hbound
      have hsmall : 2 ^ 64 - 16 ≤ 2 ^ 64 := Nat.sub_le _ _
      have htabled := tabled_chronicle (Nat.le_trans hbefore hsmall)
      have ih := ih hbefore
      generalize chronicle chips period as = w at *
      by_cases ha : a = .serve
      · subst ha
        have hend' : w.loop.ending = none := by
          cases hw : w.loop.ending with
          | none => rfl
          | some e =>
              have hstep : (w.note .serve).loop = w.loop :=
                Loop.step_of_ending (by rw [hw]; rfl)
              rw [hstep, hw] at hend
              cases hend
        have htabled' := htabled.note_serve hl (Nat.le_trans hbefore hsmall)
        have hcount := htabled'.count
        have hlength : (w.note .serve).seats.length =
            w.seats.length + w.loop.draws?.toList.length := by
          rw [seats_note_serve, List.length_append]
        have hn : w.seats.length + w.loop.draws?.toList.length ≤ 2 ^ 64 - 16 := by
          rw [links, List.length_append, List.length_map, hlength] at hcount
          exact Nat.le_trans (Nat.le_trans (Nat.le_add_right _ _) hcount) hbound
        rw [hlength]
        refine (ih hend').step hl hn ?_ ?_ hend
        · exact fun id hid => htabled.numbers id (htabled.mem_clients hid)
        · refine (htabled.numbered hend').next_toNat ?_
          omega
      · rw [seats_note_of_ne w ha]
        refine (ih ?_).act ha
        rw [← (Loop.around_act w.loop ha).ending]
        exact hend

end Attentive

end Chronicle
end LineKeeper
