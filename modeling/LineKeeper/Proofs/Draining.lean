import LineKeeper.Proofs.ServerSteps
import LineKeeper.Proofs.Talk

/-!
# What ending the server does, in order

A server that stops goes through five stages, and the trace shows each of them:

1. it closes the listening socket;
2. it closes the handles of all records, in the order of the records (`returned`);
3. it ends every session but that of the client that asked for the stop (`Dismissed`);
4. it answers that client and ends its session (`parting`);
5. it reports the reason.

`ShutsDown` puts them together, and `shutsDown_drain` proves it of `drain`.
-/

namespace LineKeeper

/-- The server's end of a link is closed. -/
def Net.ClosedAt (net : Net) (k : Nat) : Prop :=
  ∀ l, net.links[k]? = some l → l.server.isOpen = false

namespace Server

open Loop (linkOf?)

variable {s t u : Server} {id other : ClientId} {session : Session}

section Returning

/-- What shows that the lines of a record went back. -/
def returned (e : RequestId × Held Nat) : List Effect :=
  [.log (.releasing e.1 e.2.chipPath e.2.offsets), .device (.released e.2.handle)]

theorem trace_releaseHeld (s : Server) (e : RequestId × Held Nat) :
    (s.releaseHeld e).trace = s.trace ++ returned e := by
  simp only [releaseHeld, withDevice, log, record, Device.release, List.drop_left,
    List.append_assoc]
  rfl

theorem sameClients_releaseHeld (s : Server) (e : RequestId × Held Nat) :
    SameClients s (s.releaseHeld e) :=
  (sameClients_log s _).trans (sameClients_withDevice _ _)

theorem foldl_returned (s : Server) (es : List (RequestId × Held Nat)) :
    (es.foldl releaseHeld s).trace = s.trace ++ es.flatMap returned ∧
      SameClients s (es.foldl releaseHeld s) := by
  induction es generalizing s with
  | nil => exact ⟨(List.append_nil _).symm, SameClients.refl s⟩
  | cons e es ih =>
      obtain ⟨htrace, hsame⟩ := ih (s.releaseHeld e)
      refine ⟨?_, (sameClients_releaseHeld s e).trans hsame⟩
      rw [List.foldl_cons, htrace, trace_releaseHeld, List.flatMap_cons, List.append_assoc]

end Returning

section Dismissing

theorem entries_dropClient (s : Server) (id : ClientId) :
    (s.dropClient id).sessions.entries = s.sessions.entries.filter (·.1 ≠ id) := by
  cases h : s.sessions.get? id with
  | none =>
      rw [dropClient_of_none h, eq_comm, List.filter_eq_self]
      intro e he
      rw [decide_eq_true_eq]
      rintro rfl
      exact Sessions.get?_eq_none_iff.mp h (List.mem_map_of_mem he)
  | some session =>
      rw [sessions_dropClient h]
      rfl

theorem closedAt_modify (net : Net) (k : Nat) :
    (net.modify k (·.close .server)).ClosedAt k := by
  intro l hl
  rw [Net.links_modify, if_pos rfl] at hl
  obtain ⟨l', -, rfl⟩ := Option.map_eq_some_iff.mp hl
  rfl

theorem closedAt_dropClient {k : Nat} (h : s.net.ClosedAt k) (id : ClientId) :
    (s.dropClient id).net.ClosedAt k := by
  unfold dropClient
  split
  · exact h
  · intro l hl
    change (s.net.modify _ _).links[k]? = some l at hl
    rw [Net.links_modify] at hl
    split at hl
    · obtain ⟨l', -, rfl⟩ := Option.map_eq_some_iff.mp hl
      rfl
    · exact h l hl

theorem closedAt_of_dropped {k : Nat} (h : linkOf? s id = some k) :
    (s.dropClient id).net.ClosedAt k := by
  obtain ⟨session, hs, rfl⟩ := Option.map_eq_some_iff.mp h
  unfold dropClient
  rw [hs]
  exact closedAt_modify s.net session.link

/-- What shows that sessions under the identifiers ended, and nothing else happened. -/
structure Closings (ids : List ClientId) (present : ClientId → Prop) (es : List Effect) :
    Prop where
  only : ∀ e ∈ es, e = .log .dropped ∨ ∃ id ∈ ids, e = .closed id
  all : ∀ id ∈ ids, present id → .closed id ∈ es

/-- The sessions under the identifiers ended. -/
structure Dismissed (ids : List ClientId) (s t : Server) : Prop where
  sessions : t.sessions.entries = s.sessions.entries.filter (·.1 ∉ ids)
  links : ∀ k, (∀ id ∈ ids, linkOf? s id ≠ some k) → t.net.links[k]? = s.net.links[k]?
  closed : ∀ id ∈ ids, ∀ k, linkOf? s id = some k → t.net.ClosedAt k
  stillClosed : ∀ k, s.net.ClosedAt k → t.net.ClosedAt k
  count : t.net.links.length = s.net.links.length
  waiting : t.net.waiting = s.net.waiting
  listens : t.net.listens = s.net.listens
  stop : t.stop = s.stop
  trace : ∃ es, t.trace = s.trace ++ es ∧ Closings ids (· ∈ s.sessions.ids) es

theorem trace_dropClient (s : Server) (id : ClientId) :
    ∃ es, (s.dropClient id).trace = s.trace ++ es ∧ Closings [id] (· ∈ s.sessions.ids) es := by
  cases h : s.sessions.get? id with
  | none =>
      refine ⟨[], ?_, ⟨by simp, ?_⟩⟩
      · rw [dropClient_of_none h, List.append_nil]
      · intro other hother hmem
        rw [List.mem_singleton.mp hother] at hmem
        exact absurd hmem (Sessions.get?_eq_none_iff.mp h)
  | some session =>
      refine ⟨[.log .dropped, .closed id], ?_, ⟨by simp, by simp⟩⟩
      rw [dropClient, h]
      simp only [record, log, List.append_assoc]
      rfl

theorem dismissed_foldl (s : Server) (ids : List ClientId) :
    Dismissed ids s (ids.foldl dropClient s) := by
  induction ids generalizing s with
  | nil =>
      refine ⟨?_, fun _ _ => rfl, by simp, fun _ h => h, rfl, rfl, rfl, rfl, ?_⟩
      · simp
      · exact ⟨[], (List.append_nil _).symm, by simp, by simp⟩
  | cons id ids ih =>
      have hrest := ih (s.dropClient id)
      have hconfined := confined_dropClient s id
      obtain ⟨first, hfirst, honly, hall⟩ := trace_dropClient s id
      obtain ⟨later, hlater, honly', hall'⟩ := hrest.trace
      constructor
      · rw [List.foldl_cons, hrest.sessions, entries_dropClient, List.filter_filter]
        refine List.filter_congr fun e _ => ?_
        simp [Bool.and_comm]
      · intro k hk
        rw [List.foldl_cons, hrest.links k, hconfined.links k (hk id List.mem_cons_self)]
        intro other hother
        by_cases heq : other = id
        · rw [heq]
          exact hconfined.linkOf?_ne (hk id List.mem_cons_self)
        · rw [linkOf?, hconfined.get?_of_ne heq]
          exact hk other (List.mem_cons_of_mem _ hother)
      · intro other hother k hk
        by_cases heq : other = id
        · subst heq
          exact hrest.stillClosed k (closedAt_of_dropped hk)
        · have hmem : other ∈ ids := (List.mem_cons.mp hother).resolve_left heq
          refine hrest.closed other hmem k ?_
          rw [linkOf?, hconfined.get?_of_ne heq]
          exact hk
      · intro k hk
        exact hrest.stillClosed k (closedAt_dropClient hk id)
      · exact hrest.count.trans hconfined.count
      · exact hrest.waiting.trans hconfined.waiting
      · exact hrest.listens.trans hconfined.listens
      · exact hrest.stop.trans (stop_dropClient s id)
      · refine ⟨first ++ later, ?_, ?_, ?_⟩
        · rw [List.foldl_cons, hlater, hfirst, List.append_assoc]
        · intro e he
          rcases List.mem_append.mp he with he | he
          · rcases honly e he with rfl | ⟨other, hother, rfl⟩
            · exact .inl rfl
            · rw [List.mem_singleton.mp hother]
              exact .inr ⟨id, List.mem_cons_self, rfl⟩
          · rcases honly' e he with rfl | ⟨other, hother, rfl⟩
            · exact .inl rfl
            · exact .inr ⟨other, List.mem_cons_of_mem _ hother, rfl⟩
        · intro other hother hmem
          by_cases heq : other = id
          · subst heq
            exact List.mem_append_left _ (hall other List.mem_cons_self hmem)
          · have hleft : other ∈ (s.dropClient id).sessions.ids := by
              obtain ⟨session, hs⟩ := Sessions.mem_ids_iff.mp hmem
              exact Sessions.mem_ids_iff.mpr ⟨session, (hconfined.get?_of_ne heq).trans hs⟩
            exact List.mem_append_right _
              (hall' other ((List.mem_cons.mp hother).resolve_left heq) hleft)

end Dismissing

section Parting

/-- What the client that asked for the stop gets: its answer, if it can be written, and then the
end of its session. -/
def parting (s : Server) (why : Stop) : List Effect :=
  match why.stopper? with
  | none => []
  | some id =>
      (if s.writable id then [.wrote id .ok] else [.log (.sendFailed (s.refusal id))]) ++
        [.log .dropped, .closed id]

theorem closedAt_reply {k : Nat} (h : s.net.ClosedAt k) (id : ClientId) (m : Message) :
    (s.reply id m).net.ClosedAt k := by
  cases hs : s.sessions.get? id with
  | none =>
      rw [reply_of_none hs]
      exact h
  | some session =>
      cases hw : s.writable id with
      | true =>
          rw [reply_of_writable hs hw]
          intro l hl
          rw [Net.links_modify] at hl
          split at hl
          · obtain ⟨l', hl', rfl⟩ := Option.map_eq_some_iff.mp hl
            exact h l' hl'
          · exact h l hl
      | false =>
          rw [reply_of_not_writable hs hw]
          exact closedAt_dropClient (s := s.log _) h id

/-- The link of a client that was answered and dropped is closed. -/
theorem closedAt_part {k : Nat} (h : linkOf? s id = some k) (m : Message) :
    ((s.reply id m).dropClient id).net.ClosedAt k := by
  obtain ⟨session, hs, -⟩ := Option.map_eq_some_iff.mp h
  cases hw : s.writable id with
  | true =>
      refine closedAt_of_dropped ?_
      rw [linkOf?, sessions_reply hs, hw]
      exact h
  | false =>
      rw [reply_of_not_writable hs hw]
      exact closedAt_dropClient (closedAt_of_dropped (s := s.log _) h) id

theorem trace_part (h : s.sessions.get? id = some session) :
    ((s.reply id .ok).dropClient id).trace = s.trace ++
      ((if s.writable id then [.wrote id .ok] else [.log (.sendFailed (s.refusal id))]) ++
        [.log .dropped, .closed id]) := by
  cases hw : s.writable id with
  | true =>
      rw [reply_of_writable h hw]
      simp only [dropClient, record, log, h, List.append_assoc]
      rfl
  | false =>
      have hgone : ((s.log (.sendFailed (s.refusal id))).dropClient id).sessions.get? id
          = none := by
        rw [Sessions.get?_eq_none_iff, Sessions.ids, entries_dropClient]
        simp
      rw [reply_of_not_writable h hw, dropClient_of_none hgone,
        ← reply_of_not_writable (m := .ok) h hw, trace_reply_of_not_writable h hw]
      rfl

/-- The session of a client that was answered and dropped is gone, the others are still there. -/
theorem entries_part (s : Server) (id : ClientId) (m : Message) :
    ((s.reply id m).dropClient id).sessions.entries =
      s.sessions.entries.filter (·.1 ≠ id) := by
  rw [entries_dropClient]
  rcases (confined_reply s id m).table with ⟨hsame, -⟩ | ⟨hremoved, -⟩
  · rw [hsame]
  · rw [hremoved, Sessions.remove, List.filter_filter]
    simp only [Bool.and_self]

end Parting

section Ending

/-- The sessions that are ended before the client that asked for the stop is answered. -/
def others (s : Server) (why : Stop) : List ClientId :=
  s.sessions.ids.filter fun id => why.stopper? ≠ some id

/-- Everything that ending a server does. -/
structure ShutsDown (why : Stop) (s t : Server) : Prop where
  listens : t.net.listens = false
  waiting : t.net.waiting = []
  count : t.net.links.length = s.net.links.length
  sessions : t.sessions.entries = []
  closed : ∀ id k, linkOf? s id = some k → t.net.ClosedAt k
  stop : t.stop = s.stop
  emptied : Emptied s t
  trace : ∃ es, t.trace = s.trace ++
      ([.log (.exiting s.sessions.length s.requests.length), .stoppedListening] ++
        s.requests.records.flatMap returned ++ es ++ s.parting why ++
        [.log (.stopped why.reason)]) ∧
    Closings (s.others why) (fun _ => True) es

theorem releaseAll_returned (s : Server) :
    s.releaseAll.trace = s.trace ++ s.requests.records.flatMap returned ∧
      SameClients s s.releaseAll := by
  obtain ⟨htrace, hsame⟩ :=
    foldl_returned { s with requests := s.requests.drain.2 } s.requests.records
  exact ⟨htrace, (sameClients_requests s _).trans hsame⟩

/-- The first three stages. -/
structure Cleared (why : Stop) (s t : Server) : Prop where
  listens : t.net.listens = false
  waiting : t.net.waiting = []
  count : t.net.links.length = s.net.links.length
  sessions : t.sessions.entries = s.sessions.entries.filter (·.1 ∉ s.others why)
  links : ∀ k, k ∉ s.net.waiting → (∀ id ∈ s.others why, linkOf? s id ≠ some k) →
    t.net.links[k]? = s.net.links[k]?
  closed : ∀ id ∈ s.others why, ∀ k, linkOf? s id = some k → t.net.ClosedAt k
  stop : t.stop = s.stop
  trace : ∃ es, t.trace = s.trace ++
      ([.log (.exiting s.sessions.length s.requests.length), .stoppedListening] ++
        s.requests.records.flatMap returned ++ es) ∧
    Closings (s.others why) (fun _ => True) es

theorem cleared (s : Server) (why : Stop) :
    Cleared why s (((s.log (.exiting s.sessions.length s.requests.length)).stopListening
      |>.releaseAll).dropAllBut why.stopper?) := by
  set began := (s.log (.exiting s.sessions.length s.requests.length)).stopListening with hbegan
  obtain ⟨hreturned, hsame⟩ := began.releaseAll_returned
  have hids : began.releaseAll.sessions.ids = s.sessions.ids := by rw [hsame.sessions]; rfl
  have hlink : ∀ id, linkOf? began.releaseAll id = linkOf? s id := by
    intro id
    rw [linkOf?, hsame.sessions]
    rfl
  have hgone := dismissed_foldl began.releaseAll
    (began.releaseAll.sessions.ids.filter fun id => why.stopper? ≠ some id)
  rw [hids] at hgone
  unfold dropAllBut
  rw [hids]
  constructor
  · rw [hgone.listens, hsame.net]
    rfl
  · rw [hgone.waiting, hsame.net]
    rfl
  · rw [hgone.count, hsame.net]
    exact Net.length_stopListening s.net
  · rw [hgone.sessions, hsame.sessions]
    rfl
  · intro k hwaits hothers
    rw [hgone.links k (fun id hid => hlink id ▸ hothers id hid), hsame.net]
    exact Net.links_stopListening hwaits
  · intro id hid k hk
    exact hgone.closed id hid k ((hlink id).trans hk)
  · rw [hgone.stop, hsame.stop]
    rfl
  · obtain ⟨es, htrace, honly, hall⟩ := hgone.trace
    refine ⟨es, ?_, honly, ?_⟩
    · rw [htrace, hreturned]
      simp only [hbegan, stopListening, record, log, List.append_assoc]
      rfl
    · intro id hid _
      refine hall id hid ?_
      rw [hids]
      exact List.mem_of_mem_filter hid

/-- Who asked for the stop is still there after the first three stages, with its link as it was. -/
theorem Cleared.stopper {why : Stop} (h : Cleared why s t) (hapart : s.linksInUse.Nodup)
    (hwhy : why.stopper? = some id) (hs : s.sessions.get? id = some session) :
    t.sessions.get? id = some session ∧ t.writable id = s.writable id ∧
      t.refusal id = s.refusal id := by
  have hnot : id ∉ s.others why := by
    simp [others, hwhy]
  have hget : t.sessions.get? id = some session := by
    rw [← hs]
    simp only [Sessions.get?, h.sessions, List.find?_filter]
    congr 2
    funext e
    by_cases he : e.1 = id
    · simp [he, hnot]
    · simp [he]
  have hlink : t.net.links[session.link]? = s.net.links[session.link]? := by
    refine h.links _ (link_not_waiting hapart hs) fun other hother => ?_
    refine linkOf?_ne_of_apart hapart hs ?_
    rintro rfl
    exact hnot hother
  refine ⟨hget, ?_, ?_⟩
  · rw [writable, writable, linkOf?_of_get? hget, linkOf?_of_get? hs, Option.any_some,
      Option.any_some, hlink]
  · simp only [refusal, linkOf?_of_get? hget, linkOf?_of_get? hs, Net.refusal, hlink]

theorem shutsDown_drain (why : Stop) (hapart : s.linksInUse.Nodup)
    (hstopper : ∀ id, why.stopper? = some id → id ∈ s.sessions.ids) :
    ShutsDown why s (s.drain why) := by
  have hemptied := emptied_drain s why
  have hcleared := cleared s why
  revert hemptied
  unfold drain
  dsimp only
  generalize (((s.log (.exiting s.sessions.length s.requests.length)).stopListening
    |>.releaseAll).dropAllBut why.stopper?) = t at hcleared
  obtain ⟨es, htrace, hes⟩ := hcleared.trace
  cases hwhy : why.stopper? with
  | none =>
      intro hemptied
      have hothers : s.others why = s.sessions.ids := by
        simp [others, hwhy]
      refine ⟨hcleared.listens, hcleared.waiting, hcleared.count, ?_, ?_, hcleared.stop,
        hemptied, es, ?_, hes⟩
      · show t.sessions.entries = []
        rw [hcleared.sessions, hothers, List.filter_eq_nil_iff]
        intro e he
        have hmem : e.1 ∈ s.sessions.ids := List.mem_map_of_mem he
        simpa using hmem
      · intro id k hk
        refine hcleared.closed id ?_ k hk
        obtain ⟨session, hs, -⟩ := Option.map_eq_some_iff.mp hk
        rw [hothers]
        exact Sessions.mem_ids_iff.mpr ⟨session, hs⟩
      · show t.trace ++ [_] = _
        rw [htrace, parting, hwhy]
        simp only [List.append_assoc, List.nil_append]
  | some id =>
      intro hemptied
      obtain ⟨session, hs⟩ := Sessions.mem_ids_iff.mp (hstopper id hwhy)
      obtain ⟨hget, hwritable, hrefusal⟩ := hcleared.stopper hapart hwhy hs
      have hreply := confined_reply t id .ok
      have hdrop := confined_dropClient (t.reply id .ok) id
      refine ⟨?_, ?_, ?_, ?_, ?_, ?_, hemptied, es, ?_, hes⟩
      · exact (hdrop.listens.trans hreply.listens).trans hcleared.listens
      · exact (hdrop.waiting.trans hreply.waiting).trans hcleared.waiting
      · exact (hdrop.count.trans hreply.count).trans hcleared.count
      · show ((t.reply id .ok).dropClient id).sessions.entries = []
        rw [entries_part, hcleared.sessions, List.filter_filter, List.filter_eq_nil_iff]
        intro e he hkept
        have hmem : e.1 ∈ s.sessions.ids := List.mem_map_of_mem he
        simp only [others, hwhy, ne_eq, Option.some.injEq, List.mem_filter, Bool.and_eq_true,
          decide_eq_true_eq] at hkept
        exact hkept.2 ⟨hmem, by simpa using fun h => hkept.1 h.symm⟩
      · intro other k hk
        by_cases heq : other = id
        · subst heq
          refine closedAt_part ?_ .ok
          rw [linkOf?_of_get? hget, ← linkOf?_of_get? hs]
          exact hk
        · have hother : other ∈ s.others why := by
            obtain ⟨session', hs', -⟩ := Option.map_eq_some_iff.mp hk
            refine List.mem_filter.mpr ⟨Sessions.mem_ids_iff.mpr ⟨session', hs'⟩, ?_⟩
            simpa [hwhy] using fun h => heq h.symm
          exact closedAt_dropClient (closedAt_reply (hcleared.closed other hother k hk) id .ok) id
      · exact ((stop_dropClient _ id).trans (stop_reply t id .ok)).trans hcleared.stop
      · show ((t.reply id .ok).dropClient id).trace ++ [_] = _
        rw [trace_part hget, htrace, parting, hwhy, hwritable, hrefusal]
        simp only [List.append_assoc]

end Ending

end Server
end LineKeeper
