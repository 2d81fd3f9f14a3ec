import LineKeeper.Proofs.Coherence
import LineKeeper.Proofs.Ownership

/-!
# What the device sees over a whole run

The journal of the device lists every call that reached it.  A handle that was granted
is either still owned by a record or was closed, once; and no other handle was ever
closed.  `Accounted` says so, and it holds of every reachable loop
(`Reachable.accounted`).

`Server.Deals` lists what a step of the server does with the device: nothing, a request
that is refused, one that is granted, the closing of one record's handle, or the closing
of all of them, record by record.
-/

namespace LineKeeper

namespace DeviceCall

/-- The handle that was given out. -/
def granted? : DeviceCall → Option Nat
  | granted _ handle => some handle
  | _ => none

/-- The handle that was closed. -/
def released? : DeviceCall → Option Nat
  | released handle => some handle
  | _ => none

end DeviceCall

namespace Device

variable {d : Device} {spec : LineSpec} {handle : Nat}

/-- The handles that were given out, in order. -/
def given (d : Device) : List Nat :=
  d.journal.filterMap DeviceCall.granted?

/-- The handles that were closed, in order. -/
def closed (d : Device) : List Nat :=
  d.journal.filterMap DeviceCall.released?

theorem given_release (d : Device) (handle : Nat) : (d.release handle).given = d.given := by
  simp only [given, release, List.filterMap_append]
  exact List.append_nil _

theorem closed_release (d : Device) (handle : Nat) :
    (d.release handle).closed = d.closed ++ [handle] := by
  simp only [closed, release, List.filterMap_append]
  rfl

/-- A request that is refused is in the journal, if at all, as refused. -/
theorem journal_request_of_error {e : Errno} (h : (d.request spec).1 = .error e) :
    (d.request spec).2.given = d.given ∧ (d.request spec).2.closed = d.closed := by
  revert h
  simp only [request]
  split
  · intro _
    exact ⟨rfl, rfl⟩
  · rw [ask_eq]
    split
    · intro _
      simp only [given, closed, List.filterMap_append]
      exact ⟨List.append_nil _, List.append_nil _⟩
    · intro h
      cases h

theorem journal_request_of_ok (h : (d.request spec).1 = .ok handle) :
    (d.request spec).2.given = d.given ++ [d.issued + 1] ∧
      (d.request spec).2.closed = d.closed := by
  revert h
  simp only [request]
  split
  · intro h
    cases h
  · rw [ask_eq]
    split
    · intro h
      cases h
    · intro _
      simp only [given, closed, List.filterMap_append]
      exact ⟨rfl, List.append_nil _⟩

end Device

namespace Server

variable {s t : Server} {e : Readiness}

section Deals

/-- What a step of the server does with the device. -/
inductive Deals (s t : Server) : Prop
  | nothing (hrequests : t.requests = s.requests) (hdevice : t.device = s.device)
  | refused (spec : LineSpec) (e : Errno) (h : (s.device.request spec).1 = .error e)
      (hrequests : t.requests = s.requests) (hdevice : t.device = (s.device.request spec).2)
  | granted (job : Job) (h : (s.device.request job.spec).1 = .ok (s.device.issued + 1))
      (hrequests : t.requests = (s.requests.insert (job.held (s.device.issued + 1))).2)
      (hdevice : t.device = s.requests.closing (RequestId.numbered (s.requests.issued + 1))
        (s.device.request job.spec).2)
  | gaveBack (id : RequestId) (held : Held Nat) (h : s.requests.get? id = some held)
      (hrequests : t.requests = s.requests.remove id)
      (hdevice : t.device = s.device.release held.handle)
  | emptied (hrecords : t.requests.records = [])
      (hissued : t.device.issued = s.device.issued)
      (hjournal : t.device.journal = s.device.journal ++
        s.requests.records.map fun e => .released e.2.handle)

theorem Deals.of_same {u : Server} (h : Deals u t) (hrequests : u.requests = s.requests)
    (hdevice : u.device = s.device) : Deals s t := by
  cases h with
  | nothing hr hd => exact .nothing (hr.trans hrequests) (hd.trans hdevice)
  | refused spec e h hr hd =>
      rw [hdevice] at h hd
      exact .refused spec e h (hr.trans hrequests) hd
  | granted job h hr hd =>
      rw [hdevice] at h hr hd
      rw [hrequests] at hr hd
      exact .granted job h hr hd
  | gaveBack id held h hr hd =>
      rw [hrequests] at h hr
      rw [hdevice] at hd
      exact .gaveBack id held h hr hd
  | emptied hr hi hj =>
      rw [hdevice] at hi hj
      rw [hrequests] at hj
      exact .emptied hr hi hj

theorem deals_dropClient (s : Server) (id : ClientId) :
    (s.dropClient id).requests = s.requests ∧ (s.dropClient id).device = s.device := by
  unfold dropClient
  split <;> exact ⟨rfl, rfl⟩

theorem deals_reply (s : Server) (id : ClientId) (m : Message) :
    (s.reply id m).requests = s.requests ∧ (s.reply id m).device = s.device := by
  unfold reply
  split
  · exact ⟨rfl, rfl⟩
  · split
    · exact ⟨rfl, rfl⟩
    · exact deals_dropClient _ id

theorem deals_finish (s : Server) (job : Job) : Deals s (s.finish job) := by
  rcases s.device.request_cases job.spec with ⟨e, herror, -, -⟩ | ⟨hok, -, -, -⟩
  · obtain ⟨hrequests, hdevice⟩ :=
      deals_reply ((s.withDevice (s.device.request job.spec).2).log (.refused e)) job.client
        (.error e)
    refine .refused job.spec e herror ?_ ?_
    · simp only [finish_eq, herror, hrequests]
      rfl
    · simp only [finish_eq, herror, hdevice]
      rfl
  · refine .granted job hok ?_ ?_
    · simp only [finish_eq, hok, (deals_reply _ _ _).1]
      rfl
    · simp only [finish_eq, hok, (deals_reply _ _ _).2]
      exact device_displace _ _

theorem deals_release (s : Server) (client : ClientId) (id : RequestId) :
    Deals s (s.release client id) := by
  cases h : s.requests.get? id with
  | none =>
      refine .nothing ?_ ?_
      · simp only [release, h, (deals_reply _ _ _).1]
        rfl
      · simp only [release, h, (deals_reply _ _ _).2]
        rfl
  | some held =>
      refine .gaveBack id held h ?_ ?_
      · simp only [release, h, (deals_reply _ _ _).1]
        rfl
      · simp only [release, h, (deals_reply _ _ _).2]
        rfl

theorem deals_dispatch (s : Server) (client : ClientId) (peer : Peer)
    (r : Except WireError Message) : Deals s (s.dispatch client peer r).1 := by
  have hdrop : ∀ report : LogEvent, Deals s ((s.log report).dropClient client) := fun report =>
    .nothing (deals_dropClient _ client).1 (deals_dropClient _ client).2
  rcases r with e | m
  · exact hdrop _
  · cases m with
    | ping => exact .nothing (deals_reply _ _ _).1 (deals_reply _ _ _).2
    | stop => exact .nothing rfl rfl
    | request spec => exact .nothing rfl rfl
    | release id => exact deals_release s client id
    | ok => exact hdrop _
    | error n => exact hdrop _
    | reqOk id => exact hdrop _

theorem Begins.deals {job : Option Job} (h : Begins s e t job) : Deals s t := by
  cases h with
  | accepted _ =>
      exact .nothing s.reception.requests s.reception.device
  | signalled _ =>
      unfold takeSignals
      split <;> exact .nothing rfl rfl
  | timed _ =>
      unfold takeExpiry
      split
      · exact .nothing rfl rfl
      · dsimp only
        split <;> exact .nothing rfl rfl
  | @heard id session r hs hr =>
      exact (deals_dispatch (s.afterReading id session r) id session.peer r).of_same rfl rfl
  | left report _ _ _ _ _ => exact .nothing (deals_dropClient _ _).1 (deals_dropClient _ _).2
  | nothing _ _ => exact .nothing rfl rfl
  | stray _ => exact .nothing rfl rfl

theorem deals_updateIdle (h : s.updateIdle = .ok t) : Deals s t := by
  unfold updateIdle at h
  split at h
  · cases h
  · cases h
    exact .nothing rfl rfl
  · cases h
    exact .nothing rfl rfl
  · cases h
    exact .nothing rfl rfl

theorem journal_foldl (s : Server) (es : List (RequestId × Held Nat)) :
    (es.foldl releaseHeld s).device.journal =
      s.device.journal ++ es.map fun e => .released e.2.handle := by
  induction es generalizing s with
  | nil => exact (List.append_nil _).symm
  | cons e es ih =>
      rw [List.foldl_cons, ih, List.map_cons, List.append_cons]
      rfl

theorem device_dropAll (s : Server) (ids : List ClientId) :
    (ids.foldl dropClient s).device = s.device := by
  induction ids generalizing s with
  | nil => rfl
  | cons id ids ih => rw [List.foldl_cons, ih, (deals_dropClient s id).2]

/-- At the end the device sees the handles of all records closed, in the order of the records. -/
theorem journal_drain (s : Server) (why : Stop) :
    (s.drain why).device.journal = s.device.journal ++
      s.requests.records.map fun e => .released e.2.handle := by
  have hreleased : ((((s.log (.exiting s.sessions.length s.requests.length)).stopListening
      |>.releaseAll).dropAllBut why.stopper?)).device.journal = s.device.journal ++
        s.requests.records.map fun e => .released e.2.handle := by
    rw [dropAllBut, device_dropAll]
    exact journal_foldl _ _
  unfold drain
  dsimp only
  split
  · rw [← hreleased]
    show (((_ : Server).reply _ _).dropClient _).device.journal = _
    rw [(deals_dropClient _ _).2, (deals_reply _ _ _).2]
  · exact hreleased

theorem deals_drain (s : Server) (why : Stop) : Deals s (s.drain why) :=
  .emptied (emptied_drain s why).records (emptied_drain s why).issued (journal_drain s why)

end Deals

end Server

/-- Every handle that was given out either is that of a record or was closed, once, and no other
one was closed. -/
structure Accounted (r : Requests Nat) (d : Device) : Prop where
  given : d.given = List.range' 1 d.issued
  settled : (d.closed ++ r.records.map fun e => e.2.handle).Perm d.given

namespace Accounted

variable {r r' : Requests Nat} {d d' : Device} {id : RequestId} {held : Held Nat}

theorem start (chips : Chips) : Accounted Requests.empty (Device.ofChips chips) :=
  ⟨rfl, List.Perm.refl _⟩

theorem of_same (h : Accounted r d) (hrequests : r' = r) (hissued : d'.issued = d.issued)
    (hgiven : d'.given = d.given) (hclosed : d'.closed = d.closed) : Accounted r' d' := by
  subst hrequests
  constructor
  · rw [hgiven, hissued]
    exact h.given
  · rw [hgiven, hclosed]
    exact h.settled

theorem remove (h : Accounted r d) (hsorted : r.Sorted) (hget : r.get? id = some held) :
    Accounted (r.remove id) (d.release held.handle) := by
  constructor
  · rw [Device.given_release]
    exact h.given
  · rw [Device.given_release, Device.closed_release, List.append_assoc]
    refine List.Perm.trans ?_ h.settled
    have hhandles := (Requests.records_perm_remove hsorted hget).map fun e => e.2.handle
    exact hhandles.symm.append_left _

/-- A handle that was just given out goes to a new record; the handle of a record that is displaced
is closed. -/
theorem insert (h : Accounted r d) (hsorted : r.Sorted) (job : Job)
    (hok : (d.request job.spec).1 = .ok (d.issued + 1)) :
    Accounted (r.insert (job.held (d.issued + 1))).2
      (r.closing (RequestId.numbered (r.issued + 1)) (d.request job.spec).2) := by
  obtain ⟨hgiven, hclosed⟩ := Device.journal_request_of_ok hok
  have hissued := Device.issued_request_of_ok hok
  set id := RequestId.numbered (r.issued + 1) with hid
  have hrecords := (Requests.insert_records_perm hsorted (job.held (d.issued + 1))).map
    fun e => e.2.handle
  -- What the closing of a displaced handle does depends on the table, not on the device.
  have hsame : (r.closing id (d.request job.spec).2).given = (d.request job.spec).2.given ∧
      ((r.closing id (d.request job.spec).2).closed ++
        (r.remove id).records.map fun e => e.2.handle).Perm
          (d.closed ++ r.records.map fun e => e.2.handle) := by
    unfold Requests.closing
    cases hget : r.get? id with
    | none =>
        rw [Requests.remove_of_none hget]
        exact ⟨rfl, hclosed ▸ List.Perm.refl _⟩
    | some held =>
        refine ⟨Device.given_release _ _, ?_⟩
        have hhandles := (Requests.records_perm_remove hsorted hget).map fun e => e.2.handle
        show ((Device.release _ _).closed ++ _).Perm _
        rw [Device.closed_release, hclosed, List.append_assoc]
        exact hhandles.symm.append_left _
  constructor
  · rw [hsame.1, hgiven, Requests.issued_closing, hissued, h.given, List.range'_concat,
      Nat.one_mul, Nat.add_comm]
  · rw [hsame.1, hgiven]
    refine ((hrecords.append_left _).trans ?_).trans (List.perm_append_singleton _ _).symm
    refine List.perm_middle.trans ((hsame.2.trans h.settled).cons _)

theorem empty_of_closed (h : Accounted r d) (hrecords : r'.records = [])
    (hissued : d'.issued = d.issued)
    (hjournal : d'.journal = d.journal ++ r.records.map fun e => .released e.2.handle) :
    Accounted r' d' := by
  have hgiven : d'.given = d.given := by
    have hnone : (r.records.map fun e => DeviceCall.released e.2.handle).filterMap
        DeviceCall.granted? = [] := by
      rw [List.filterMap_map]
      exact List.filterMap_eq_nil_iff.mpr fun _ _ => rfl
    rw [Device.given, hjournal, List.filterMap_append, hnone, List.append_nil, Device.given]
  have hclosed : d'.closed = d.closed ++ r.records.map fun e => e.2.handle := by
    have hall : (r.records.map fun e => DeviceCall.released e.2.handle).filterMap
        DeviceCall.released? = r.records.map fun e => e.2.handle := by
      rw [List.filterMap_map]
      exact congrFun List.filterMap_eq_map _
    rw [Device.closed, hjournal, List.filterMap_append, hall, Device.closed]
  constructor
  · rw [hgiven, hissued]
    exact h.given
  · rw [hgiven, hclosed, hrecords, List.map_nil, List.append_nil]
    exact h.settled

end Accounted

namespace Loop

open Server

variable {l m : Loop} {chips : Chips} {period : Nat}

theorem deals_step (l : Loop) : Deals l.server l.step.server := by
  obtain hm | ⟨job, -, -, -, hm⟩ | ⟨-, -, -, hm⟩ | ⟨e, es, -, -, -, -, hm⟩ |
      ⟨e, es, -, -, -, -, hbegins, -⟩ | ⟨why, -, -, -, -, hm⟩ |
      ⟨s, -, -, -, -, hupdate, hm⟩ | ⟨e, -, -, -, -, -, hm⟩ := l.steps
  · rw [hm]
    exact .nothing rfl rfl
  · rw [hm]
    exact deals_finish _ job
  · rw [hm]
    exact .nothing rfl rfl
  · rw [hm]
    exact .nothing rfl rfl
  · exact hbegins.deals
  · rw [hm]
    exact deals_drain _ why
  · rw [hm]
    exact deals_updateIdle hupdate
  · rw [hm]
    exact .nothing rfl rfl

theorem Reachable.accounted (h : Reachable chips period l) :
    Accounted l.server.requests l.server.device := by
  induction h with
  | refl => exact Accounted.start chips
  | @tail a b hrun hstep ih =>
      have hsorted := (Reachable.balanced hrun).sorted
      cases hstep with
      | surround w => exact ih.of_same rfl rfl rfl rfl
      | step =>
          cases deals_step a with
          | nothing hrequests hdevice =>
              rw [hrequests, hdevice]
              exact ih
          | refused spec e herror hrequests hdevice =>
              obtain ⟨hgiven, hclosed⟩ := Device.journal_request_of_error herror
              rw [hdevice]
              exact ih.of_same hrequests (Device.request_snd_of_error herror).2 hgiven hclosed
          | granted job hok hrequests hdevice =>
              rw [hrequests, hdevice]
              exact ih.insert hsorted job hok
          | gaveBack id held hget hrequests hdevice =>
              rw [hrequests, hdevice]
              exact ih.remove hsorted hget
          | emptied hrecords hissued hjournal =>
              exact ih.empty_of_closed hrecords hissued hjournal

end Loop
end LineKeeper
