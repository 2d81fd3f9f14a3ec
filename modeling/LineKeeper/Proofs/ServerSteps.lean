import LineKeeper.Proofs.Acceptance
import LineKeeper.Proofs.DeviceLines

/-!
# What the handlers of the server do to its records and lines

Most of what the server does concerns its sessions, its timer and its log.  Such a
step is `Quiet`: the held requests stay as they are, the device keeps its grants,
and the trace only grows.  Only four things are not quiet:

* a RELEASE of an identifier that has a record (`GaveBack`);
* a line request that the device grants (`Granted`);
* the end of a server that stops (`Emptied`).

The inversions `begin_cases`, `finish_cases` and `drain_emptied` say which handler
can do which of these, and everything that it then does.
-/

namespace LineKeeper

/-- What the device holds for a record. -/
def Held.grant (held : Held Nat) : Grant :=
  ⟨held.handle, held.chipPath, held.offsets⟩

/-- The record that is made when a line request was granted under a handle. -/
def Job.held (job : Job) (handle : Nat) : Held Nat :=
  ⟨handle, job.spec.chipPath.text, job.spec.offsets.list, job.owner⟩

/-- The device after the handle of the record under an identifier was closed, if there is one. -/
def Requests.closing (r : Requests Nat) (id : RequestId) (d : Device) : Device :=
  match r.get? id with
  | none => d
  | some held => d.release held.handle

theorem Requests.issued_closing (r : Requests Nat) (id : RequestId) (d : Device) :
    (r.closing id d).issued = d.issued := by
  unfold closing
  cases r.get? id with
  | none => rfl
  | some held => rfl

namespace Server

variable {s t u : Server}

section Quiet

/-- A step that touches no record and no line. -/
structure Quiet (s t : Server) : Prop where
  requests : t.requests = s.requests
  grants : t.device.grants = s.device.grants
  issued : t.device.issued = s.device.issued
  trace : s.trace <+: t.trace

theorem Quiet.refl (s : Server) : Quiet s s :=
  ⟨rfl, rfl, rfl, List.prefix_refl _⟩

theorem Quiet.trans (h : Quiet s t) (h' : Quiet t u) : Quiet s u where
  requests := h'.requests.trans h.requests
  grants := h'.grants.trans h.grants
  issued := h'.issued.trans h.issued
  trace := h.trace.trans h'.trace

theorem quiet_record (s : Server) (e : Effect) : Quiet s (s.record e) :=
  ⟨rfl, rfl, rfl, List.prefix_append _ _⟩

theorem quiet_log (s : Server) (e : LogEvent) : Quiet s (s.log e) :=
  quiet_record s _

theorem quiet_dropClient (s : Server) (id : ClientId) : Quiet s (s.dropClient id) := by
  unfold dropClient
  split
  · exact Quiet.refl s
  · refine ⟨rfl, rfl, rfl, ?_⟩
    simp only [record, log, List.append_assoc]
    exact List.prefix_append _ _

theorem quiet_reply (s : Server) (id : ClientId) (m : Message) : Quiet s (s.reply id m) := by
  unfold reply
  split
  · exact Quiet.refl s
  · split
    · exact ⟨rfl, rfl, rfl, List.prefix_append _ _⟩
    · exact (quiet_log s _).trans (quiet_dropClient _ id)

theorem quiet_accept (s : Server) : Quiet s s.accept where
  requests := s.reception.requests
  grants := congrArg Device.grants s.reception.device
  issued := congrArg Device.issued s.reception.device
  trace := s.accepts.trace

theorem quiet_takeSignals (s : Server) : Quiet s s.takeSignals := by
  unfold takeSignals
  split
  · exact ⟨rfl, rfl, rfl, List.prefix_refl _⟩
  · exact ⟨rfl, rfl, rfl, List.prefix_append _ _⟩

theorem quiet_takeExpiry (s : Server) : Quiet s s.takeExpiry := by
  unfold takeExpiry
  split
  · exact ⟨rfl, rfl, rfl, List.prefix_refl _⟩
  · dsimp only
    split
    · exact ⟨rfl, rfl, rfl, List.prefix_append _ _⟩
    · exact ⟨rfl, rfl, rfl, List.prefix_refl _⟩

theorem quiet_updateIdle {s t : Server} (h : s.updateIdle = .ok t) : Quiet s t := by
  unfold updateIdle at h
  split at h
  · cases h
  · cases h
    exact ⟨rfl, rfl, rfl, List.prefix_append _ _⟩
  · cases h
    exact ⟨rfl, rfl, rfl, List.prefix_append _ _⟩
  · cases h
    exact ⟨rfl, rfl, rfl, List.prefix_refl _⟩

theorem quiet_stopListening (s : Server) : Quiet s s.stopListening :=
  ⟨rfl, rfl, rfl, List.prefix_append _ _⟩

theorem quiet_dropAllBut (s : Server) (keep : Option ClientId) : Quiet s (s.dropAllBut keep) := by
  unfold dropAllBut
  generalize s.sessions.ids.filter _ = ids
  induction ids generalizing s with
  | nil =>
      exact Quiet.refl s
  | cons id ids ih =>
      exact (quiet_dropClient s id).trans (ih _)

end Quiet

section Events

/-- The record under `id` was removed and its handle closed, for a client's RELEASE. -/
structure GaveBack (client : ClientId) (id : RequestId) (held : Held Nat) (s t : Server) :
    Prop where
  found : s.requests.get? id = some held
  requests : t.requests = s.requests.remove id
  grants : t.device.grants = (s.device.release held.handle).grants
  issued : t.device.issued = s.device.issued
  trace : s.trace ++ [.read client (.ok (.release id))] <+: t.trace

theorem GaveBack.trans_quiet {client : ClientId} {id : RequestId} {held : Held Nat}
    (h : GaveBack client id held s t) (h' : Quiet t u) : GaveBack client id held s u where
  found := h.found
  requests := h'.requests.trans h.requests
  grants := h'.grants.trans h.grants
  issued := h'.issued.trans h.issued
  trace := h.trace.trans h'.trace

theorem quiet_release_of_none {client : ClientId} {id : RequestId}
    (h : s.requests.get? id = none) : Quiet s (s.release client id) := by
  simp only [release, h]
  exact (quiet_log s _).trans (quiet_reply _ _ _)

theorem gaveBack_release {client : ClientId} {id : RequestId} {held : Held Nat}
    (h : s.requests.get? id = some held) :
    GaveBack client id held s
      ((s.record (.read client (.ok (.release id)))).release client id) := by
  have hrecorded : (s.record (.read client (.ok (.release id)))).requests.get? id = some held := h
  simp only [release, hrecorded]
  refine GaveBack.trans_quiet ?_ (quiet_reply _ _ _)
  refine ⟨h, rfl, rfl, rfl, ?_⟩
  simp only [record, log, withDevice, List.append_assoc]
  rw [← List.append_assoc]
  exact List.prefix_append _ _

/-- A message that was read touches a record only if it is a RELEASE of its identifier. -/
theorem dispatch_cases (s : Server) (client : ClientId) (peer : Peer)
    (m : Except WireError Message) :
    let t := ((s.record (.read client m)).dispatch client peer m).1
    Quiet s t ∨ ∃ id held, GaveBack client id held s t := by
  have hread := quiet_record s (.read client m)
  rcases m with e | m
  · exact .inl ((hread.trans (quiet_log _ _)).trans (quiet_dropClient _ _))
  · cases m with
    | ping => exact .inl ((hread.trans (quiet_log _ _)).trans (quiet_reply _ _ _))
    | stop =>
        have hlog := hread.trans (quiet_log _ .stopRequested)
        exact .inl ⟨hlog.requests, hlog.grants, hlog.issued, hlog.trace⟩
    | request spec => exact .inl (hread.trans (quiet_log _ _))
    | release id =>
        cases hget : s.requests.get? id with
        | none => exact .inl (hread.trans (quiet_release_of_none hget))
        | some held => exact .inr ⟨id, held, gaveBack_release hget⟩
    | ok => exact .inl ((hread.trans (quiet_log _ _)).trans (quiet_dropClient _ _))
    | error n => exact .inl ((hread.trans (quiet_log _ _)).trans (quiet_dropClient _ _))
    | reqOk id => exact .inl ((hread.trans (quiet_log _ _)).trans (quiet_dropClient _ _))

theorem receive_cases (s : Server) (client : ClientId) (hungUp : Bool) :
    Quiet s (s.receive client hungUp).1 ∨
      ∃ id held, GaveBack client id held s (s.receive client hungUp).1 := by
  unfold receive
  split
  · exact .inl (Quiet.refl s)
  · next session _ =>
    dsimp only
    -- Reading changes the connections only.
    have hnet : Quiet s { s with net := (s.net.take session.link .server frameSize).2 } :=
      ⟨rfl, rfl, rfl, List.prefix_refl _⟩
    have hdrop : ∀ e : LogEvent, Quiet s
        (({ s with net := (s.net.take session.link .server frameSize).2 }.log e).dropClient
          client) :=
      fun e => (hnet.trans (quiet_log _ e)).trans (quiet_dropClient _ _)
    split
    · exact .inl (hdrop _)
    · split
      · exact .inl (hdrop _)
      · exact .inl hnet
    · exact .inl (hdrop _)
    · next bytes _ =>
      rcases dispatch_cases { s with net := (s.net.take session.link .server frameSize).2 }
          client session.peer (Message.decode bytes) with hquiet | ⟨id, held, hback⟩
      · exact .inl (hnet.trans hquiet)
      · exact .inr ⟨id, held, hback.found, hback.requests, hback.grants, hback.issued,
          hback.trace⟩

/-- What an event does to records and lines before a line request that it brings is carried out. -/
theorem begin_cases (s : Server) (e : Readiness) :
    Quiet s (s.begin e).1 ∨ ∃ client id held, GaveBack client id held s (s.begin e).1 := by
  unfold begin
  split
  · exact .inl (quiet_accept s)
  · exact .inl (quiet_takeSignals s)
  · exact .inl (quiet_takeExpiry s)
  · next client _ =>
    rcases receive_cases s client e.hungUp with hquiet | ⟨id, held, hback⟩
    · exact .inl hquiet
    · exact .inr ⟨client, id, held, hback⟩
  · exact .inl (quiet_log s _)

end Events

section Requests

/-- A line request was granted: the device holds its lines, and a new record has its handle.  A
record that stood under the new identifier is displaced, and its handle is closed. -/
structure Granted (job : Job) (s t : Server) : Prop where
  outcome : (s.device.request job.spec).1 = .ok (s.device.issued + 1)
  requests : t.requests = (s.requests.insert (job.held (s.device.issued + 1))).2
  grants : t.device.grants =
    (s.requests.closing (RequestId.numbered (s.requests.issued + 1))
      (s.device.request job.spec).2).grants
  issued : t.device.issued = s.device.issued + 1
  reported : ∃ before, s.trace <+: before ∧
    before ++ [.log (.granted (RequestId.numbered (s.requests.issued + 1))
      job.spec.chipPath.text job.spec.offsets.list)] <+: t.trace

theorem Granted.trans_quiet {job : Job} (h : Granted job s t) (h' : Quiet t u) :
    Granted job s u where
  outcome := h.outcome
  requests := h'.requests.trans h.requests
  grants := h'.grants.trans h.grants
  issued := h'.issued.trans h.issued
  reported := by
    obtain ⟨before, hbefore, hafter⟩ := h.reported
    exact ⟨before, hbefore, hafter.trans h'.trace⟩

theorem Granted.trace {job : Job} (h : Granted job s t) : s.trace <+: t.trace := by
  obtain ⟨before, hbefore, hafter⟩ := h.reported
  exact (hbefore.trans (List.prefix_append _ _)).trans hafter

theorem device_displace (s : Server) (id : RequestId) :
    (s.displace id).device = s.requests.closing id s.device := by
  unfold displace Requests.closing
  cases s.requests.get? id with
  | none => rfl
  | some held => rfl

theorem trace_displace (s : Server) (id : RequestId) : s.trace <+: (s.displace id).trace := by
  unfold displace
  split
  · exact List.prefix_refl _
  · exact List.prefix_append _ _

/-- Carrying out a line request that the device refuses touches nothing. -/
theorem quiet_finish {job : Job} {e : Errno} (h : (s.device.request job.spec).1 = .error e) :
    Quiet s (s.finish job) := by
  obtain ⟨hgrants, hissued⟩ := Device.request_snd_of_error h
  have hdevice : Quiet s (s.withDevice (s.device.request job.spec).2) :=
    ⟨rfl, hgrants, hissued, List.prefix_append _ _⟩
  simp only [finish_eq, h]
  exact (hdevice.trans (quiet_log _ _)).trans (quiet_reply _ _ _)

theorem granted_finish {job : Job} {handle : Nat}
    (h : (s.device.request job.spec).1 = .ok handle) : Granted job s (s.finish job) := by
  rcases s.device.request_cases job.spec with ⟨e, herror, -, -⟩ | ⟨hok, -, hissued, -⟩
  · rw [h] at herror
    cases herror
  · simp only [finish_eq, hok]
    refine Granted.trans_quiet ?_ (quiet_reply _ _ _)
    constructor
    · exact hok
    · rfl
    · exact congrArg Device.grants (device_displace _ _)
    · show (displace _ _).device.issued = _
      rw [device_displace, Requests.issued_closing]
      exact hissued
    · have hasked : s.trace <+: (s.withDevice (s.device.request job.spec).2).trace :=
        List.prefix_append _ _
      exact ⟨_, hasked.trans (trace_displace _ _), List.prefix_refl _⟩

end Requests

section Ending

/-- No record is left, and the handle of every record was closed. -/
structure Emptied (s t : Server) : Prop where
  records : t.requests.records = []
  counter : t.requests.issued = s.requests.issued
  grants : t.device.grants =
    s.device.grants.filter fun g => s.requests.records.all fun e => e.2.handle ≠ g.handle
  issued : t.device.issued = s.device.issued
  trace : s.trace <+: t.trace

theorem Emptied.trans_quiet (h : Emptied s t) (h' : Quiet t u) : Emptied s u where
  records := h'.requests ▸ h.records
  counter := h'.requests ▸ h.counter
  grants := h'.grants.trans h.grants
  issued := h'.issued.trans h.issued
  trace := h.trace.trans h'.trace

theorem Quiet.trans_emptied (h : Quiet s t) (h' : Emptied t u) : Emptied s u where
  records := h'.records
  counter := h'.counter.trans (congrArg Requests.issued h.requests)
  grants := by
    rw [h'.grants, h.grants, h.requests]
  issued := h'.issued.trans h.issued
  trace := h.trace.trans h'.trace

/-- Giving back the lines of some records closes exactly their handles. -/
theorem foldl_releaseHeld (s : Server) (es : List (RequestId × Held Nat)) :
    (es.foldl releaseHeld s).requests = s.requests ∧
    (es.foldl releaseHeld s).device.grants =
      s.device.grants.filter (fun g => es.all fun e => e.2.handle ≠ g.handle) ∧
    (es.foldl releaseHeld s).device.issued = s.device.issued ∧
    s.trace <+: (es.foldl releaseHeld s).trace := by
  induction es generalizing s with
  | nil =>
      refine ⟨rfl, ?_, rfl, List.prefix_refl _⟩
      simp
  | cons e es ih =>
      obtain ⟨hrequests, hgrants, hissued, htrace⟩ := ih (s.releaseHeld e)
      refine ⟨hrequests, ?_, hissued, List.IsPrefix.trans ?_ htrace⟩
      · rw [List.foldl_cons, hgrants]
        show List.filter _ (List.filter _ s.device.grants) = _
        rw [List.filter_filter]
        congr 1
        funext g
        simp only [List.all_cons, ne_eq, decide_not, Bool.and_comm, eq_comm]
      · simp only [releaseHeld, withDevice, log, record, List.append_assoc]
        exact List.prefix_append _ _

theorem emptied_releaseAll (s : Server) : Emptied s s.releaseAll := by
  obtain ⟨hrequests, hgrants, hissued, htrace⟩ :=
    foldl_releaseHeld { s with requests := s.requests.drain.2 } s.requests.records
  have hcounter := congrArg Requests.issued hrequests
  constructor
  · exact congrArg Requests.records hrequests
  · exact hcounter
  · exact hgrants
  · exact hissued
  · exact htrace

theorem emptied_drain (s : Server) (why : Stop) : Emptied s (s.drain why) := by
  have hbegin := (quiet_log s (.exiting s.sessions.length s.requests.length)).trans
    (quiet_stopListening _)
  have hdropped := (hbegin.trans_emptied (emptied_releaseAll _)).trans_quiet
    (quiet_dropAllBut _ why.stopper?)
  unfold drain
  dsimp only
  split
  · exact hdropped.trans_quiet
      (((quiet_reply _ _ _).trans (quiet_dropClient _ _)).trans (quiet_log _ _))
  · exact hdropped.trans_quiet (quiet_log _ _)

end Ending

end Server
end LineKeeper
