import LineKeeper.Proofs.Retention
import LineKeeper.Proofs.Steps
import LineKeeper.Proofs.TimerSteps

/-!
# What carrying out a message does to the books

The books of a server are its records with their counter, and what the device holds.  A REQUEST
and a RELEASE are each answered in one of two ways, and `Books` says what the books are then.

**Verdicts.**  Whether the device grants a line request depends on the chips and on whether the
lines that are asked for are free, and on nothing else (`Device.verdict_congr`).

**Fresh identifiers.**  The counter of the identifiers has 64 bits, so the next identifier can
only be one that a record has if that record was granted `2 ^ 64` grants ago
(`Numbered.displaces_later`).

**Results.**
* `Server.books_carryOut`: what carrying out a REQUEST or a RELEASE does to the books.
* `Server.carryOut_eq_reply`: what it does to the clients is a reply.
-/

namespace LineKeeper

/-- Removing a record does not matter for what is found under other identifiers. -/
theorem Requests.get?_remove {η : Type} {r : Requests η} {id other : RequestId}
    (hne : other ≠ id) : (r.remove id).get? other = r.get? other := by
  simp only [get?, remove, List.find?_filter]
  congr 2
  funext e
  by_cases he : e.1 = other
  · simp [he, hne]
  · simp [he]

theorem Requests.closing_of_none {r : Requests Nat} {id : RequestId} {d : Device}
    (h : r.get? id = none) : r.closing id d = d := by
  rw [closing, h]

/-- A message that asks for lines, or gives them back. -/
inductive Message.IsOrder : Message → Prop
  | request (spec : LineSpec) : IsOrder (.request spec)
  | release (id : RequestId) : IsOrder (.release id)

/-- The lines that are asked for, each with its chip. -/
def LineSpec.lines (spec : LineSpec) : List (String × UInt32) :=
  spec.offsets.list.map fun o => (spec.chipPath.text, o)

namespace Device

variable {d d' : Device} {spec : LineSpec} {e : Errno}

section Verdicts

/-- Why a client's request is refused, if it is. -/
def verdict (d : Device) (spec : LineSpec) : Option Errno :=
  match (d.request spec).1 with
  | .ok _ => none
  | .error e => some e

theorem chips_request (d : Device) (spec : LineSpec) : (d.request spec).2.chips = d.chips := by
  simp only [request]
  split
  · rfl
  · rw [ask_eq]
    split <;> rfl

theorem request_of_refused (h : d.verdict spec = some e) :
    (d.request spec).1 = .error e ∧ (d.request spec).2.grants = d.grants ∧
      (d.request spec).2.issued = d.issued := by
  have herror : (d.request spec).1 = .error e := by
    rw [verdict] at h
    split at h
    · cases h
    · next heq =>
      cases h
      exact heq
  exact ⟨herror, request_snd_of_error herror⟩

theorem request_of_granted (h : d.verdict spec = none) :
    (d.request spec).1 = .ok (d.issued + 1) ∧
      (d.request spec).2.grants = d.grants ++ [spec.grant (d.issued + 1)] ∧
      (d.request spec).2.issued = d.issued + 1 := by
  rcases d.request_cases spec with ⟨e, herror, -, -⟩ | ⟨hok, hgrants, hissued, -⟩
  · rw [verdict, herror] at h
    cases h
  · exact ⟨hok, hgrants, hissued⟩

/-- **The device decides by its chips and by whether the lines that are asked for are free.** -/
theorem verdict_congr (hchips : d'.chips = d.chips)
    (hlines : ∀ line ∈ spec.lines, line ∈ d'.lines ↔ line ∈ d.lines) :
    d'.verdict spec = d.verdict spec := by
  have hheld : ∀ o ∈ spec.offsets.list,
      d'.isHeld spec.chipPath.text o = d.isHeld spec.chipPath.text o := by
    intro o ho
    rw [Bool.eq_iff_iff, isHeld_iff, isHeld_iff]
    exact hlines _ (List.mem_map_of_mem ho)
  have hrefusal : ∀ chip, d'.refusal? chip (LineRequest.ofSpec spec) =
      d.refusal? chip (LineRequest.ofSpec spec) := by
    intro chip
    have hany : ((LineRequest.ofSpec spec).offsets.any fun o =>
          chip.busy.contains o || d'.isHeld spec.chipPath.text o) =
        (LineRequest.ofSpec spec).offsets.any fun o =>
          chip.busy.contains o || d.isHeld spec.chipPath.text o := by
      rw [Bool.eq_iff_iff, List.any_eq_true, List.any_eq_true]
      refine exists_congr fun o => and_congr_right fun ho => ?_
      rw [hheld o ho]
    unfold refusal?
    rw [show (LineRequest.ofSpec spec).chip = spec.chipPath.text from rfl, hany]
  have hopen : d'.openFor spec = d.openFor spec := by
    rw [openFor_eq, openFor_eq, hchips]
  simp only [verdict, request, hopen]
  cases d.openFor spec with
  | error e => rfl
  | ok chip =>
      simp only [ask_eq, hrefusal]
      cases d.refusal? chip (LineRequest.ofSpec spec) <;> rfl

end Verdicts

section Closing

/-- Lines that a grant does not cover are as free as before once its handle is closed. -/
theorem mem_lines_release (hd : d.Sound) {g : Grant} (hg : g ∈ d.grants)
    {line : String × UInt32} (hline : line ∉ g.lines) :
    line ∈ (d.release g.handle).lines ↔ line ∈ d.lines := by
  rw [(hd.lines_release hg).mem_iff, List.mem_append]
  exact ⟨.inr, fun h => h.resolve_left hline⟩

/-- Lines of a device are those of its grants. -/
theorem mem_lines_congr (h : d'.grants = d.grants) (line : String × UInt32) :
    line ∈ d'.lines ↔ line ∈ d.lines := by
  rw [lines, h, lines]

end Closing

end Device

/-- A number that the counter comes to in `k` grants can only be that of a record if it was granted
before the counter came around. -/
theorem Numbered.displaces_later {r : Requests Nat} {d : Device} {id : RequestId}
    {held : Held Nat} {k : Nat} (hr : Balanced r d) (hn : Numbered r d)
    (hget : r.get? id = some held) (hk : 0 < k)
    (hid : id = RequestId.numbered (r.issued + UInt64.ofNat k)) :
    held.handle + 2 ^ 64 ≤ d.issued + k := by
  have hmem := Requests.mem_of_get? hget
  have hold : held.handle ≤ d.issued := hr.sound.issued held.grant (hr.grant_mem hmem)
  have hnumber : UInt64.ofNat held.handle = UInt64.ofNat (d.issued + k) := by
    apply RequestId.numbered_injective
    rw [← hn.named _ hmem, UInt64.ofNat_add, ← hn.counter]
    exact hid
  have hmod : held.handle % 2 ^ 64 = (d.issued + k) % 2 ^ 64 := by
    have htoNat := congrArg UInt64.toNat hnumber
    rwa [UInt64.toNat_ofNat', UInt64.toNat_ofNat'] at htoNat
  omega

namespace Server

variable {s t u : Server} {client : ClientId} {peer : Peer} {m r : Message} {spec : LineSpec}
  {id : RequestId}

section Carrying

/-- Does what a message asks for, and answers it. -/
def carryOut (s : Server) (client : ClientId) (peer : Peer) (m : Message) : Server :=
  match s.dispatch client peer (.ok m) with
  | (s, none) => s
  | (s, some job) => s.finish job

/-- An event that brings a message is handled by carrying it out. -/
theorem handle_of_hears? {e : Readiness} (h : s.hears? e = some (client, .ok m)) :
    ∃ session, s.sessions.get? client = some session ∧
      s.handle e = (s.afterReading client session (.ok m)).carryOut client session.peer m := by
  obtain ⟨session, hs, hbegin⟩ := begin_of_hears? h
  refine ⟨session, hs, ?_⟩
  rw [handle, hbegin]
  rfl

/-- The requests and what they hold are the same. -/
structure SameBooks (s t : Server) : Prop where
  requests : t.requests = s.requests
  grants : t.device.grants = s.device.grants
  issued : t.device.issued = s.device.issued
  chips : t.device.chips = s.device.chips

theorem sameBooks_dropClient (s : Server) (id : ClientId) : SameBooks s (s.dropClient id) := by
  unfold dropClient
  split <;> exact ⟨rfl, rfl, rfl, rfl⟩

theorem sameBooks_reply (s : Server) (id : ClientId) (m : Message) :
    SameBooks s (s.reply id m) := by
  unfold reply
  split
  · exact ⟨rfl, rfl, rfl, rfl⟩
  · split
    · exact ⟨rfl, rfl, rfl, rfl⟩
    · next e _ =>
      have hdropped := sameBooks_dropClient (s.log (.sendFailed e)) id
      exact ⟨hdropped.requests, hdropped.grants, hdropped.issued, hdropped.chips⟩

/-- The books after a line request was granted, if no record had the next identifier. -/
structure Grants (s : Server) (owner : Int32) (spec : LineSpec) (t : Server) : Prop where
  requests : t.requests = (s.requests.insert
    ⟨s.device.issued + 1, spec.chipPath.text, spec.offsets.list, owner⟩).2
  grants : t.device.grants = s.device.grants ++ [spec.grant (s.device.issued + 1)]
  issued : t.device.issued = s.device.issued + 1
  chips : t.device.chips = s.device.chips

/-- The books after a record was released. -/
structure Frees (s : Server) (id : RequestId) (held : Held Nat) (t : Server) : Prop where
  requests : t.requests = s.requests.remove id
  grants : t.device.grants = (s.device.release held.handle).grants
  issued : t.device.issued = s.device.issued
  chips : t.device.chips = s.device.chips

/-- What carrying out a message does to the books, and what is answered. -/
inductive Books (s : Server) (owner : Int32) : Message → Message → Server → Prop
  | refused {t : Server} (spec : LineSpec) (e : Errno)
      (hverdict : s.device.verdict spec = some e) (h : SameBooks s t) :
      Books s owner (.request spec) (.error e) t
  | granted {t : Server} (spec : LineSpec) (hverdict : s.device.verdict spec = none)
      (h : Grants s owner spec t) :
      Books s owner (.request spec) (.reqOk (RequestId.numbered (s.requests.issued + 1))) t
  | unknown {t : Server} (id : RequestId) (hnone : s.requests.get? id = none)
      (h : SameBooks s t) : Books s owner (.release id) (.error Errno.noEntry) t
  | gaveBack {t : Server} (id : RequestId) (held : Held Nat)
      (hget : s.requests.get? id = some held) (h : Frees s id held t) :
      Books s owner (.release id) .ok t

theorem books_finish (hfresh : s.requests.get? (RequestId.numbered (s.requests.issued + 1)) = none)
    (job : Job) :
    ∃ r, s.respond (.request job.spec) = some r ∧
      Books s job.owner (.request job.spec) r (s.finish job) := by
  cases hverdict : s.device.verdict job.spec with
  | some e =>
      obtain ⟨herror, hgrants, hissued⟩ := Device.request_of_refused hverdict
      refine ⟨.error e, by simp only [respond, herror], .refused _ e hverdict ?_⟩
      simp only [finish_eq, herror]
      have hreply := sameBooks_reply
        ((s.withDevice (s.device.request job.spec).2).log (.refused e)) job.client (.error e)
      exact ⟨hreply.requests, hreply.grants.trans hgrants, hreply.issued.trans hissued,
        hreply.chips.trans (s.device.chips_request job.spec)⟩
  | none =>
      obtain ⟨hok, hgrants, hissued⟩ := Device.request_of_granted hverdict
      refine ⟨.reqOk (RequestId.numbered (s.requests.issued + 1)),
        by simp only [respond, hok], ?_⟩
      have hdevice : ((s.withDevice (s.device.request job.spec).2).displace
          (RequestId.numbered (s.requests.issued + 1))).device =
            (s.device.request job.spec).2 :=
        (device_displace _ _).trans (Requests.closing_of_none hfresh)
      have hreply := sameBooks_reply (log { (s.withDevice (s.device.request job.spec).2).displace
          (RequestId.numbered (s.requests.issued + 1)) with
        requests := (s.requests.insert (job.held (s.device.issued + 1))).2 }
          (.granted (RequestId.numbered (s.requests.issued + 1)) job.spec.chipPath.text
            job.spec.offsets.list)) job.client
          (.reqOk (RequestId.numbered (s.requests.issued + 1)))
      simp only [finish_eq, hok]
      exact .granted _ hverdict ⟨hreply.requests,
        hreply.grants.trans ((congrArg Device.grants hdevice).trans hgrants),
        hreply.issued.trans ((congrArg Device.issued hdevice).trans hissued),
        hreply.chips.trans ((congrArg Device.chips hdevice).trans
          (s.device.chips_request job.spec))⟩

theorem books_release (s : Server) (client : ClientId) (id : RequestId) (owner : Int32) :
    ∃ r, s.respond (.release id) = some r ∧
      Books s owner (.release id) r (s.release client id) := by
  cases hget : s.requests.get? id with
  | none =>
      refine ⟨.error Errno.noEntry, ?_, ?_⟩
      · simp only [respond, hget, Option.isSome_none, Bool.false_eq_true, if_false]
      · have hreply := sameBooks_reply (s.log (.unknownRequest id)) client
          (.error Errno.noEntry)
        simp only [release, hget]
        exact .unknown id hget
          ⟨hreply.requests, hreply.grants, hreply.issued, hreply.chips⟩
  | some held =>
      refine ⟨.ok, ?_, ?_⟩
      · simp only [respond, hget, Option.isSome_some, if_true]
      · have hreply := sameBooks_reply ((({ s with requests := s.requests.remove id }).log
          (.released id held.chipPath held.offsets)).withDevice
            (s.device.release held.handle)) client .ok
        simp only [release, hget]
        exact .gaveBack id held hget
          ⟨hreply.requests, hreply.grants, hreply.issued, hreply.chips⟩

theorem books_carryOut
    (hfresh : s.requests.get? (RequestId.numbered (s.requests.issued + 1)) = none)
    (client : ClientId) (peer : Peer) (hm : m.IsOrder) :
    ∃ r, s.respond m = some r ∧ Books s peer.pid m r (s.carryOut client peer m) := by
  cases hm with
  | request spec =>
      obtain ⟨r, hr, hbooks⟩ := books_finish (s := s.log (.handling _ _ _)) hfresh
        ⟨client, peer.pid, spec⟩
      refine ⟨r, hr, ?_⟩
      cases hbooks with
      | refused _ e hverdict h => exact .refused spec e hverdict ⟨h.1, h.2, h.3, h.4⟩
      | granted _ hverdict h => exact .granted spec hverdict ⟨h.1, h.2, h.3, h.4⟩
  | release id => exact books_release s client id peer.pid

theorem Books.of_refused {owner : Int32} {e : Errno} (h : Books s owner (.request spec) r t)
    (hverdict : s.device.verdict spec = some e) : r = .error e ∧ SameBooks s t := by
  cases h with
  | refused _ e' hrefused hsame =>
      cases hverdict.symm.trans hrefused
      exact ⟨rfl, hsame⟩
  | granted _ hgranted _ => cases hverdict.symm.trans hgranted

theorem Books.of_granted {owner : Int32} (h : Books s owner (.request spec) r t)
    (hverdict : s.device.verdict spec = none) :
    r = .reqOk (RequestId.numbered (s.requests.issued + 1)) ∧ Grants s owner spec t := by
  cases h with
  | refused _ e' hrefused _ => cases hverdict.symm.trans hrefused
  | granted _ _ hgrants => exact ⟨rfl, hgrants⟩

theorem Books.of_unknown {owner : Int32} (h : Books s owner (.release id) r t)
    (hnone : s.requests.get? id = none) : r = .error Errno.noEntry ∧ SameBooks s t := by
  cases h with
  | unknown _ _ hsame => exact ⟨rfl, hsame⟩
  | gaveBack _ held hget _ => cases hnone.symm.trans hget

theorem Books.of_known {owner : Int32} {held : Held Nat} (h : Books s owner (.release id) r t)
    (hget : s.requests.get? id = some held) : r = .ok ∧ Frees s id held t := by
  cases h with
  | unknown _ hnone _ => cases hnone.symm.trans hget
  | gaveBack _ held' hget' hfrees =>
      cases hget.symm.trans hget'
      exact ⟨rfl, hfrees⟩

/-- What carrying out a message does to the clients is a reply to the one who sent it. -/
theorem carryOut_eq_reply (s : Server) (client : ClientId) (peer : Peer) (hm : m.IsOrder) :
    ∃ u r, SameClients s u ∧ s.respond m = some r ∧ s.carryOut client peer m = u.reply client r := by
  cases hm with
  | request spec =>
      obtain ⟨u, r, hsame, hr, hfinish⟩ := (s.log (.handling spec.chipPath.text
        spec.offsets.list spec.output)).finish_eq_reply ⟨client, peer.pid, spec⟩
      exact ⟨u, r, (sameClients_log s _).trans hsame, hr, hfinish⟩
  | release id => exact s.release_eq_reply client id

theorem sameTimer_carryOut (s : Server) (client : ClientId) (peer : Peer) (hm : m.IsOrder) :
    SameTimer s (s.carryOut client peer m) := by
  cases hm with
  | request spec => exact (sameTimer_log s _).trans (sameTimer_finish _ _)
  | release id => exact sameTimer_release s client id

end Carrying

end Server

end LineKeeper
