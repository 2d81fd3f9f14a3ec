import LineKeeper.Proofs.Ownership

/-!
# A granted request stays until it is released

Lines are requested so that they outlive the client.  Once a request was granted,
its record stays under its identifier, and the device keeps its lines, whatever the
clients do and whatever else the server handles.  Only two things end it: a RELEASE
of exactly this identifier, and the end of the server.

Identifiers are made from a counter of 64 bits.  `Numbered` says that the counter
follows the handles of the device and that every record is named after its handle.
A later record can therefore displace an earlier one only when the counter has come
around, after `2 ^ 64` more grants; `Change.keeps` says so for one step and
`Run.keeps` for a run.

**Result.** `Loop.Reachable.keeps_granted`.
-/

namespace LineKeeper

/-- Records are named after their handles. -/
structure Numbered (r : Requests Nat) (d : Device) : Prop where
  counter : r.issued = UInt64.ofNat d.issued
  named : ∀ e ∈ r.records, e.1 = RequestId.numbered (UInt64.ofNat e.2.handle)

/-- Records may go, but the counter stays with the handles. -/
theorem Numbered.of_subset {r r' : Requests Nat} {d d' : Device} (h : Numbered r d)
    (hrecords : r'.records ⊆ r.records) (hcounter : r'.issued = r.issued)
    (hissued : d'.issued = d.issued) : Numbered r' d' := by
  constructor
  · rw [hcounter, hissued]
    exact h.counter
  · intro e he
    exact h.named e (hrecords he)

namespace Loop

open Server

variable {l m n : Loop} {chips : Chips} {period : Nat} {id : RequestId} {held : Held Nat}

section Naming

theorem Change.numbered (h : Change l m)
    (hbalanced : Balanced l.server.requests l.server.device)
    (hl : Numbered l.server.requests l.server.device) :
    Numbered m.server.requests m.server.device := by
  cases h with
  | quiet h =>
      exact hl.of_subset (h.requests ▸ List.Subset.refl _) (congrArg _ h.requests) h.issued
  | gaveBack client id held h =>
      have hcounter := congrArg Requests.issued h.requests
      refine hl.of_subset ?_ hcounter h.issued
      rw [h.requests]
      exact List.filter_sublist.subset
  | granted job hjob h =>
      have hcounter : l.server.requests.issued + 1 = UInt64.ofNat (l.server.device.issued + 1) := by
        rw [hl.counter, UInt64.ofNat_add]
        rfl
      constructor
      · rw [h.requests, h.issued]
        exact hcounter
      · intro e he
        rw [h.requests] at he
        rcases (Requests.mem_insertRecord hbalanced.sorted).mp he with rfl | ⟨hold, -⟩
        · exact congrArg RequestId.numbered hcounter
        · exact hl.named e hold
  | emptied why hend h =>
      exact hl.of_subset (h.records ▸ List.nil_subset _) h.counter h.issued

theorem Reachable.numbered (h : Reachable chips period l) :
    Numbered l.server.requests l.server.device := by
  induction h with
  | refl =>
      constructor
      · rfl
      · intro e he
        cases he
  | tail hrun hstep ih =>
      exact hstep.change.numbered (Reachable.balanced hrun) ih

/-- An identifier is used again only when the counter has come around. -/
theorem Numbered.displaces {r : Requests Nat} {d : Device} (hr : Balanced r d)
    (hn : Numbered r d) (hget : r.get? id = some held)
    (hid : id = RequestId.numbered (r.issued + 1)) : held.handle + 2 ^ 64 ≤ d.issued + 1 := by
  have hmem := Requests.mem_of_get? hget
  have hold : held.handle ≤ d.issued := hr.sound.issued held.grant (hr.grant_mem hmem)
  have hnumber : UInt64.ofNat held.handle = UInt64.ofNat (d.issued + 1) := by
    apply RequestId.numbered_injective
    rw [← hn.named _ hmem, UInt64.ofNat_add, ← hn.counter]
    exact hid
  have hmod : held.handle % 2 ^ 64 = (d.issued + 1) % 2 ^ 64 := by
    have htoNat := congrArg UInt64.toNat hnumber
    rwa [UInt64.toNat_ofNat', UInt64.toNat_ofNat'] at htoNat
  omega

end Naming

section Keeping

/-- What the server did since `l`, as seen at `m`. -/
def news (l m : Loop) : List Effect :=
  m.server.trace.drop l.server.trace.length

/-- A RELEASE of the identifier was handled since `l`. -/
def ReleasedSince (l : Loop) (id : RequestId) (m : Loop) : Prop :=
  ∃ client, Effect.read client (.ok (.release id)) ∈ l.news m

/-- The server stopped, and all lines went back. -/
def Stopped (l : Loop) : Prop :=
  ∃ reason, l.ending = some (.stopped reason)

/-- One step keeps a record, unless it handles a RELEASE of its identifier, ends the server, or
brings the counter around to its number. -/
theorem Change.keeps (h : Change l m) (hbalanced : Balanced l.server.requests l.server.device)
    (hnumbered : Numbered l.server.requests l.server.device)
    (hget : l.server.requests.get? id = some held) :
    m.server.requests.get? id = some held ∨
      (∃ client, l.server.trace ++ [.read client (.ok (.release id))] <+: m.server.trace) ∨
      m.Stopped ∨ held.handle + 2 ^ 64 ≤ m.server.device.issued := by
  cases h with
  | quiet h =>
      left
      rw [h.requests]
      exact hget
  | gaveBack client other found h =>
      by_cases hid : id = other
      · subst hid
        exact .inr (.inl ⟨client, h.trace⟩)
      · left
        rw [h.requests]
        exact Requests.get?_remove_of_ne hbalanced.sorted hid hget
  | granted job hjob h =>
      by_cases hid : id = RequestId.numbered (l.server.requests.issued + 1)
      · right; right; right
        rw [h.issued]
        exact Numbered.displaces hbalanced hnumbered hget hid
      · left
        rw [h.requests]
        exact Requests.get?_insert_of_ne hbalanced.sorted _ hid hget
  | emptied why hend h =>
      exact .inr (.inr (.inl ⟨why.reason, hend⟩))

theorem Run.trace (h : Run l m) : l.server.trace <+: m.server.trace := by
  induction h with
  | refl => exact List.prefix_refl _
  | tail _ hstep ih => exact ih.trans hstep.change.trace

theorem Run.issued (h : Run l m) : l.server.device.issued ≤ m.server.device.issued := by
  induction h with
  | refl => exact Nat.le_refl _
  | tail _ hstep ih => exact Nat.le_trans ih hstep.change.issued

/-- What was added to a longer trace is news. -/
theorem mem_news {e : Effect} {before : List Effect} (hbefore : l.server.trace <+: before)
    (h : before ++ [e] <+: m.server.trace) : e ∈ l.news m := by
  obtain ⟨later, hlater⟩ := h
  have hlength := hbefore.length_le
  rw [news, ← hlater, List.append_assoc, List.drop_append_of_le_length hlength]
  simp

theorem ReleasedSince.later (h : ReleasedSince l id m) (hstep : Next m n) :
    ReleasedSince l id n := by
  obtain ⟨client, hmem⟩ := h
  obtain ⟨later, hlater⟩ := hstep.change.trace
  refine ⟨client, ?_⟩
  rw [news, ← hlater, List.drop_append]
  exact List.mem_append_left _ hmem

/-- A run keeps a record, unless it handles a RELEASE of its identifier, ends the server, or brings
the counter around to its number. -/
theorem Run.keeps (h : Run l m) (hl : Reachable chips period l)
    (hget : l.server.requests.get? id = some held) :
    m.server.requests.get? id = some held ∨ ReleasedSince l id m ∨ m.Stopped ∨
      held.handle + 2 ^ 64 ≤ m.server.device.issued := by
  induction h with
  | refl => exact .inl hget
  | @tail a b hrun hstep ih =>
      have ha : Reachable chips period a := Run.trans hl hrun
      rcases ih with hkept | hreleased | ⟨reason, hend⟩ | haround
      · rcases hstep.change.keeps ha.balanced ha.numbered hkept with
          hb | ⟨client, htrace⟩ | hstopped | haround
        · exact .inl hb
        · exact .inr (.inl ⟨client, mem_news (Run.trace hrun) htrace⟩)
        · exact .inr (.inr (.inl hstopped))
        · exact .inr (.inr (.inr haround))
      · exact .inr (.inl (hreleased.later hstep))
      · exact .inr (.inr (.inl ⟨reason, hstep.ending hend⟩))
      · exact .inr (.inr (.inr (Nat.le_trans haround hstep.change.issued)))

end Keeping

section Granting

/-- The next step carries out the line request that waits, and the device grants it. -/
structure GrantsNext (l : Loop) (job : Job) (handle : Nat) : Prop where
  running : l.ending = none
  passes : l.gateClosed = false
  waiting : l.job = some job
  outcome : (l.server.device.request job.spec).1 = .ok handle

theorem GrantsNext.granted {job : Job} {handle : Nat} (h : l.GrantsNext job handle) :
    Granted job l.server l.step.server := by
  have hstep : l.step.server = l.server.finish job := by
    simp only [step, h.running, h.waiting, h.passes, Option.isSome_none, Bool.false_and,
      Bool.false_eq_true, if_false]
    rfl
  rw [hstep]
  exact granted_finish h.outcome

/-- The record stands under the identifier, its handle is open, and its lines are held. -/
structure Keeps (l : Loop) (id : RequestId) (held : Held Nat) : Prop where
  record : l.server.requests.get? id = some held
  handle : ⟨held.handle, held.chipPath, held.offsets⟩ ∈ l.server.device.grants
  lines : ∀ o ∈ held.offsets, l.server.device.isHeld held.chipPath o = true

theorem Reachable.keeps (h : Reachable chips period l)
    (hget : l.server.requests.get? id = some held) : l.Keeps id held := by
  have hmem := Requests.mem_of_get? hget
  have hgrant := h.balanced.grant_mem hmem
  refine ⟨hget, hgrant, ?_⟩
  intro o ho
  rw [Device.isHeld_iff, Device.lines, List.mem_flatMap]
  exact ⟨held.grant, hgrant, Grant.mem_lines.mpr ⟨rfl, ho⟩⟩

/-- A request that is granted under an identifier stays under it, and its lines stay held, until a
RELEASE of this identifier is handled or the server stops.  Only after `2 ^ 64` more grants can
another request get the identifier. -/
theorem Reachable.keeps_granted {job : Job} {handle : Nat} (hl : Reachable chips period l)
    (hgrant : l.GrantsNext job handle) :
    let id := (l.server.requests.insert (job.held handle)).1
    Effect.log (.granted id job.spec.chipPath.text job.spec.offsets.list) ∈ l.news l.step ∧
      ∀ m, Run l.step m →
        m.Keeps id (job.held handle) ∨ l.step.ReleasedSince id m ∨ m.Stopped ∨
          l.step.server.device.issued + 2 ^ 64 ≤ m.server.device.issued := by
  intro id
  have hgranted := hgrant.granted
  have hhandle : handle = l.server.device.issued + 1 := by
    have hok := hgrant.outcome
    rw [hgranted.outcome] at hok
    exact (Except.ok.inj hok).symm
  subst hhandle
  refine ⟨?_, ?_⟩
  · obtain ⟨before, hbefore, hreported⟩ := hgranted.reported
    exact mem_news hbefore hreported
  · intro m hrun
    have hstep : Reachable chips period l.step := Run.trans hl (run_step l)
    have hget := Requests.get?_insert_self hl.balanced.sorted
      (job.held (l.server.device.issued + 1))
    rw [← hgranted.requests] at hget
    rcases hrun.keeps hstep hget with hkept | hreleased | hstopped | haround
    · exact .inl (Reachable.keeps (Run.trans hstep hrun) hkept)
    · exact .inr (.inl hreleased)
    · exact .inr (.inr (.inl hstopped))
    · right; right; right
      rw [hgranted.issued]
      exact haround

/-- A client has requested both lines of a chip, and the request is about to be carried out. -/
def borrower : Loop :=
  ((Scenario.start Chips.twoLines 0).run (.gate true :: Scenario.borrowing)).2.loop.gate false

/-- The request that waits at `borrower`. -/
def borrowersJob : Job :=
  borrower.job.get (by decide +kernel)

theorem borrower_keeps_granted :
    borrower.GrantsNext borrowersJob 1 ∧
      ∀ m, Run borrower.step m →
        m.Keeps (RequestId.numbered 1) (borrowersJob.held 1) ∨
          borrower.step.ReleasedSince (RequestId.numbered 1) m ∨ m.Stopped ∨
          1 + 2 ^ 64 ≤ m.server.device.issued := by
  have hreachable : Reachable Chips.twoLines 0 borrower :=
    Run.trans (Scenario.reachable_run Chips.twoLines 0 _) (run_gate _ _)
  have hgrants : borrower.GrantsNext borrowersJob 1 := by
    constructor
    · decide +kernel
    · rfl
    · exact (Option.some_get _).symm
    · decide +kernel
  have hcounter : borrower.server.requests.issued = 0 := by decide +kernel
  have hissued : borrower.step.server.device.issued = 1 := by decide +kernel
  have hkeeps := (Reachable.keeps_granted hreachable hgrants).2
  rw [Requests.insert_fst, hcounter, hissued] at hkeeps
  exact ⟨hgrants, hkeeps⟩

end Granting

end Loop
end LineKeeper
