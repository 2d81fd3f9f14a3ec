import Mathlib.Logic.Equiv.Basic
import LineKeeper.Proofs.Bookkeeping

/-!
# Independent requests in either order

Two messages that have nothing to do with each other can be handled in either order.  Each gets
the same answer, the same lines are held, and the records are the same, except that the next two
identifiers change places if both messages are line requests that are granted.

**Independence.**  Two line requests are independent if they have no line in common, two
RELEASEs if they are of different identifiers, and a line request and a RELEASE if the
identifier has a record and the record none of the lines (`Server.Independent`).

**Frames.**  A granted request makes only its own lines held, and a RELEASE frees only the lines
of its record; so what the device says to the other message is the same before and after
(`Device.verdict_congr`).  The counter of identifiers and that of handles are all that two granted
requests share.

**Result.** `Server.interchange_of_books`: the answers and the books, in either order.
-/

namespace LineKeeper

/-- New names for the identifiers of records and for the handles. -/
structure Renaming where
  ids : RequestId → RequestId
  handles : Nat → Nat

namespace Renaming

/-- Every name stays. -/
def none : Renaming :=
  ⟨id, id⟩

/-- A record under its new names. -/
def record (ρ : Renaming) (e : RequestId × Held Nat) : RequestId × Held Nat :=
  (ρ.ids e.1, { e.2 with handle := ρ.handles e.2.handle })

/-- A grant under its new handle. -/
def grant (ρ : Renaming) (g : Grant) : Grant :=
  { g with handle := ρ.handles g.handle }

/-- An answer with the new identifier, if it has one. -/
def answer (ρ : Renaming) : Message → Message
  | .reqOk id => .reqOk (ρ.ids id)
  | m => m

theorem record_none : none.record = id := rfl

theorem grant_none : none.grant = id := rfl

@[simp] theorem answer_none (m : Message) : none.answer m = m := by
  cases m <;> rfl

end Renaming

namespace Server

variable {s s₁ s₂ t u : Server} {ρ : Renaming} {x y ra rb ra' rb' : Message} {p q : Int32}
  {spec spec' : LineSpec} {id id' : RequestId} {held held' : Held Nat}

section Statements

/-- No message of the two can tell whether the other was handled before. -/
inductive Independent (s : Server) : Message → Message → Prop
  | requests (spec spec' : LineSpec) (h : spec.lines.Disjoint spec'.lines) :
      Independent s (.request spec) (.request spec')
  | releases (id id' : RequestId) (h : id ≠ id') : Independent s (.release id) (.release id')
  | requestRelease (spec : LineSpec) (id : RequestId) (held : Held Nat)
      (hget : s.requests.get? id = some held) (h : spec.lines.Disjoint held.grant.lines) :
      Independent s (.request spec) (.release id)
  | releaseRequest (id : RequestId) (held : Held Nat) (spec : LineSpec)
      (hget : s.requests.get? id = some held) (h : spec.lines.Disjoint held.grant.lines) :
      Independent s (.release id) (.request spec)

/-- The two next identifiers change places, and the two next handles. -/
def swapNext (s : Server) : Renaming where
  ids := Equiv.swap (RequestId.numbered (s.requests.issued + 1))
    (RequestId.numbered (s.requests.issued + 2))
  handles := Equiv.swap (s.device.issued + 1) (s.device.issued + 2)

/-- They do if both messages are line requests that the device grants, and no name changes
otherwise. -/
def exchange (s : Server) : Message → Message → Renaming
  | .request spec, .request spec' =>
      if s.device.verdict spec = none ∧ s.device.verdict spec' = none then s.swapNext else .none
  | _, _ => .none

/-- The books of two servers are the same but for names. -/
structure SameUpTo (ρ : Renaming) (t u : Server) : Prop where
  records : (t.requests.records.map ρ.record).Perm u.requests.records
  grants : (t.device.grants.map ρ.grant).Perm u.device.grants
  counter : t.requests.issued = u.requests.issued
  issued : t.device.issued = u.device.issued
  chips : t.device.chips = u.device.chips

/-- Neither of the next two identifiers is that of a record. -/
structure Fresh (s : Server) : Prop where
  next : s.requests.get? (RequestId.numbered (s.requests.issued + 1)) = none
  second : s.requests.get? (RequestId.numbered (s.requests.issued + 2)) = none

end Statements

section Renamings

/-- Names do not matter for which lines are held. -/
theorem SameUpTo.lines (h : SameUpTo ρ t u) : t.device.lines.Perm u.device.lines := by
  have hgrants := h.grants.flatMap_right Grant.lines
  rwa [List.flatMap_map] at hgrants

/-- Nor do they for what the records are for. -/
theorem SameUpTo.contents (h : SameUpTo ρ t u) :
    (t.requests.records.map fun e => (e.2.chipPath, e.2.offsets)).Perm
      (u.requests.records.map fun e => (e.2.chipPath, e.2.offsets)) := by
  have hrecords := h.records.map fun e => (e.2.chipPath, e.2.offsets)
  rwa [List.map_map] at hrecords

theorem sameUpTo_none (hrecords : t.requests.records.Perm u.requests.records)
    (hgrants : t.device.grants.Perm u.device.grants)
    (hcounter : t.requests.issued = u.requests.issued)
    (hissued : t.device.issued = u.device.issued)
    (hchips : t.device.chips = u.device.chips) : SameUpTo .none t u := by
  refine ⟨?_, ?_, hcounter, hissued, hchips⟩
  · rwa [Renaming.record_none, List.map_id]
  · rwa [Renaming.grant_none, List.map_id]

theorem SameUpTo.symm (h : SameUpTo .none t u) : SameUpTo .none u t := by
  have hrecords := h.records
  have hgrants := h.grants
  rw [Renaming.record_none, List.map_id] at hrecords
  rw [Renaming.grant_none, List.map_id] at hgrants
  exact sameUpTo_none hrecords.symm hgrants.symm h.counter.symm h.issued.symm h.chips.symm

end Renamings

section Frames

/-- A request that was granted does not change what the device says to one for other lines. -/
theorem Grants.verdict (h : Grants s p spec t) (hlines : spec.lines.Disjoint spec'.lines) :
    t.device.verdict spec' = s.device.verdict spec' := by
  refine Device.verdict_congr h.chips fun line hline => ?_
  rw [Device.lines, h.grants, List.flatMap_append, List.flatMap_singleton, List.mem_append,
    Device.lines]
  exact ⟨fun hmem => hmem.resolve_right fun hnew => hlines hnew hline, .inl⟩

/-- Nor does a record that was released, for lines that it did not have. -/
theorem Frees.verdict (h : Frees s id held t) (hb : Balanced s.requests s.device)
    (hget : s.requests.get? id = some held) (hlines : spec.lines.Disjoint held.grant.lines) :
    t.device.verdict spec = s.device.verdict spec := by
  have hgrant : held.grant ∈ s.device.grants := hb.grant_mem (Requests.mem_of_get? hget)
  refine Device.verdict_congr h.chips fun line hline => ?_
  rw [Device.mem_lines_congr h.grants]
  exact Device.mem_lines_release hb.sound hgrant (hlines hline)

theorem SameBooks.verdict (h : SameBooks s t) : t.device.verdict spec = s.device.verdict spec :=
  Device.verdict_congr h.chips fun _ _ => Device.mem_lines_congr h.grants _

theorem numbered_ne (n : UInt64) : RequestId.numbered (n + 1) ≠ RequestId.numbered (n + 2) := by
  intro h
  have htwo := (UInt64.add_right_inj n).mp (RequestId.numbered_injective h)
  exact absurd htwo (by decide)

end Frames

section Orders

/-- Where a request that the device refuses comes in does not matter. -/
theorem sameUpTo_of_same (h : SameBooks s t) (h' : SameBooks s u) : SameUpTo .none t u :=
  sameUpTo_none (by rw [h.requests, h'.requests]) (by rw [h.grants, h'.grants])
    (by rw [h.requests, h'.requests]) (h.issued.trans h'.issued.symm)
    (h.chips.trans h'.chips.symm)

/-- A record that is added stands beside those that were there. -/
theorem Grants.records_perm (h : Grants s p spec t) (hsorted : s.requests.Sorted)
    (hfresh : s.requests.get? (RequestId.numbered (s.requests.issued + 1)) = none) :
    t.requests.records.Perm
      ((RequestId.numbered (s.requests.issued + 1),
        ⟨s.device.issued + 1, spec.chipPath.text, spec.offsets.list, p⟩) ::
          s.requests.records) := by
  have hperm := Requests.insert_records_perm hsorted
    (⟨s.device.issued + 1, spec.chipPath.text, spec.offsets.list, p⟩ : Held Nat)
  rw [Requests.insert_fst, Requests.remove_of_none hfresh] at hperm
  rw [h.requests]
  exact hperm

theorem Grants.counter (h : Grants s p spec t) : t.requests.issued = s.requests.issued + 1 := by
  rw [h.requests]
  rfl

/-- After one grant the next identifier is still new. -/
theorem Grants.fresh (h : Grants s p spec t) (hsorted : s.requests.Sorted) (hfresh : Fresh s) :
    t.requests.get? (RequestId.numbered (t.requests.issued + 1)) = none := by
  rw [h.counter, UInt64.add_assoc, show (1 : UInt64) + 1 = 2 from rfl,
    Requests.get?_eq_none_iff]
  intro e he
  rcases List.mem_cons.mp ((h.records_perm hsorted hfresh.next).mem_iff.mp he) with rfl | hold
  · exact numbered_ne s.requests.issued
  · exact Requests.get?_eq_none_iff.mp hfresh.second e hold

/-- Two grants, one after the other. -/
theorem Grants.records_of_two (h : Grants s p spec s₁) (h' : Grants s₁ q spec' t)
    (hsorted : s.requests.Sorted) (hfresh : Fresh s) :
    t.requests.records.Perm
      ((RequestId.numbered (s.requests.issued + 2),
          ⟨s.device.issued + 2, spec'.chipPath.text, spec'.offsets.list, q⟩) ::
        (RequestId.numbered (s.requests.issued + 1),
          ⟨s.device.issued + 1, spec.chipPath.text, spec.offsets.list, p⟩) ::
        s.requests.records) := by
  have hsorted' : s₁.requests.Sorted := by
    rw [h.requests]
    exact hsorted.insert _
  have hsecond := h'.records_perm hsorted' (h.fresh hsorted hfresh)
  rw [h.counter, UInt64.add_assoc, h.issued] at hsecond
  exact hsecond.trans ((h.records_perm hsorted hfresh.next).cons _)

/-- What was there before keeps its names. -/
theorem map_record_swapNext (hb : Balanced s.requests s.device) (hfresh : Fresh s) :
    s.requests.records.map s.swapNext.record = s.requests.records := by
  refine (List.map_congr_left ?_).trans (List.map_id _)
  intro e he
  have hold : e.2.handle ≤ s.device.issued := hb.sound.issued e.2.grant (hb.grant_mem he)
  have hid : s.swapNext.ids e.1 = e.1 :=
    Equiv.swap_apply_of_ne_of_ne (Requests.get?_eq_none_iff.mp hfresh.next e he)
      (Requests.get?_eq_none_iff.mp hfresh.second e he)
  have hhandle : s.swapNext.handles e.2.handle = e.2.handle :=
    Equiv.swap_apply_of_ne_of_ne (by omega) (by omega)
  rw [Renaming.record, hid, hhandle]
  rfl

theorem map_grant_swapNext (hd : s.device.Sound) :
    s.device.grants.map s.swapNext.grant = s.device.grants := by
  refine (List.map_congr_left ?_).trans (List.map_id _)
  intro g hg
  have hold := hd.issued g hg
  have hhandle : s.swapNext.handles g.handle = g.handle :=
    Equiv.swap_apply_of_ne_of_ne (by omega) (by omega)
  rw [Renaming.grant, hhandle]
  rfl

/-- The next two identifiers are given out in the order in which the requests are handled. -/
theorem sameUpTo_of_granted (hb : Balanced s.requests s.device) (hfresh : Fresh s)
    (h₁ : Grants s p spec s₁) (ht : Grants s₁ q spec' t)
    (h₂ : Grants s q spec' s₂) (hu : Grants s₂ p spec u) : SameUpTo s.swapNext t u := by
  have hfirst : s.swapNext.handles (s.device.issued + 1) = s.device.issued + 2 :=
    Equiv.swap_apply_left _ _
  have hsecond : s.swapNext.handles (s.device.issued + 2) = s.device.issued + 1 :=
    Equiv.swap_apply_right _ _
  have hnext : s.swapNext.ids (RequestId.numbered (s.requests.issued + 1)) =
      RequestId.numbered (s.requests.issued + 2) := Equiv.swap_apply_left _ _
  have hlater : s.swapNext.ids (RequestId.numbered (s.requests.issued + 2)) =
      RequestId.numbered (s.requests.issued + 1) := Equiv.swap_apply_right _ _
  constructor
  case records =>
    refine ((h₁.records_of_two ht hb.sorted hfresh).map s.swapNext.record).trans ?_
    refine List.Perm.trans ?_ (h₂.records_of_two hu hb.sorted hfresh).symm
    simp only [List.map_cons, map_record_swapNext hb hfresh, Renaming.record, hnext, hlater,
      hfirst, hsecond]
    exact List.Perm.swap _ _ _
  case grants =>
    rw [ht.grants, h₁.grants, hu.grants, h₂.grants, h₁.issued, h₂.issued]
    simp only [List.map_append, List.map_cons, List.map_nil, map_grant_swapNext hb.sound,
      Renaming.grant, LineSpec.grant, hfirst, hsecond, List.append_assoc, List.singleton_append]
    exact (List.Perm.swap _ _ _).append_left _
  case counter => rw [ht.counter, h₁.counter, hu.counter, h₂.counter]
  case issued => rw [ht.issued, h₁.issued, hu.issued, h₂.issued]
  case chips => rw [ht.chips, h₁.chips, hu.chips, h₂.chips]

theorem SameBooks.trans (h : SameBooks s t) (h' : SameBooks t u) : SameBooks s u where
  requests := h'.requests.trans h.requests
  grants := h'.grants.trans h.grants
  issued := h'.issued.trans h.issued
  chips := h'.chips.trans h.chips

theorem SameBooks.trans_grants (h : SameBooks s t) (h' : Grants t p spec u) :
    Grants s p spec u := by
  obtain ⟨hrequests, hgrants, hissued, hchips⟩ := h'
  rw [h.requests, h.issued] at hrequests
  rw [h.grants, h.issued] at hgrants
  exact ⟨hrequests, hgrants, by rw [hissued, h.issued], hchips.trans h.chips⟩

theorem Grants.trans_same (h : Grants s p spec t) (h' : SameBooks t u) : Grants s p spec u where
  requests := h'.requests.trans h.requests
  grants := h'.grants.trans h.grants
  issued := h'.issued.trans h.issued
  chips := h'.chips.trans h.chips

/-- One grant leads to the same books wherever a refusal comes in. -/
theorem Grants.sameUpTo (h : Grants s p spec t) (h' : Grants s p spec u) : SameUpTo .none t u :=
  sameUpTo_none (by rw [h.requests, h'.requests]) (by rw [h.grants, h'.grants])
    (by rw [h.requests, h'.requests]) (h.issued.trans h'.issued.symm)
    (h.chips.trans h'.chips.symm)

/-- What comes of two messages in either order: the answers and the books are the same but for
names.  The answer to the first is `ra` in one order and `ra'` in the other. -/
structure Interchanged (ρ : Renaming) (ra rb ra' rb' : Message) (t u : Server) : Prop where
  first : ra' = ρ.answer ra
  second : rb' = ρ.answer rb
  books : SameUpTo ρ t u

theorem Interchanged.symm (h : Interchanged .none rb' ra' rb ra u t) :
    Interchanged .none ra rb ra' rb' t u := by
  obtain ⟨hfirst, hsecond, hbooks⟩ := h
  rw [Renaming.answer_none] at hfirst hsecond
  exact ⟨by rw [hsecond, Renaming.answer_none], by rw [hfirst, Renaming.answer_none],
    hbooks.symm⟩

/-- Two line requests that have no line in common. -/
theorem interchanged_requests (hb : Balanced s.requests s.device) (hfresh : Fresh s)
    (hlines : spec.lines.Disjoint spec'.lines)
    (h₁ : Books s p (.request spec) ra s₁) (ht : Books s₁ q (.request spec') rb t)
    (h₂ : Books s q (.request spec') rb' s₂) (hu : Books s₂ p (.request spec) ra' u) :
    Interchanged (s.exchange (.request spec) (.request spec')) ra rb ra' rb' t u := by
  have hlines' : spec'.lines.Disjoint spec.lines := fun _ h h' => hlines h' h
  cases hx : s.device.verdict spec with
  | some e =>
      obtain ⟨rfl, hsame₁⟩ := h₁.of_refused hx
      cases hy : s.device.verdict spec' with
      | some e' =>
          obtain ⟨rfl, hsame₂⟩ := h₂.of_refused hy
          obtain ⟨rfl, hsame⟩ := ht.of_refused (hsame₁.verdict.trans hy)
          obtain ⟨rfl, hsame'⟩ := hu.of_refused (hsame₂.verdict.trans hx)
          simp only [exchange, hx, hy, reduceCtorEq, false_and, if_false]
          exact ⟨rfl, rfl, sameUpTo_of_same (hsame₁.trans hsame) (hsame₂.trans hsame')⟩
      | none =>
          obtain ⟨rfl, hgrants₂⟩ := h₂.of_granted hy
          obtain ⟨rfl, hgrants⟩ := ht.of_granted (hsame₁.verdict.trans hy)
          obtain ⟨rfl, hsame⟩ :=
            hu.of_refused ((hgrants₂.verdict hlines').trans hx)
          simp only [exchange, hx, reduceCtorEq, false_and, if_false]
          refine ⟨rfl, ?_, (hsame₁.trans_grants hgrants).sameUpTo (hgrants₂.trans_same hsame)⟩
          rw [hsame₁.requests]
          rfl
  | none =>
      obtain ⟨rfl, hgrants₁⟩ := h₁.of_granted hx
      cases hy : s.device.verdict spec' with
      | some e' =>
          obtain ⟨rfl, hsame₂⟩ := h₂.of_refused hy
          obtain ⟨rfl, hsame⟩ := ht.of_refused ((hgrants₁.verdict hlines).trans hy)
          obtain ⟨rfl, hgrants⟩ := hu.of_granted (hsame₂.verdict.trans hx)
          simp only [exchange, hy, reduceCtorEq, and_false, if_false]
          refine ⟨?_, rfl, (hgrants₁.trans_same hsame).sameUpTo (hsame₂.trans_grants hgrants)⟩
          rw [hsame₂.requests]
          rfl
      | none =>
          obtain ⟨rfl, hgrants₂⟩ := h₂.of_granted hy
          obtain ⟨rfl, hgrants⟩ := ht.of_granted ((hgrants₁.verdict hlines).trans hy)
          obtain ⟨rfl, hgrants'⟩ :=
            hu.of_granted ((hgrants₂.verdict hlines').trans hx)
          simp only [exchange, hx, hy, and_self, if_true]
          refine ⟨?_, ?_, sameUpTo_of_granted hb hfresh hgrants₁ hgrants hgrants₂ hgrants'⟩
          · rw [hgrants₂.counter, UInt64.add_assoc]
            exact congrArg Message.reqOk (Equiv.swap_apply_left _ _).symm
          · rw [hgrants₁.counter, UInt64.add_assoc]
            exact congrArg Message.reqOk (Equiv.swap_apply_right _ _).symm

theorem SameBooks.trans_frees (h : SameBooks s t) (h' : Frees t id held u) :
    Frees s id held u where
  requests := by rw [h'.requests, h.requests]
  grants := by rw [h'.grants, Device.grants_release, Device.grants_release, h.grants]
  issued := h'.issued.trans h.issued
  chips := h'.chips.trans h.chips

theorem Frees.trans_same (h : Frees s id held t) (h' : SameBooks t u) : Frees s id held u where
  requests := h'.requests.trans h.requests
  grants := h'.grants.trans h.grants
  issued := h'.issued.trans h.issued
  chips := h'.chips.trans h.chips

theorem Frees.sameUpTo (h : Frees s id held t) (h' : Frees s id held u) : SameUpTo .none t u :=
  sameUpTo_none (by rw [h.requests, h'.requests]) (by rw [h.grants, h'.grants])
    (by rw [h.requests, h'.requests]) (h.issued.trans h'.issued.symm)
    (h.chips.trans h'.chips.symm)

/-- Two records that are released are gone, whichever is released first. -/
theorem sameUpTo_of_freed (h₁ : Frees s id held s₁) (ht : Frees s₁ id' held' t)
    (h₂ : Frees s id' held' s₂) (hu : Frees s₂ id held u) : SameUpTo .none t u := by
  have hrequests : t.requests = u.requests := by
    rw [ht.requests, h₁.requests, hu.requests, h₂.requests]
    simp only [Requests.remove, List.filter_filter, Bool.and_comm]
  refine sameUpTo_none (by rw [hrequests]) ?_ (by rw [hrequests]) ?_ ?_
  · rw [ht.grants, hu.grants]
    simp only [Device.grants_release, h₁.grants, h₂.grants, List.filter_filter, Bool.and_comm]
    exact List.Perm.refl _
  · rw [ht.issued, h₁.issued, hu.issued, h₂.issued]
  · rw [ht.chips, h₁.chips, hu.chips, h₂.chips]

/-- Two RELEASEs of different identifiers. -/
theorem interchanged_releases (hne : id ≠ id')
    (h₁ : Books s p (.release id) ra s₁) (ht : Books s₁ q (.release id') rb t)
    (h₂ : Books s q (.release id') rb' s₂) (hu : Books s₂ p (.release id) ra' u) :
    Interchanged .none ra rb ra' rb' t u := by
  cases hx : s.requests.get? id with
  | none =>
      obtain ⟨rfl, hsame₁⟩ := h₁.of_unknown hx
      cases hy : s.requests.get? id' with
      | none =>
          obtain ⟨rfl, hsame₂⟩ := h₂.of_unknown hy
          obtain ⟨rfl, hsame⟩ := ht.of_unknown (hsame₁.requests ▸ hy)
          obtain ⟨rfl, hsame'⟩ := hu.of_unknown (hsame₂.requests ▸ hx)
          exact ⟨rfl, rfl, sameUpTo_of_same (hsame₁.trans hsame) (hsame₂.trans hsame')⟩
      | some held' =>
          obtain ⟨rfl, hfrees₂⟩ := h₂.of_known hy
          obtain ⟨rfl, hfrees⟩ := ht.of_known (hsame₁.requests ▸ hy)
          have hgone : s₂.requests.get? id = none := by
            rw [hfrees₂.requests, Requests.get?_remove hne, hx]
          obtain ⟨rfl, hsame⟩ := hu.of_unknown hgone
          exact ⟨rfl, rfl, (hsame₁.trans_frees hfrees).sameUpTo (hfrees₂.trans_same hsame)⟩
  | some held =>
      obtain ⟨rfl, hfrees₁⟩ := h₁.of_known hx
      have hother : s₁.requests.get? id' = s.requests.get? id' := by
        rw [hfrees₁.requests, Requests.get?_remove hne.symm]
      cases hy : s.requests.get? id' with
      | none =>
          obtain ⟨rfl, hsame₂⟩ := h₂.of_unknown hy
          obtain ⟨rfl, hsame⟩ := ht.of_unknown (hother.trans hy)
          obtain ⟨rfl, hfrees⟩ := hu.of_known (hsame₂.requests ▸ hx)
          exact ⟨rfl, rfl, (hfrees₁.trans_same hsame).sameUpTo (hsame₂.trans_frees hfrees)⟩
      | some held' =>
          obtain ⟨rfl, hfrees₂⟩ := h₂.of_known hy
          obtain ⟨rfl, hfrees⟩ := ht.of_known (hother.trans hy)
          have hkept : s₂.requests.get? id = some held := by
            rw [hfrees₂.requests, Requests.get?_remove hne, hx]
          obtain ⟨rfl, hfrees'⟩ := hu.of_known hkept
          exact ⟨rfl, rfl, sameUpTo_of_freed hfrees₁ hfrees hfrees₂ hfrees'⟩

/-- A record that is released and one that is added, whichever comes first. -/
theorem sameUpTo_of_granted_freed (hb : Balanced s.requests s.device) (hfresh : Fresh s)
    (hget : s.requests.get? id = some held) (h₁ : Grants s p spec s₁) (ht : Frees s₁ id held t)
    (h₂ : Frees s id held s₂) (hu : Grants s₂ p spec u) : SameUpTo .none t u := by
  have hne : RequestId.numbered (s.requests.issued + 1) ≠ id := by
    rintro rfl
    cases hfresh.next.symm.trans hget
  have hcounter : s₂.requests.issued = s.requests.issued := by
    rw [h₂.requests]
    rfl
  have hold : held.handle ≤ s.device.issued :=
    hb.sound.issued held.grant (hb.grant_mem (Requests.mem_of_get? hget))
  have hnext : s₂.requests.get? (RequestId.numbered (s₂.requests.issued + 1)) = none := by
    rw [hcounter, h₂.requests, Requests.get?_remove hne, hfresh.next]
  have hsorted : s₂.requests.Sorted := by
    rw [h₂.requests]
    exact hb.sorted.remove id
  refine sameUpTo_none ?_ ?_ ?_ ?_ ?_
  · have hadded := hu.records_perm hsorted hnext
    have hremoved := (h₁.records_perm hb.sorted hfresh.next).filter (·.1 ≠ id)
    rw [List.filter_cons_of_pos (by simpa using hne)] at hremoved
    rw [hcounter, h₂.issued, h₂.requests] at hadded
    rw [ht.requests]
    exact hremoved.trans hadded.symm
  · rw [ht.grants, hu.grants, Device.grants_release, h₁.grants, h₂.grants, h₂.issued,
      Device.grants_release, List.filter_append, List.filter_cons_of_pos, List.filter_nil]
    exact decide_eq_true (by show s.device.issued + 1 ≠ held.handle; omega)
  · rw [ht.requests, hu.counter, hcounter]
    exact h₁.counter
  · rw [ht.issued, h₁.issued, hu.issued, h₂.issued]
  · rw [ht.chips, h₁.chips, hu.chips, h₂.chips]

/-- A line request, and a RELEASE of a record that has none of its lines. -/
theorem interchanged_requestRelease (hb : Balanced s.requests s.device) (hfresh : Fresh s)
    (hget : s.requests.get? id = some held) (hlines : spec.lines.Disjoint held.grant.lines)
    (h₁ : Books s p (.request spec) ra s₁) (ht : Books s₁ q (.release id) rb t)
    (h₂ : Books s q (.release id) rb' s₂) (hu : Books s₂ p (.request spec) ra' u) :
    Interchanged .none ra rb ra' rb' t u := by
  obtain ⟨rfl, hfrees₂⟩ := h₂.of_known hget
  have hverdict := hfrees₂.verdict hb hget hlines
  cases hx : s.device.verdict spec with
  | some e =>
      obtain ⟨rfl, hsame₁⟩ := h₁.of_refused hx
      obtain ⟨rfl, hfrees⟩ := ht.of_known (hsame₁.requests ▸ hget)
      obtain ⟨rfl, hsame⟩ := hu.of_refused (hverdict.trans hx)
      exact ⟨rfl, rfl, (hsame₁.trans_frees hfrees).sameUpTo (hfrees₂.trans_same hsame)⟩
  | none =>
      obtain ⟨rfl, hgrants₁⟩ := h₁.of_granted hx
      have hkept : s₁.requests.get? id = some held := by
        rw [hgrants₁.requests]
        refine Requests.get?_insert_of_ne hb.sorted _ ?_ hget
        rintro rfl
        cases hfresh.next.symm.trans hget
      obtain ⟨rfl, hfrees⟩ := ht.of_known hkept
      obtain ⟨rfl, hgrants⟩ := hu.of_granted (hverdict.trans hx)
      refine ⟨?_, rfl, sameUpTo_of_granted_freed hb hfresh hget hgrants₁ hfrees hfrees₂ hgrants⟩
      rw [hfrees₂.requests]
      rfl

/-- **Independent messages lead to the same answers and the same books in either order**, but for
the names of what is granted. -/
theorem interchange_of_books (hb : Balanced s.requests s.device) (hfresh : Fresh s)
    (hind : s.Independent x y) (h₁ : Books s p x ra s₁) (ht : Books s₁ q y rb t)
    (h₂ : Books s q y rb' s₂) (hu : Books s₂ p x ra' u) :
    Interchanged (s.exchange x y) ra rb ra' rb' t u := by
  cases hind with
  | requests spec spec' hlines => exact interchanged_requests hb hfresh hlines h₁ ht h₂ hu
  | releases id id' hne => exact interchanged_releases hne h₁ ht h₂ hu
  | requestRelease spec id held hget hlines =>
      exact interchanged_requestRelease hb hfresh hget hlines h₁ ht h₂ hu
  | releaseRequest id held spec hget hlines =>
      exact (interchanged_requestRelease hb hfresh hget hlines h₂ hu h₁ ht).symm

/-- After a message was carried out the next identifier is still new. -/
theorem Books.next (h : Books s p x ra t) (hsorted : s.requests.Sorted) (hfresh : Fresh s) :
    t.requests.get? (RequestId.numbered (t.requests.issued + 1)) = none := by
  cases h with
  | refused _ _ _ hsame => rw [hsame.requests, hfresh.next]
  | granted _ _ hgrants => exact hgrants.fresh hsorted hfresh
  | unknown _ _ hsame => rw [hsame.requests, hfresh.next]
  | gaveBack id held hget hfrees =>
      have hne : RequestId.numbered (s.requests.issued + 1) ≠ id := by
        rintro rfl
        cases hfresh.next.symm.trans hget
      have hcounter : t.requests.issued = s.requests.issued := by
        rw [hfrees.requests]
        rfl
      rw [hcounter, hfrees.requests, Requests.get?_remove hne, hfresh.next]

theorem Independent.isOrder (h : s.Independent x y) : x.IsOrder ∧ y.IsOrder := by
  cases h with
  | requests spec spec' _ => exact ⟨.request spec, .request spec'⟩
  | releases id id' _ => exact ⟨.release id, .release id'⟩
  | requestRelease spec id _ _ _ => exact ⟨.request spec, .release id⟩
  | releaseRequest id _ spec _ _ => exact ⟨.release id, .request spec⟩

end Orders

end Server

end LineKeeper
