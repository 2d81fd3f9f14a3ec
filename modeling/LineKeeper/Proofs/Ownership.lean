import LineKeeper.Proofs.Registry
import LineKeeper.Proofs.Runs

/-!
# Every line has its record, every record its handle

The lines that the device holds, the open handles and the table of held requests
are kept in three places and changed one after the other.  `Balanced` ties them
together: the grants of the device are, up to order, those of the records.  It is
kept by each thing that can happen to records and lines:

* a RELEASE removes a record and closes its handle (`Balanced.remove`);
* a granted request adds a grant and a record with its handle, and closes the
  handle of a record that it displaces (`Balanced.insert`);
* the end of the server closes all handles and removes all records
  (`Balanced.empty_of_closed`).

**Result.** In every reachable loop the server holds exactly the lines of its
records (`Loop.Reachable.holdsExactly`).
-/

namespace LineKeeper

namespace Requests

/-- What the device is to hold for the records. -/
def grants (r : Requests Nat) : List Grant :=
  r.records.map fun e => e.2.grant

/-- The lines of all records, one record after the other. -/
def lines (r : Requests Nat) : List (String × UInt32) :=
  r.records.flatMap fun e => e.2.grant.lines

end Requests

/-- The grants of the device are those of the records. -/
structure Balanced (r : Requests Nat) (d : Device) : Prop where
  sorted : r.Sorted
  sound : d.Sound
  grants : d.grants.Perm r.grants

namespace Balanced

variable {r : Requests Nat} {d : Device} {id : RequestId} {held : Held Nat}

theorem start (chips : Chips) : Balanced Requests.empty (Device.ofChips chips) :=
  ⟨Requests.sorted_empty, Device.sound_ofChips chips, List.Perm.refl _⟩

/-- The grant of a record is open. -/
theorem grant_mem (h : Balanced r d) (hmem : (id, held) ∈ r.records) : held.grant ∈ d.grants :=
  h.grants.mem_iff.mpr (List.mem_map.mpr ⟨(id, held), hmem, rfl⟩)

theorem handles_nodup (h : Balanced r d) : (r.records.map fun e => e.2.handle).Nodup := by
  have hperm : (d.grants.map (·.handle)).Perm (r.records.map fun e => e.2.handle) := by
    have hmap := h.grants.map (·.handle)
    rw [Requests.grants, List.map_map] at hmap
    exact hmap
  exact hperm.nodup_iff.mp h.sound.handles

/-- No two records have one handle. -/
theorem eq_of_handle_eq (h : Balanced r d) {a b : RequestId × Held Nat} (ha : a ∈ r.records)
    (hb : b ∈ r.records) (hhandle : a.2.handle = b.2.handle) : a = b :=
  List.inj_on_of_nodup_map h.handles_nodup ha hb hhandle

theorem of_same {r' : Requests Nat} {d' : Device} (h : Balanced r d) (hrequests : r' = r)
    (hgrants : d'.grants = d.grants) (hissued : d'.issued = d.issued) : Balanced r' d' := by
  subst hrequests
  constructor
  · exact h.sorted
  · exact h.sound.of_sublist (hgrants ▸ List.Sublist.refl _) hissued
  · rw [hgrants]
    exact h.grants

/-- Removing a record and closing its handle. -/
theorem remove (h : Balanced r d) (hget : r.get? id = some held) :
    Balanced (r.remove id) (d.release held.handle) := by
  have hmem := Requests.mem_of_get? hget
  constructor
  · exact h.sorted.remove id
  · exact h.sound.release held.handle
  · -- A record has the closed handle exactly if it stands under `id`.
    have hsame : ∀ e ∈ r.records, (e.2.handle ≠ held.handle ↔ e.1 ≠ id) := by
      intro e he
      rw [not_iff_not]
      constructor
      · intro hhandle
        exact congrArg Prod.fst (h.eq_of_handle_eq he hmem hhandle)
      · intro hid
        exact congrArg (fun x => x.2.handle) (Requests.InOrder.unique h.sorted he hmem hid)
    have hfilter : (r.grants.filter (·.handle ≠ held.handle)) = (r.remove id).grants := by
      rw [Requests.grants, List.filter_map]
      refine congrArg (List.map _) (List.filter_congr ?_)
      intro e he
      exact decide_eq_decide.mpr (hsame e he)
    rw [Device.grants_release, ← hfilter]
    exact h.grants.filter _

/-- Closing the handle of a displaced record leaves the grants of the others. -/
theorem closing (h : Balanced r d) (id : RequestId) :
    Balanced (r.remove id) (r.closing id d) := by
  unfold Requests.closing
  cases hget : r.get? id with
  | none => exact h.of_same (Requests.remove_of_none hget) rfl rfl
  | some held => exact h.remove hget

theorem sound_closing (h : d.Sound) (r : Requests Nat) (id : RequestId) :
    (r.closing id d).Sound := by
  unfold Requests.closing
  cases r.get? id with
  | none => exact h
  | some held => exact h.release held.handle

/-- A grant whose handle was just given out stays when the handle of a record is closed. -/
theorem grants_closing_append (h : Balanced r d) {d' : Device} {g : Grant}
    (hgrants : d'.grants = d.grants ++ [g]) (hnew : d.issued < g.handle) (id : RequestId) :
    (r.closing id d').grants = (r.closing id d).grants ++ [g] := by
  unfold Requests.closing
  cases hget : r.get? id with
  | none => exact hgrants
  | some held =>
      have hold : held.handle ≤ d.issued :=
        h.sound.issued held.grant (h.grant_mem (Requests.mem_of_get? hget))
      have hne : g.handle ≠ held.handle := by omega
      rw [Device.grants_release, Device.grants_release, hgrants, List.filter_append]
      refine congrArg (List.append _) (List.filter_cons_of_pos ?_)
      exact decide_eq_true hne

/-- Adding a record for a granted request, in the place of one under the same identifier. -/
theorem insert (h : Balanced r d) (job : Job)
    (hok : (d.request job.spec).1 = .ok (d.issued + 1)) :
    Balanced (r.insert (job.held (d.issued + 1))).2
      (r.closing (RequestId.numbered (r.issued + 1)) (d.request job.spec).2) := by
  have hnew : (d.request job.spec).2.grants =
      d.grants ++ [(job.held (d.issued + 1)).grant] :=
    Device.grants_request_of_ok hok
  constructor
  · exact h.sorted.insert _
  · exact sound_closing (h.sound.request job.spec) r _
  · rw [h.grants_closing_append hnew (Nat.lt_succ_self _)]
    have hrecords := (Requests.insert_records_perm h.sorted (job.held (d.issued + 1))).map
      fun e => e.2.grant
    exact (List.perm_append_singleton _ _).trans
      (((h.closing _).grants.cons _).trans hrecords.symm)

/-- Without records, and with their handles closed, nothing is held. -/
theorem empty_of_closed (h : Balanced r d) {r' : Requests Nat} {d' : Device}
    (hrecords : r'.records = [])
    (hgrants : d'.grants = d.grants.filter fun g => r.records.all fun e => e.2.handle ≠ g.handle)
    (hissued : d'.issued = d.issued) : Balanced r' d' := by
  have hnone : d'.grants = [] := by
    rw [hgrants, List.filter_eq_nil_iff]
    intro g hg hall
    obtain ⟨e, he, rfl⟩ := List.mem_map.mp (h.grants.mem_iff.mp hg)
    have hne := List.all_eq_true.mp hall e he
    exact of_decide_eq_true hne rfl
  constructor
  · rw [Requests.Sorted, hrecords]
    exact List.Pairwise.nil
  · exact h.sound.of_sublist (hnone ▸ List.nil_sublist _) hissued
  · rw [hnone, Requests.grants, hrecords]
    exact List.Perm.refl _

end Balanced

namespace Loop

variable {l m : Loop} {chips : Chips} {period : Nat}

theorem Change.balanced (h : Change l m)
    (hl : Balanced l.server.requests l.server.device) :
    Balanced m.server.requests m.server.device := by
  cases h with
  | quiet h => exact hl.of_same h.requests h.grants h.issued
  | gaveBack client id held h => exact (hl.remove h.found).of_same h.requests h.grants h.issued
  | granted job hjob h =>
      refine (hl.insert job h.outcome).of_same h.requests h.grants ?_
      rw [Requests.issued_closing, Device.issued_request_of_ok h.outcome]
      exact h.issued
  | emptied why hend h => exact hl.empty_of_closed h.records h.grants h.issued

theorem Reachable.balanced (h : Reachable chips period l) :
    Balanced l.server.requests l.server.device :=
  h.induction (Balanced.start chips) fun _ _ ha hstep => hstep.change.balanced ha

end Loop

/-- The lines that a server holds are those of its records, and the open handles are those of its
records. -/
structure Server.HoldsExactly (s : Server) : Prop where
  held_iff : ∀ chip o, s.device.isHeld chip o = true ↔
    ∃ e ∈ s.requests.records, e.2.chipPath = chip ∧ o ∈ e.2.offsets
  disjoint : s.requests.lines.Nodup
  owns : ∀ e ∈ s.requests.records,
    ⟨e.2.handle, e.2.chipPath, e.2.offsets⟩ ∈ s.device.grants
  owned : ∀ g ∈ s.device.grants, ∃ e ∈ s.requests.records, e.2.handle = g.handle
  own_handles : (s.requests.records.map fun e => e.2.handle).Nodup
  open_handles : (s.device.grants.map (·.handle)).Nodup

theorem Balanced.lines_perm {r : Requests Nat} {d : Device} (h : Balanced r d) :
    d.lines.Perm r.lines := by
  have hlines : r.grants.flatMap Grant.lines = r.lines :=
    List.flatMap_map ..
  exact hlines ▸ h.grants.flatMap_right Grant.lines

theorem Loop.Reachable.holdsExactly {l : Loop} {chips : Chips} {period : Nat}
    (h : Reachable chips period l) : l.server.HoldsExactly := by
  have hbalanced := h.balanced
  constructor
  · intro chip o
    rw [Device.isHeld_iff, hbalanced.lines_perm.mem_iff, Requests.lines, List.mem_flatMap]
    refine exists_congr fun e => and_congr_right fun _ => ?_
    exact Grant.mem_lines
  · exact hbalanced.lines_perm.nodup_iff.mp hbalanced.sound.lines
  · intro e he
    exact hbalanced.grant_mem he
  · intro g hg
    obtain ⟨e, he, rfl⟩ := List.mem_map.mp (hbalanced.grants.mem_iff.mp hg)
    exact ⟨e, he, rfl⟩
  · exact hbalanced.handles_nodup
  · exact hbalanced.sound.handles

/-- A machine with one chip of two lines. -/
def Chips.twoLines : Chips :=
  ⟨[⟨"/dev/gpiochip0", [Option.none, Option.none], Option.none, Option.none, [], Option.none, []⟩],
    Option.none⟩

/-- A client connects and requests both lines. -/
def Scenario.borrowing : List Scenario.Step :=
  [.connect "a", .call "a" ((LineSpec.new "/dev/gpiochip0" [0, 1]).map .request)]

/-- When both lines were requested, they are the lines of the one record. -/
theorem Scenario.borrowed_holdsExactly :
    let s := ((start Chips.twoLines 0).run borrowing).2.loop.server
    s.HoldsExactly ∧ s.requests.lines = [("/dev/gpiochip0", 0), ("/dev/gpiochip0", 1)] :=
  ⟨Loop.Reachable.holdsExactly (reachable_run Chips.twoLines 0 borrowing), by decide +kernel⟩

end LineKeeper
