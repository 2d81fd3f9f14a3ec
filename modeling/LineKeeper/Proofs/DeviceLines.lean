import Mathlib.Data.List.Flatten
import Mathlib.Data.List.Nodup
import LineKeeper.Device

/-!
# Which lines a device holds

A grant stands for the lines it covers, and the device holds the lines of its
grants.  This module says what each call does to them:

* a refused request changes no grant and uses up no handle;
* a granted request gets a handle that was never given out, all its lines were
  free, and the device then also holds exactly these;
* closing the handle of a grant frees exactly the lines of that grant.

A device on which only these calls are made keeps its handles apart and holds no
line twice.
-/

namespace LineKeeper

/-- The lines of a grant, each with its chip. -/
def Grant.lines (g : Grant) : List (String × UInt32) :=
  g.offsets.map fun o => (g.chip, o)

theorem Grant.mem_lines {g : Grant} {chip : String} {o : UInt32} :
    (chip, o) ∈ g.lines ↔ g.chip = chip ∧ o ∈ g.offsets := by
  simp only [lines, List.mem_map, Prod.mk.injEq]
  constructor
  · rintro ⟨o', ho', hchip, rfl⟩
    exact ⟨hchip, ho'⟩
  · rintro ⟨hchip, ho⟩
    exact ⟨o, ho, hchip, rfl⟩

theorem Grant.nodup_lines {g : Grant} (h : g.offsets.Nodup) : g.lines.Nodup :=
  h.map fun _ _ heq => (Prod.mk.inj heq).2

/-- What is held for a client's request under a handle. -/
def LineSpec.grant (spec : LineSpec) (handle : Nat) : Grant :=
  ⟨handle, spec.chipPath.text, spec.offsets.list⟩

namespace Device

variable {d : Device} {spec : LineSpec} {g : Grant} {handle : Nat}

/-- The lines that a device holds. -/
def lines (d : Device) : List (String × UInt32) :=
  d.grants.flatMap Grant.lines

theorem isHeld_iff {chip : String} {o : UInt32} :
    d.isHeld chip o = true ↔ (chip, o) ∈ d.lines := by
  simp only [isHeld, lines, List.any_eq_true, List.mem_flatMap, Bool.and_eq_true,
    decide_eq_true_eq, List.contains_iff_mem, Grant.mem_lines]

/-- A line that the device is asked for and gives is free. -/
theorem free_of_refusal?_eq_none {chip : Chip} {r : LineRequest}
    (h : d.refusal? chip r = none) {o : UInt32} (ho : o ∈ r.offsets) :
    (r.chip, o) ∉ d.lines := by
  simp only [refusal?] at h
  split at h
  · cases h
  · split at h
    · cases h
    · next hany =>
      intro hline
      apply hany
      rw [List.any_eq_true]
      refine ⟨o, ho, ?_⟩
      rw [isHeld_iff.mpr hline, Bool.or_true]

/-- What a client's request does to the grants. -/
theorem request_cases (d : Device) (spec : LineSpec) :
    (∃ e, (d.request spec).1 = .error e ∧ (d.request spec).2.grants = d.grants ∧
      (d.request spec).2.issued = d.issued) ∨
    ((d.request spec).1 = .ok (d.issued + 1) ∧
      (d.request spec).2.grants = d.grants ++ [spec.grant (d.issued + 1)] ∧
      (d.request spec).2.issued = d.issued + 1 ∧
      ∀ line ∈ (spec.grant (d.issued + 1)).lines, line ∉ d.lines) := by
  simp only [request]
  split
  · next e _ =>
    exact .inl ⟨e, rfl, rfl, rfl⟩
  · next chip _ =>
    rw [ask_eq]
    split
    · next e _ =>
      exact .inl ⟨e.ofDeviceCall, rfl, rfl, rfl⟩
    · next hfree =>
      refine .inr ⟨rfl, rfl, rfl, ?_⟩
      rintro ⟨c, o⟩ hline
      obtain ⟨rfl, ho⟩ := Grant.mem_lines.mp hline
      exact free_of_refusal?_eq_none hfree ho

theorem issued_request_of_ok (h : (d.request spec).1 = .ok handle) :
    (d.request spec).2.issued = d.issued + 1 := by
  rcases d.request_cases spec with ⟨e, herror, -, -⟩ | ⟨-, -, hissued, -⟩
  · rw [h] at herror
    cases herror
  · exact hissued

/-- Handles are kept apart, and no line is held twice. -/
structure Sound (d : Device) : Prop where
  handles : (d.grants.map (·.handle)).Nodup
  issued : ∀ g ∈ d.grants, g.handle ≤ d.issued
  lines : d.lines.Nodup

theorem sound_ofChips (chips : Chips) : (ofChips chips).Sound :=
  ⟨List.nodup_nil, by simp [ofChips], List.nodup_nil⟩

/-- Grants may go, but no handle is taken back. -/
theorem Sound.of_sublist {d' : Device} (h : d.Sound) (hgrants : d'.grants.Sublist d.grants)
    (hissued : d'.issued = d.issued) : d'.Sound := by
  constructor
  · exact h.handles.sublist (hgrants.map _)
  · intro g hg
    rw [hissued]
    exact h.issued g (hgrants.subset hg)
  · exact h.lines.sublist (hgrants.flatMap _)

theorem Sound.request (h : d.Sound) (spec : LineSpec) : (d.request spec).2.Sound := by
  rcases d.request_cases spec with ⟨e, -, hgrants, hissued⟩ | ⟨-, hgrants, hissued, hfree⟩
  · exact h.of_sublist (hgrants ▸ List.Sublist.refl _) hissued
  · constructor
    · rw [hgrants, List.map_append, List.nodup_append]
      refine ⟨h.handles, List.nodup_singleton _, ?_⟩
      intro a ha b hb
      obtain ⟨g, hg, rfl⟩ := List.mem_map.mp ha
      have hle := h.issued g hg
      have hnew : b = d.issued + 1 := List.mem_singleton.mp hb
      omega
    · intro g hg
      rw [hgrants, List.mem_append, List.mem_singleton] at hg
      rcases hg with hg | rfl
      · have hle := h.issued g hg
        omega
      · exact Nat.le_of_eq hissued.symm
    · rw [Device.lines, hgrants, List.flatMap_append, List.flatMap_singleton, List.nodup_append]
      refine ⟨h.lines, Grant.nodup_lines spec.offsets.nodup, ?_⟩
      intro a ha b hb heq
      exact hfree b hb (heq ▸ ha)

theorem Sound.release (h : d.Sound) (handle : Nat) : (d.release handle).Sound :=
  h.of_sublist List.filter_sublist rfl

/-- Closing the handle of a grant frees exactly its lines. -/
theorem Sound.lines_release (h : d.Sound) (hg : g ∈ d.grants) :
    d.lines.Perm (g.lines ++ (d.release g.handle).lines) := by
  obtain ⟨before, after, hgrants⟩ := List.append_of_mem hg
  have hothers : ∀ x ∈ before ++ after, x.handle ≠ g.handle := by
    have hnodup := h.handles
    rw [hgrants, List.map_append, List.map_cons, List.nodup_middle, ← List.map_append] at hnodup
    intro x hx heq
    exact (List.nodup_cons.mp hnodup).1 (List.mem_map.mpr ⟨x, hx, heq⟩)
  have hleft : (d.release g.handle).grants = before ++ after := by
    rw [grants_release, hgrants, List.filter_append, List.filter_cons_of_neg (by simp),
      ← List.filter_append, List.filter_eq_self]
    intro x hx
    exact decide_eq_true (hothers x hx)
  rw [Device.lines, Device.lines, hleft, hgrants]
  exact List.perm_middle.flatMap_right Grant.lines

end Device
end LineKeeper
