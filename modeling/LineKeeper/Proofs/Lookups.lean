import LineKeeper.Proofs.Checks
import LineKeeper.Resolve
import Mathlib.Data.List.Forall2

/-!
# Which lines identifiers are resolved to

Looking identifiers up in an inventory goes through three stages: each identifier
is located, all lines have to be on one chip, and no offset may come twice.

**Locating.** An identifier is located without regard to the others, so a list of
identifiers is located exactly if each of them is.

**Results.**
* `Location.IsOn` and `locate_isOn`: what is located is a line of a chip of the
  inventory.
* `resolveIn_eq_ok_iff`: when a list of identifiers is resolved, and to what.
* `resolveIn_alone`: each identifier of the list is resolved, alone, to the same
  chip and to the offset at its own position.
-/

namespace LineKeeper

/-- The line is one of the lines of a chip of the inventory. -/
def Location.IsOn (line : Location) (chips : List ChipLines) : Prop :=
  ∃ chip, chips[line.chip]? = some chip ∧ line.path = chip.path ∧
    line.offset.toNat < chip.names.length

/-- Lines of one chip have one path. -/
theorem Location.IsOn.path_eq {chips : List ChipLines} {a b : Location} (ha : a.IsOn chips)
    (hb : b.IsOn chips) (h : a.chip = b.chip) : a.path = b.path := by
  obtain ⟨chip, hchip, hpath, -⟩ := ha
  obtain ⟨chip', hchip', hpath', -⟩ := hb
  rw [h, hchip'] at hchip
  cases hchip
  rw [hpath, hpath']

namespace Resolve

variable {chips : List ChipLines} {opts : Lookup} {id name : String} {ids : List String}
  {line : Location} {found : List (String × Location)} {r : Resolved} {offset : UInt32}
  {strict : Bool}

section Locating

theorem isOn_of_mem_occurrences (h : line ∈ occurrences chips name) : line.IsOn chips := by
  simp only [occurrences, List.mem_flatMap, List.mem_map, List.mem_filter, Prod.exists,
    List.mem_zipIdx_iff_getElem?] at h
  obtain ⟨chip, i, hchip, _, o, ⟨hname, _⟩, rfl⟩ := h
  refine ⟨chip, hchip, rfl, ?_⟩
  -- an offset too large for a word is cut off, and only becomes smaller
  have ho : o < chip.names.length := (List.getElem?_eq_some_iff.mp hname).1
  have hle : (UInt32.ofNat o).toNat ≤ o := by
    rw [UInt32.toNat_ofNat']
    exact Nat.mod_le _ _
  exact Nat.lt_of_le_of_lt hle ho

theorem mem_occurrences_of_findByName (h : findByName chips name strict = .ok line) :
    line ∈ occurrences chips name := by
  simp only [findByName] at h
  split at h
  · cases h
  · next only hocc =>
    cases h
    rw [hocc]
    exact List.mem_singleton_self _
  · next first second more hocc =>
    split at h
    · cases h
    · cases h
      rw [hocc]
      exact List.mem_cons_self

theorem isOn_of_findByOffset (h : findByOffset chips offset = .ok line) : line.IsOn chips := by
  simp only [findByOffset] at h
  split at h
  · cases h
  · next chip more =>
    split at h
    · next hlt =>
      cases h
      exact ⟨chip, rfl, rfl, hlt⟩
    · cases h

theorem locate_isOn (h : locate chips opts id = .ok line) : line.IsOn chips := by
  simp only [locate] at h
  split at h
  · exact isOn_of_findByOffset h
  · exact isOn_of_mem_occurrences (mem_occurrences_of_findByName h)

/-- The lines are those that the identifiers mean, one by one. -/
def Locates (chips : List ChipLines) (opts : Lookup) (ids : List String)
    (lines : List Location) : Prop :=
  List.Forall₂ (fun id line => locate chips opts id = .ok line) ids lines

theorem Locates.isOn {lines : List Location} (h : Locates chips opts ids lines) :
    ∀ line ∈ lines, line.IsOn chips := by
  induction h with
  | nil => exact fun _ hmem => absurd hmem List.not_mem_nil
  | cons hlocate _ ih =>
      intro line hmem
      rcases List.mem_cons.mp hmem with rfl | hmem
      · exact locate_isOn hlocate
      · exact ih line hmem

/-- All identifiers are located exactly if each one is. -/
theorem locateAll_eq_ok_iff :
    locateAll chips opts ids = .ok found ↔
      found.map Prod.fst = ids ∧ Locates chips opts ids (found.map Prod.snd) := by
  induction ids generalizing found with
  | nil =>
      constructor
      · intro h
        cases h
        exact ⟨rfl, .nil⟩
      · rintro ⟨hids, -⟩
        rw [List.map_eq_nil_iff.mp hids]
        rfl
  | cons id ids ih =>
      simp only [locateAll, bind_eq_ok_iff]
      constructor
      · rintro ⟨line, hline, more, hmore, h⟩
        cases h
        obtain ⟨rfl, hmore⟩ := ih.mp hmore
        exact ⟨rfl, .cons hline hmore⟩
      · rintro ⟨hids, hlocates⟩
        cases found with
        | nil => cases hids
        | cons p found =>
            simp only [List.map_cons, List.cons.injEq] at hids
            obtain ⟨rfl, hids⟩ := hids
            cases hlocates with
            | cons hline hmore => exact ⟨p.2, hline, found, ih.mpr ⟨hids, hmore⟩, rfl⟩

end Locating

section Resolving

/-- The check for lines named twice looks at nothing but the offsets. -/
theorem firstRepeated?_eq_none_iff {seen : List UInt32} :
    firstRepeated? seen found = none ↔ firstRepeat? seen (found.map (·.2.offset)) = none := by
  induction found generalizing seen with
  | nil => simp [firstRepeated?, firstRepeat?]
  | cons p found ih =>
      by_cases h : p.2.offset ∈ seen
      · simp [firstRepeated?, firstRepeat?, h]
      · simp only [firstRepeated?, firstRepeat?, List.map_cons, h, if_false, ih]

/-- The offsets of located lines. -/
theorem map_offset_snd (found : List (String × Location)) :
    (found.map Prod.snd).map (·.offset) = found.map (·.2.offset) := by
  rw [List.map_map]
  rfl

/-- **Resolving a list.** Identifiers are resolved exactly if there are any, each of them is
located, the lines are on one chip, and no two of them have one offset. -/
theorem resolveIn_eq_ok_iff :
    resolveIn chips opts ids = .ok r ↔
      ∃ first rest, Locates chips opts ids (first :: rest) ∧
        (∀ line ∈ rest, line.chip = first.chip) ∧
        ((first :: rest).map (·.offset)).Nodup ∧
        r = ⟨first.path, (first :: rest).map (·.offset)⟩ := by
  constructor
  · intro h
    simp only [resolveIn] at h
    split at h
    · cases h
    · cases h
    · next id first found hall =>
      obtain ⟨-, hlocates⟩ := locateAll_eq_ok_iff.mp hall
      split at h
      · cases h
      · next hchips =>
        split at h
        · cases h
        · next hrepeats =>
          cases h
          have hoffsets := map_offset_snd ((id, first) :: found)
          refine ⟨first, found.map Prod.snd, hlocates, ?_, ?_, ?_⟩
          · intro line hline
            obtain ⟨p, hp, rfl⟩ := List.mem_map.mp hline
            simpa using fun hne => hchips (List.any_eq_true.mpr ⟨p, hp, decide_eq_true hne⟩)
          · exact hoffsets ▸
              (firstRepeat?_eq_none_iff.mp (firstRepeated?_eq_none_iff.mp hrepeats)).1
          · exact congrArg _ hoffsets.symm
  · rintro ⟨first, rest, hlocates, hchips, hnodup, rfl⟩
    cases hlocates with
    | @cons id _ ids _ hfirst hrest =>
        have hlen := hrest.length_eq
        have hids : ((id, first) :: ids.zip rest).map Prod.fst = id :: ids :=
          congrArg _ (List.map_fst_zip (Nat.le_of_eq hlen))
        have hlines : ((id, first) :: ids.zip rest).map Prod.snd = first :: rest :=
          congrArg _ (List.map_snd_zip (Nat.le_of_eq hlen.symm))
        have hall : locateAll chips opts (id :: ids) = .ok ((id, first) :: ids.zip rest) :=
          locateAll_eq_ok_iff.mpr ⟨hids, hlines ▸ .cons hfirst hrest⟩
        have hoffsets : ((id, first) :: ids.zip rest).map (·.2.offset) =
            (first :: rest).map (·.offset) := by
          rw [← map_offset_snd, hlines]
        have hone : ¬ (ids.zip rest).any (fun l => l.2.chip ≠ first.chip) = true := by
          rw [List.any_eq_true]
          rintro ⟨p, hp, hne⟩
          exact of_decide_eq_true hne (hchips p.2 (List.of_mem_zip hp).2)
        have hrepeats : firstRepeated? [] ((id, first) :: ids.zip rest) = none := by
          rw [firstRepeated?_eq_none_iff, hoffsets, firstRepeat?_eq_none_iff]
          exact ⟨hnodup, fun _ _ => List.not_mem_nil⟩
        simp only [resolveIn, hall, if_neg hone, hrepeats, hoffsets]

theorem resolveIn_singleton (h : locate chips opts id = .ok line) :
    resolveIn chips opts [id] = .ok ⟨line.path, [line.offset]⟩ :=
  resolveIn_eq_ok_iff.mpr
    ⟨line, [], .cons h .nil, by simp, by simp, rfl⟩

/-- What a list is resolved to is made of lines of one chip of the inventory, none of them twice. -/
theorem exists_chip_of_resolveIn (h : resolveIn chips opts ids = .ok r) :
    ∃ chip ∈ chips, r.chipPath = chip.path ∧ ∀ o ∈ r.offsets, o.toNat < chip.names.length := by
  obtain ⟨first, rest, hlocates, hchips, -, rfl⟩ := resolveIn_eq_ok_iff.mp h
  obtain ⟨chip, hchip, hpath, -⟩ := hlocates.isOn first List.mem_cons_self
  refine ⟨chip, List.mem_of_getElem? hchip, hpath, fun o ho => ?_⟩
  obtain ⟨line, hline, rfl⟩ := List.mem_map.mp ho
  obtain ⟨chip', hchip', -, hlt⟩ := hlocates.isOn line hline
  have hsame : line.chip = first.chip := by
    rcases List.mem_cons.mp hline with rfl | hline
    · rfl
    · exact hchips line hline
  rw [hsame, hchip] at hchip'
  cases hchip'
  exact hlt

/-- As many lines come out of a list as there are identifiers in it, at least one, and none twice. -/
theorem offsets_of_resolveIn (h : resolveIn chips opts ids = .ok r) :
    r.offsets.length = ids.length ∧ r.offsets ≠ [] ∧ r.offsets.Nodup := by
  obtain ⟨first, rest, hlocates, -, hnodup, rfl⟩ := resolveIn_eq_ok_iff.mp h
  refine ⟨?_, List.cons_ne_nil _ _, hnodup⟩
  rw [List.length_map]
  exact hlocates.length_eq.symm

/-- Lines of one path are what their identifiers are resolved to alone. -/
theorem Locates.alone {lines : List Location} {path : String} (h : Locates chips opts ids lines)
    (hpath : ∀ line ∈ lines, line.path = path) :
    List.Forall₂ (fun id offset => resolveIn chips opts [id] = .ok ⟨path, [offset]⟩)
      ids (lines.map (·.offset)) := by
  induction h with
  | nil => exact .nil
  | @cons id line _ _ hline _ ih =>
      have hfirst : line.path = path := hpath line List.mem_cons_self
      refine .cons ?_ (ih fun other hother => hpath other (List.mem_cons_of_mem _ hother))
      rw [← hfirst]
      exact resolveIn_singleton hline

/-- **Position by position.** Each identifier of a list that is resolved is resolved, alone, to the
same chip and to the offset at its own position. -/
theorem resolveIn_alone (h : resolveIn chips opts ids = .ok r) :
    List.Forall₂ (fun id offset => resolveIn chips opts [id] = .ok ⟨r.chipPath, [offset]⟩)
      ids r.offsets := by
  obtain ⟨first, rest, hlocates, hchips, -, rfl⟩ := resolveIn_eq_ok_iff.mp h
  have hpath : ∀ line ∈ first :: rest, line.path = first.path := by
    intro line hline
    rcases List.mem_cons.mp hline with rfl | hrest
    · rfl
    · exact (hlocates.isOn line hline).path_eq (hlocates.isOn first List.mem_cons_self)
        (hchips line hrest)
  exact hlocates.alone hpath

end Resolving

end Resolve
end LineKeeper
