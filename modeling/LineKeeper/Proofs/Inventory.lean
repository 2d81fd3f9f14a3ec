import LineKeeper.Proofs.Lookups

/-!
# The chips that lines are looked up on

The inventory of a machine has an entry for the chosen chip, or for each chip that
is listed.  An entry is read from a chip that was opened, and that chip opens again
at the path of the entry.

**Paths.** A chosen chip is looked for at the path that its identifier means; the
listed ones are in the device directory.  `Lookup.Reaches` says so of a path.

**Results.**
* `offers_of_inventory`: every entry has the path and as many lines as a chip that
  opens, where the lookup reaches.
* `opens_of_resolve`: lines that were resolved are on a chip that opens.
* `isAbsolute_chipPath_iff`: the path that an identifier means begins at the root
  unless the identifier is itself a path that does not.
-/

namespace LineKeeper

section Opening

variable {chips : Chips} {path : String} {chip : Chip}

/-- A chip opens if it is the first at its path, and nothing is wrong with it. -/
theorem Chips.openChip_eq_ok_iff :
    chips.openChip path = .ok chip ↔
      path.toList.contains '\x00' = false ∧ chips.list.find? (·.path = path) = some chip ∧
        chip.openErrno = Option.none ∧ chip.infoErrno = Option.none := by
  constructor
  · intro h
    rw [openChip_eq] at h
    split at h
    · cases h
    · next hnul =>
      split at h
      · cases h
      · next found hfound =>
        split at h
        · cases h
        · cases h
        · next hopen hinfo =>
          cases h
          exact ⟨by simpa using hnul, hfound, hopen, hinfo⟩
  · rintro ⟨hnul, hfind, hopen, hinfo⟩
    simp only [openChip_eq, hnul, Bool.false_eq_true, if_false, hfind, hopen, hinfo]

theorem Chips.path_of_openChip (h : chips.openChip path = .ok chip) : chip.path = path := by
  have hfind := (openChip_eq_ok_iff.mp h).2.1
  simpa using List.find?_some hfind

end Opening

/-- The entry has the path and as many lines as a chip that opens. -/
def Chips.Offers (chips : Chips) (entry : ChipLines) : Prop :=
  ∃ chip, chips.openChip entry.path = .ok chip ∧ entry.names.length = chip.size

/-- Where the chips are that a lookup reads: at the path that the chosen identifier means, or, if
none was chosen, where the listing shows one. -/
def Lookup.Reaches (opts : Lookup) (path : String) : Prop :=
  match opts.chip with
  | some id => path = Resolve.chipPath id
  | none => Resolve.isListed path = true

namespace Resolve

variable {chips : Chips} {opts : Lookup} {ids : List String} {chip : Chip} {path : String}
  {entry : ChipLines} {entries : List ChipLines} {r : Resolved}

section Reading

theorem length_readNames {offset count : Nat} {names : List (Option String)}
    (h : readNames chip offset count = .ok names) : names.length = count := by
  induction count generalizing offset names with
  | zero =>
      cases h
      rfl
  | succ count ih =>
      simp only [readNames] at h
      split at h
      · cases h
      · obtain ⟨more, hmore, h⟩ := bind_eq_ok_iff.mp h
        cases h
        rw [List.length_cons, ih hmore]

theorem readLines_of_ok (h : readLines chip = .ok entry) :
    entry.path = chip.path ∧ entry.names.length = chip.size := by
  obtain ⟨names, hnames, h⟩ := bind_eq_ok_iff.mp h
  cases h
  exact ⟨rfl, length_readNames hnames⟩

/-- An entry that is read from an opened chip has the path at which the chip was opened. -/
theorem offers_of_readLines (hopen : chips.openChip path = .ok chip)
    (h : readLines chip = .ok entry) : chips.Offers entry ∧ entry.path = path := by
  obtain ⟨hpath, hsize⟩ := readLines_of_ok h
  rw [Chips.path_of_openChip hopen] at hpath
  exact ⟨⟨chip, hpath ▸ hopen, hsize⟩, hpath⟩

theorem offers_of_readAll {paths : List String} (h : readAll chips paths = .ok entries) :
    ∀ entry ∈ entries, chips.Offers entry ∧ entry.path ∈ paths := by
  induction paths generalizing entries with
  | nil =>
      cases h
      exact fun _ hmem => absurd hmem List.not_mem_nil
  | cons path paths ih =>
      simp only [readAll] at h
      split at h
      · cases h
      · next chip hopen =>
        obtain ⟨first, hfirst, h⟩ := bind_eq_ok_iff.mp h
        obtain ⟨more, hmore, h⟩ := bind_eq_ok_iff.mp h
        cases h
        intro entry hmem
        rcases List.mem_cons.mp hmem with rfl | hmem
        · obtain ⟨hoffers, rfl⟩ := offers_of_readLines hopen hfirst
          exact ⟨hoffers, List.mem_cons_self⟩
        · obtain ⟨hoffers, hpath⟩ := ih hmore entry hmem
          exact ⟨hoffers, List.mem_cons_of_mem _ hpath⟩

/-- **The inventory.** Every entry is read from a chip that opens where the lookup reaches. -/
theorem offers_of_inventory (h : inventory chips opts = .ok entries) :
    ∀ entry ∈ entries, chips.Offers entry ∧ opts.Reaches entry.path := by
  simp only [inventory] at h
  split at h
  · next id hid =>
    split at h
    · cases h
    · next chip hopen =>
      obtain ⟨only, honly, h⟩ := bind_eq_ok_iff.mp h
      cases h
      intro entry hmem
      obtain rfl := List.mem_singleton.mp hmem
      obtain ⟨hoffers, hpath⟩ := offers_of_readLines hopen honly
      exact ⟨hoffers, by simp only [Lookup.Reaches, hid, hpath]⟩
  · next hnone =>
    split at h
    · cases h
    · intro entry hmem
      obtain ⟨hoffers, hpath⟩ := offers_of_readAll h entry hmem
      refine ⟨hoffers, ?_⟩
      simp only [Lookup.Reaches, hnone]
      exact (List.mem_filter.mp hpath).2

theorem resolve_eq_ok_iff :
    resolve chips opts ids = .ok r ↔
      ∃ entries, inventory chips opts = .ok entries ∧ resolveIn entries opts ids = .ok r :=
  bind_eq_ok_iff

/-- **Where resolved lines are.** Their chip opens at its path, which the lookup reaches, and has
lines at all their offsets. -/
theorem opens_of_resolve (h : resolve chips opts ids = .ok r) :
    opts.Reaches r.chipPath ∧
      ∃ chip, chips.openChip r.chipPath = .ok chip ∧ ∀ o ∈ r.offsets, o.toNat < chip.size := by
  obtain ⟨entries, hentries, hresolve⟩ := resolve_eq_ok_iff.mp h
  obtain ⟨entry, hmem, hpath, hoffsets⟩ := exists_chip_of_resolveIn hresolve
  obtain ⟨⟨chip, hopen, hsize⟩, hreaches⟩ := offers_of_inventory hentries entry hmem
  rw [hpath]
  exact ⟨hreaches, chip, hopen, hsize ▸ hoffsets⟩

theorem offsets_of_resolve (h : resolve chips opts ids = .ok r) :
    r.offsets.length = ids.length ∧ r.offsets ≠ [] ∧ r.offsets.Nodup := by
  obtain ⟨_, -, hresolve⟩ := resolve_eq_ok_iff.mp h
  exact offsets_of_resolveIn hresolve

/-- Each identifier of a list that is resolved is resolved, alone, to the same chip and to the offset
at its own position. -/
theorem resolve_alone (h : resolve chips opts ids = .ok r) :
    List.Forall₂ (fun id offset => resolve chips opts [id] = .ok ⟨r.chipPath, [offset]⟩)
      ids r.offsets := by
  obtain ⟨entries, hentries, hresolve⟩ := resolve_eq_ok_iff.mp h
  exact (resolveIn_alone hresolve).imp fun _ _ halone =>
    resolve_eq_ok_iff.mpr ⟨entries, hentries, halone⟩

end Reading

section Roots

theorem head?_deviceDirectory_append (name : String) :
    (deviceDirectory ++ name).toList.head? = some '/' := by
  rw [String.toList_append]
  rfl

theorem head?_of_isListed (h : isListed path = true) : path.toList.head? = some '/' := by
  simp only [isListed, Bool.and_eq_true] at h
  obtain ⟨rest, hrest⟩ := List.isPrefixOf_iff_prefix.mp h.1.1.1
  rw [← hrest]
  rfl

/-- **Where a chip is looked for.** The path that an identifier means begins at the root, unless the
identifier is itself a path that does not. -/
theorem isAbsolute_chipPath_iff {id : String} :
    Path.isAbsolute (Path.ofString (chipPath id)) = true ↔
      ('/' ∈ id.toList → id.toList.head? = some '/') := by
  rw [Path.isAbsolute_ofString_iff, chipPath]
  split
  · next hslash =>
    exact ⟨fun h _ => h, fun h => h (List.contains_iff_mem.mp hslash)⟩
  · next hslash =>
    have hno : '/' ∉ id.toList := fun h => hslash (List.contains_iff_mem.mpr h)
    split
    · rw [String.append_assoc]
      exact ⟨fun _ h => absurd h hno, fun _ => head?_deviceDirectory_append _⟩
    · exact ⟨fun _ h => absurd h hno, fun _ => head?_deviceDirectory_append _⟩

end Roots

end Resolve
end LineKeeper
