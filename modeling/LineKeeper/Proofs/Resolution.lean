import LineKeeper.Proofs.Lookups
import LineKeeper.Proofs.Numerals

/-!
# The rule of resolution

What identifiers are resolved to is said here without the search for it.

**One identifier.**  While a chip is chosen and names are not forced, an identifier that
spells a word is an offset on the first chip.  Every other one is a name, and means the
first line that has it, by chip and then by offset; in a strict lookup no other line may
have it.  `Means` says which line that is, `Fails` why there is none.

**A list.**  Each identifier has to mean a line, all lines have to be on one chip, and no
two of them may be one line.  `Resolves` says what the list is resolved to, and `Refused`
which rule is broken first.

**Result.** `resolveIn_rule`: for every inventory whose offsets are words, a list is resolved
exactly as `Resolves` says and refused exactly as `Refused` says.
-/

namespace LineKeeper

/-- The line stands before another one, by chip and then by offset. -/
def Location.Before (a b : Location) : Prop :=
  a.chip < b.chip ∨ a.chip = b.chip ∧ a.offset.toNat < b.offset.toNat

theorem Location.Before.ne {a b : Location} (h : a.Before b) : a ≠ b := by
  rintro rfl
  rcases h with h | ⟨-, h⟩ <;> exact Nat.lt_irrefl _ h

namespace Resolve

variable {chips : List ChipLines} {opts : Lookup} {id name : String} {ids : List String}
  {line : Location} {found : List (String × Location)} {r : Resolved} {e : ResolveError}
  {offset : UInt32} {strict : Bool}

section Naming

/-- The line of the inventory has this name. -/
def Named (chips : List ChipLines) (name : String) (line : Location) : Prop :=
  ∃ chip, chips[line.chip]? = some chip ∧ line.path = chip.path ∧
    chip.names[line.offset.toNat]? = some (some name)

/-- Every offset of the inventory is a word. -/
def HaveWords (chips : List ChipLines) : Prop :=
  ∀ chip ∈ chips, chip.names.length < 2 ^ 32

theorem toNat_of_getElem? (h : HaveWords chips) {chip : ChipLines} {i o : Nat}
    {n : Option String} (hchip : chips[i]? = some chip) (hname : chip.names[o]? = some n) :
    (UInt32.ofNat o).toNat = o := by
  have hlength := h chip (List.mem_of_getElem? hchip)
  have ho := (List.getElem?_eq_some_iff.mp hname).1
  exact UInt32.toNat_ofNat_of_lt' (Nat.lt_trans ho hlength)

theorem mem_occurrences_iff (h : HaveWords chips) :
    line ∈ occurrences chips name ↔ Named chips name line := by
  simp only [occurrences, List.mem_flatMap, List.mem_map, List.mem_filter, Prod.exists,
    List.mem_zipIdx_iff_getElem?, decide_eq_true_eq]
  constructor
  · rintro ⟨chip, i, hchip, _, o, ⟨hname, rfl⟩, rfl⟩
    refine ⟨chip, hchip, rfl, ?_⟩
    rw [toNat_of_getElem? h hchip hname]
    exact hname
  · rintro ⟨chip, hchip, hpath, hname⟩
    refine ⟨chip, line.chip, hchip, _, line.offset.toNat, ⟨hname, rfl⟩, ?_⟩
    rw [← hpath, UInt32.ofNat_toNat]

/-- The places of a list come in order. -/
theorem pairwise_zipIdx {α : Type} (l : List α) :
    l.zipIdx.Pairwise fun a b => a.2 < b.2 := by
  rw [← List.pairwise_map (f := Prod.snd) (R := (· < ·)), List.zipIdx_map_snd]
  exact List.pairwise_lt_range'

/-- The lines with a name are found in order. -/
theorem pairwise_occurrences (h : HaveWords chips) (name : String) :
    (occurrences chips name).Pairwise Location.Before := by
  rw [occurrences, List.pairwise_flatMap]
  constructor
  · rintro ⟨chip, i⟩ hchip
    rw [List.mem_zipIdx_iff_getElem?] at hchip
    rw [List.pairwise_map]
    refine List.Pairwise.imp_of_mem ?_ ((pairwise_zipIdx chip.names).filter _)
    rintro ⟨n, o⟩ ⟨n', o'⟩ ho ho' hlt
    have hname := List.mem_zipIdx_iff_getElem?.mp (List.mem_of_mem_filter ho)
    have hname' := List.mem_zipIdx_iff_getElem?.mp (List.mem_of_mem_filter ho')
    refine .inr ⟨rfl, ?_⟩
    rw [toNat_of_getElem? h hchip hname, toNat_of_getElem? h hchip hname']
    exact hlt
  · refine (pairwise_zipIdx chips).imp ?_
    rintro ⟨chip, i⟩ ⟨chip', i'⟩ hlt a ha b hb
    obtain ⟨_, -, rfl⟩ := List.mem_map.mp ha
    obtain ⟨_, -, rfl⟩ := List.mem_map.mp hb
    exact .inl hlt

/-- The first line that has a name, and in a strict lookup the only one. -/
structure Chosen (chips : List ChipLines) (name : String) (strict : Bool) (line : Location) :
    Prop where
  named : Named chips name line
  first : ∀ other, Named chips name other → other = line ∨ line.Before other
  only : strict = true → ∀ other, Named chips name other → other = line

/-- No line has the name, or several have it in a strict lookup. -/
inductive Unclear (chips : List ChipLines) (name : String) (strict : Bool) : ResolveError → Prop
  | notFound (hnone : ∀ line, ¬ Named chips name line) : Unclear chips name strict (.notFound name)
  | notUnique (a b : Location) (hstrict : strict = true) (ha : Named chips name a)
      (hb : Named chips name b) (hne : a ≠ b) : Unclear chips name strict (.notUnique name)

theorem findByName_eq_ok_iff (h : HaveWords chips) :
    findByName chips name strict = .ok line ↔ Chosen chips name strict line := by
  have hmem : ∀ line, Named chips name line ↔ line ∈ occurrences chips name :=
    fun _ => (mem_occurrences_iff h).symm
  have horder := pairwise_occurrences h name
  rw [findByName]
  constructor
  · intro hfind
    split at hfind
    · cases hfind
    · next only hocc =>
      cases hfind
      simp only [hocc, List.mem_singleton] at hmem
      exact ⟨(hmem _).mpr rfl, fun other hother => .inl ((hmem other).mp hother),
        fun _ other hother => (hmem other).mp hother⟩
    · next first second more hocc =>
      split at hfind
      · cases hfind
      · next hlax =>
        cases hfind
        rw [hocc, List.pairwise_cons] at horder
        rw [hocc] at hmem
        refine ⟨(hmem _).mpr List.mem_cons_self, ?_, fun hstrict => absurd hstrict hlax⟩
        intro other hother
        rcases List.mem_cons.mp ((hmem other).mp hother) with rfl | hlater
        · exact .inl rfl
        · exact .inr (horder.1 other hlater)
  · rintro ⟨hnamed, hfirst, honly⟩
    split
    · next hocc =>
      rw [hmem, hocc] at hnamed
      cases hnamed
    · next only hocc =>
      rw [hmem, hocc, List.mem_singleton] at hnamed
      rw [hnamed]
    · next first second more hocc =>
      rw [hocc] at hmem horder
      obtain ⟨hbefore, -⟩ := List.pairwise_cons.mp horder
      -- the head of the list stands before every other line that has the name
      have hhead : first = line := by
        rcases List.mem_cons.mp ((hmem line).mp hnamed) with hline | hlater
        · exact hline.symm
        · rcases hfirst first ((hmem first).mpr List.mem_cons_self) with heq | hafter
          · exact heq
          · rcases hbefore line hlater with hlt | ⟨heq, hlt⟩ <;>
              rcases hafter with hlt' | ⟨heq', hlt'⟩ <;> omega
      split
      · next hstrict =>
        have hsecond := honly hstrict second ((hmem second).mpr (by simp))
        exact absurd (hhead.trans hsecond.symm) (hbefore second List.mem_cons_self).ne
      · rw [hhead]

theorem findByName_eq_error_iff (h : HaveWords chips) :
    findByName chips name strict = .error e ↔ Unclear chips name strict e := by
  have hmem : ∀ line, Named chips name line ↔ line ∈ occurrences chips name :=
    fun _ => (mem_occurrences_iff h).symm
  have horder := pairwise_occurrences h name
  rw [findByName]
  constructor
  · intro hfind
    split at hfind
    · next hocc =>
      cases hfind
      refine .notFound fun line hline => ?_
      rw [hmem, hocc] at hline
      cases hline
    · cases hfind
    · next first second more hocc =>
      split at hfind
      · next hstrict =>
        cases hfind
        rw [hocc] at hmem horder
        exact .notUnique first second hstrict ((hmem _).mpr (by simp)) ((hmem _).mpr (by simp))
          ((List.pairwise_cons.mp horder).1 second List.mem_cons_self).ne
      · cases hfind
  · intro hunclear
    cases hunclear with
    | notFound hnone =>
        split
        · rfl
        · next only hocc => exact absurd ((hmem only).mpr (by simp [hocc])) (hnone only)
        · next first second more hocc => exact absurd ((hmem first).mpr (by simp [hocc])) (hnone first)
    | notUnique a b hstrict ha hb hne =>
        rw [hmem] at ha hb
        split
        · next hocc =>
          rw [hocc] at ha
          cases ha
        · next only hocc =>
          rw [hocc, List.mem_singleton] at ha hb
          exact absurd (ha.trans hb.symm) hne
        · rw [if_pos hstrict]

end Naming

section Meaning

/-- The identifier spells a word, and is therefore an offset on the chosen chip. -/
def IsOffset (opts : Lookup) (id : String) (offset : UInt32) : Prop :=
  opts.chip ≠ none ∧ opts.byName = false ∧ Text.Decimal.Spells id.toList offset.toNat

theorem offset?_eq_some_iff : offset? opts id = some offset ↔ IsOffset opts id offset := by
  have hread : (Text.Decimal.readUInt32 id).toOption = some offset ↔
      Text.Decimal.Spells id.toList offset.toNat := by
    rw [← Text.Decimal.readUInt32_eq_ok_iff]
    cases Text.Decimal.readUInt32 id <;> simp [Except.toOption]
  rw [offset?, IsOffset, ← hread, ← Option.isSome_iff_ne_none]
  cases opts.chip.isSome <;> cases opts.byName <;> simp

theorem offset?_eq_none_iff : offset? opts id = none ↔ ∀ offset, ¬ IsOffset opts id offset := by
  rw [Option.eq_none_iff_forall_ne_some]
  exact forall_congr' fun offset => not_congr offset?_eq_some_iff

/-- The line that an identifier means. -/
inductive Means (chips : List ChipLines) (opts : Lookup) (id : String) : Location → Prop
  | offset (offset : UInt32) (chip : ChipLines) (hspells : IsOffset opts id offset)
      (hfirst : chips.head? = some chip) (hlt : offset.toNat < chip.names.length) :
      Means chips opts id ⟨0, chip.path, offset⟩
  | name (line : Location) (hname : ∀ offset, ¬ IsOffset opts id offset)
      (hchosen : Chosen chips id opts.strict line) : Means chips opts id line

/-- Why an identifier means no line. -/
inductive Fails (chips : List ChipLines) (opts : Lookup) (id : String) : ResolveError → Prop
  | noChip (offset : UInt32) (hspells : IsOffset opts id offset) (hnone : chips = []) :
      Fails chips opts id (.noChip offset)
  | outOfRange (offset : UInt32) (chip : ChipLines) (hspells : IsOffset opts id offset)
      (hfirst : chips.head? = some chip) (hge : chip.names.length ≤ offset.toNat) :
      Fails chips opts id (.outOfRange offset chip.path)
  | name (e : ResolveError) (hname : ∀ offset, ¬ IsOffset opts id offset)
      (hunclear : Unclear chips id opts.strict e) : Fails chips opts id e

theorem findByOffset_eq_ok_iff :
    findByOffset chips offset = .ok line ↔
      ∃ chip, chips.head? = some chip ∧ offset.toNat < chip.names.length ∧
        line = ⟨0, chip.path, offset⟩ := by
  cases chips with
  | nil => simp [findByOffset]
  | cons chip more =>
      by_cases hlt : offset.toNat < chip.names.length <;>
        simp [findByOffset, hlt, eq_comm]

theorem findByOffset_eq_error_iff :
    findByOffset chips offset = .error e ↔
      chips = [] ∧ e = .noChip offset ∨
        ∃ chip, chips.head? = some chip ∧ chip.names.length ≤ offset.toNat ∧
          e = .outOfRange offset chip.path := by
  cases chips with
  | nil => simp [findByOffset, eq_comm]
  | cons chip more =>
      by_cases hlt : offset.toNat < chip.names.length
      · simp [findByOffset, hlt, Nat.not_le_of_lt hlt]
      · simp [findByOffset, hlt, Nat.le_of_not_lt hlt, eq_comm]

/-- An identifier spells at most one word. -/
theorem IsOffset.unique {offset' : UInt32} (h : IsOffset opts id offset)
    (h' : IsOffset opts id offset') : offset = offset' :=
  Option.some.inj ((offset?_eq_some_iff.mpr h).symm.trans (offset?_eq_some_iff.mpr h'))

theorem locate_eq_ok_iff (h : HaveWords chips) :
    locate chips opts id = .ok line ↔ Means chips opts id line := by
  cases hoffset : offset? opts id with
  | some offset =>
      have hspells := offset?_eq_some_iff.mp hoffset
      rw [locate_offset hoffset, findByOffset_eq_ok_iff]
      constructor
      · rintro ⟨chip, hfirst, hlt, rfl⟩
        exact .offset offset chip hspells hfirst hlt
      · intro hmeans
        cases hmeans with
        | offset _ chip hspells' hfirst hlt =>
            obtain rfl := hspells.unique hspells'
            exact ⟨chip, hfirst, hlt, rfl⟩
        | name _ hname _ => exact absurd hspells (hname offset)
  | none =>
      have hname := offset?_eq_none_iff.mp hoffset
      rw [locate_name hoffset, findByName_eq_ok_iff h]
      constructor
      · exact .name line hname
      · intro hmeans
        cases hmeans with
        | offset offset _ hspells _ _ => exact absurd hspells (hname offset)
        | name _ _ hchosen => exact hchosen

theorem locate_eq_error_iff (h : HaveWords chips) :
    locate chips opts id = .error e ↔ Fails chips opts id e := by
  cases hoffset : offset? opts id with
  | some offset =>
      have hspells := offset?_eq_some_iff.mp hoffset
      rw [locate_offset hoffset, findByOffset_eq_error_iff]
      constructor
      · rintro (⟨hnone, rfl⟩ | ⟨chip, hfirst, hge, rfl⟩)
        · exact .noChip offset hspells hnone
        · exact .outOfRange offset chip hspells hfirst hge
      · intro hfails
        cases hfails with
        | noChip _ hspells' hnone =>
            obtain rfl := hspells.unique hspells'
            exact .inl ⟨hnone, rfl⟩
        | outOfRange _ chip hspells' hfirst hge =>
            obtain rfl := hspells.unique hspells'
            exact .inr ⟨chip, hfirst, hge, rfl⟩
        | name _ hname _ => exact absurd hspells (hname offset)
  | none =>
      have hname := offset?_eq_none_iff.mp hoffset
      rw [locate_name hoffset, findByName_eq_error_iff h]
      constructor
      · exact .name e hname
      · intro hfails
        cases hfails with
        | noChip offset hspells _ => exact absurd hspells (hname offset)
        | outOfRange offset _ hspells _ _ => exact absurd hspells (hname offset)
        | name _ _ hunclear => exact hunclear

end Meaning

section Lists

/-- The lines that identifiers mean, one by one. -/
def MeanAll (chips : List ChipLines) (opts : Lookup) (ids : List String)
    (lines : List Location) : Prop :=
  List.Forall₂ (Means chips opts) ids lines

theorem locates_iff (h : HaveWords chips) {lines : List Location} :
    Locates chips opts ids lines ↔ MeanAll chips opts ids lines :=
  ⟨List.Forall₂.imp fun _ _ => (locate_eq_ok_iff h).mp,
    List.Forall₂.imp fun _ _ => (locate_eq_ok_iff h).mpr⟩

/-- Not all identifiers are located exactly if there is a first one that is not. -/
theorem locateAll_eq_error_iff :
    locateAll chips opts ids = .error e ↔
      ∃ before id later lines, ids = before ++ id :: later ∧
        Locates chips opts before lines ∧ locate chips opts id = .error e := by
  induction ids with
  | nil =>
      refine iff_of_false (by rintro ⟨⟩) ?_
      rintro ⟨before, id, later, -, hsplit, -⟩
      cases before <;> cases hsplit
  | cons id ids ih =>
      rw [locateAll, bind_eq_error_iff]
      constructor
      · rintro (hlocate | ⟨line, hlocate, hrest⟩)
        · exact ⟨[], id, ids, [], rfl, .nil, hlocate⟩
        · rcases bind_eq_error_iff.mp hrest with hmore | ⟨_, _, hpure⟩
          · obtain ⟨before, first, later, lines, rfl, hbefore, hfirst⟩ := ih.mp hmore
            exact ⟨id :: before, first, later, line :: lines, rfl, .cons hlocate hbefore, hfirst⟩
          · exact absurd hpure pure_ne_error
      · rintro ⟨before, first, later, lines, hsplit, hbefore, hfirst⟩
        cases hbefore with
        | nil =>
            cases hsplit
            exact .inl hfirst
        | @cons _ line before lines hlocate hbefore =>
            cases hsplit
            refine .inr ⟨line, hlocate, bind_eq_error_iff.mpr (.inl ?_)⟩
            exact ih.mpr ⟨before, first, later, lines, rfl, hbefore, hfirst⟩

/-- The identifier that is reported is the first whose offset was seen before. -/
theorem firstRepeated?_eq_some_iff {seen : List UInt32} :
    firstRepeated? seen found = some id ↔
      ∃ before line later, found = before ++ (id, line) :: later ∧
        (before.map (·.2.offset)).Nodup ∧ (∀ p ∈ before, p.2.offset ∉ seen) ∧
        (line.offset ∈ seen ∨ line.offset ∈ before.map (·.2.offset)) := by
  induction found generalizing seen with
  | nil =>
      refine iff_of_false (by rintro ⟨⟩) ?_
      rintro ⟨before, line, later, hsplit, -⟩
      cases before <;> cases hsplit
  | cons p found ih =>
      rw [firstRepeated?]
      split
      · next hseen =>
        constructor
        · rintro ⟨⟩
          exact ⟨[], p.2, found, rfl, List.nodup_nil, by simp, .inl hseen⟩
        · rintro ⟨before, line, later, hsplit, -, hfresh, -⟩
          cases before with
          | nil =>
              cases hsplit
              rfl
          | cons q before =>
              cases hsplit
              exact absurd hseen (hfresh p List.mem_cons_self)
      · next hnew =>
        rw [ih]
        constructor
        · rintro ⟨before, line, later, rfl, hnodup, hfresh, hagain⟩
          refine ⟨p :: before, line, later, rfl, ?_, ?_, ?_⟩
          · rw [List.map_cons, List.nodup_cons, List.mem_map]
            refine ⟨?_, hnodup⟩
            rintro ⟨q, hq, hsame⟩
            exact hfresh q hq (hsame ▸ List.mem_cons_self)
          · rintro q hq
            rcases List.mem_cons.mp hq with rfl | hq
            · exact hnew
            · exact fun hseen => hfresh q hq (List.mem_cons_of_mem _ hseen)
          · rcases hagain with hseen | hbefore
            · rcases List.mem_cons.mp hseen with heq | hseen
              · exact .inr (heq ▸ List.mem_cons_self)
              · exact .inl hseen
            · exact .inr (List.mem_cons_of_mem _ hbefore)
        · rintro ⟨before, line, later, hsplit, hnodup, hfresh, hagain⟩
          cases before with
          | nil =>
              cases hsplit
              rcases hagain with hseen | hbefore
              · exact absurd hseen hnew
              · cases hbefore
          | cons q before =>
              cases hsplit
              rw [List.map_cons, List.nodup_cons] at hnodup
              refine ⟨before, line, later, rfl, hnodup.2, ?_, ?_⟩
              · intro q hq hseen
                rcases List.mem_cons.mp hseen with heq | hseen
                · exact hnodup.1 (List.mem_map.mpr ⟨q, hq, heq⟩)
                · exact hfresh q (List.mem_cons_of_mem _ hq) hseen
              · rcases hagain with hseen | hbefore
                · exact .inl (List.mem_cons_of_mem _ hseen)
                · rcases List.mem_cons.mp hbefore with heq | hbefore
                  · exact .inl (heq ▸ List.mem_cons_self)
                  · exact .inr hbefore

/-- What identifiers are resolved to: they mean different lines of one chip. -/
structure Resolves (chips : List ChipLines) (opts : Lookup) (ids : List String) (r : Resolved) :
    Prop where
  some : ids ≠ []
  lines : ∃ lines i chip, MeanAll chips opts ids lines ∧ chips[i]? = Option.some chip ∧
    (∀ line ∈ lines, line.chip = i) ∧ (lines.map (·.offset)).Nodup ∧
    r = ⟨chip.path, lines.map (·.offset)⟩

/-- The rule that identifiers break first. -/
inductive Refused (chips : List ChipLines) (opts : Lookup) (ids : List String) :
    ResolveError → Prop
  | noLines (hnil : ids = []) : Refused chips opts ids .noLines
  | unresolved (before later : List String) (id : String) (lines : List Location)
      (e : ResolveError) (hids : ids = before ++ id :: later)
      (hbefore : MeanAll chips opts before lines) (hfails : Fails chips opts id e) :
      Refused chips opts ids e
  | severalChips (lines : List Location) (a b : Location) (hall : MeanAll chips opts ids lines)
      (ha : a ∈ lines) (hb : b ∈ lines) (hchips : a.chip ≠ b.chip) :
      Refused chips opts ids .severalChips
  | repeated (before later : List String) (id : String) (firsts lasts : List Location)
      (line : Location) (hids : ids = before ++ id :: later)
      (hbefore : MeanAll chips opts before firsts) (hline : Means chips opts id line)
      (hlater : MeanAll chips opts later lasts)
      (hchips : ∀ other ∈ firsts ++ lasts, other.chip = line.chip)
      (hfirsts : (firsts.map (·.offset)).Nodup) (hagain : line.offset ∈ firsts.map (·.offset)) :
      Refused chips opts ids (.repeated id)

theorem locateAll_eq_ok_iff_forall :
    locateAll chips opts ids = .ok found ↔
      found.map Prod.fst = ids ∧ ∀ p ∈ found, locate chips opts p.1 = .ok p.2 := by
  rw [locateAll_eq_ok_iff, Locates]
  refine and_congr_right fun hids => ?_
  rw [← hids, List.forall₂_map_left_iff, List.forall₂_map_right_iff, List.forall₂_same]

theorem meanAll_iff (h : HaveWords chips) {lines : List Location} :
    MeanAll chips opts ids lines ↔
      ∃ found, locateAll chips opts ids = .ok found ∧ found.map Prod.snd = lines := by
  rw [← locates_iff h]
  constructor
  · intro hall
    have hlength := hall.length_eq
    have hids : (ids.zip lines).map Prod.fst = ids := List.map_fst_zip (Nat.le_of_eq hlength)
    have hlines : (ids.zip lines).map Prod.snd = lines :=
      List.map_snd_zip (Nat.le_of_eq hlength.symm)
    exact ⟨ids.zip lines, locateAll_eq_ok_iff.mpr ⟨hids, hlines.symm ▸ hall⟩, hlines⟩
  · rintro ⟨found, hall, rfl⟩
    exact (locateAll_eq_ok_iff.mp hall).2

/-- **The order of the checks.** First every identifier is located; then there has to be one; then
all lines have to be on one chip; then no two may have one offset. -/
theorem resolveIn_eq_error_iff :
    resolveIn chips opts ids = .error e ↔
      locateAll chips opts ids = .error e ∨
      locateAll chips opts ids = .ok [] ∧ e = .noLines ∨
      ∃ first found, locateAll chips opts ids = .ok (first :: found) ∧
        ((∃ p ∈ found, p.2.chip ≠ first.2.chip) ∧ e = .severalChips ∨
          (∀ p ∈ found, p.2.chip = first.2.chip) ∧
            ∃ id, firstRepeated? [] (first :: found) = some id ∧ e = .repeated id) := by
  rw [resolveIn]
  cases hall : locateAll chips opts ids with
  | error why => simp [eq_comm]
  | ok all =>
      cases all with
      | nil => simp [eq_comm]
      | cons first found =>
          obtain ⟨named, line⟩ := first
          have hany : (found.any fun l => l.2.chip ≠ line.chip) = true ↔
              ∃ p ∈ found, p.2.chip ≠ line.chip := by
            simp only [List.any_eq_true, decide_eq_true_eq]
          dsimp only
          by_cases hseveral : ∃ p ∈ found, p.2.chip ≠ line.chip
          · rw [if_pos (hany.mpr hseveral)]
            constructor
            · rintro ⟨⟩
              exact .inr (.inr ⟨_, found, rfl, .inl ⟨hseveral, rfl⟩⟩)
            · rintro (⟨⟨⟩⟩ | ⟨⟨⟩, -⟩ | ⟨_, _, ⟨⟩, ⟨-, rfl⟩ | ⟨hone, -⟩⟩)
              · rfl
              · obtain ⟨p, hp, hne⟩ := hseveral
                exact absurd (hone p hp) hne
          · rw [if_neg (mt hany.mp hseveral)]
            have hone : ∀ p ∈ found, p.2.chip = line.chip := by
              intro p hp
              by_contra hne
              exact hseveral ⟨p, hp, hne⟩
            constructor
            · intro h
              split at h
              · next id hagain =>
                cases h
                exact .inr (.inr ⟨_, found, rfl, .inr ⟨hone, id, hagain, rfl⟩⟩)
              · cases h
            · rintro (⟨⟨⟩⟩ | ⟨⟨⟩, -⟩ | ⟨_, _, ⟨⟩, ⟨hsome, -⟩ | ⟨-, id, hagain, rfl⟩⟩)
              · exact absurd hsome hseveral
              · rw [hagain]

theorem resolves_iff (h : HaveWords chips) :
    resolveIn chips opts ids = .ok r ↔ Resolves chips opts ids r := by
  rw [resolveIn_eq_ok_iff]
  constructor
  · rintro ⟨first, rest, hlocates, hchips, hnodup, rfl⟩
    obtain ⟨chip, hchip, hpath, -⟩ := hlocates.isOn first List.mem_cons_self
    refine ⟨?_, first :: rest, first.chip, chip, (locates_iff h).mp hlocates, hchip, ?_, hnodup,
      by rw [hpath]⟩
    · rintro rfl
      cases hlocates
    · intro line hline
      rcases List.mem_cons.mp hline with rfl | hline
      · rfl
      · exact hchips line hline
  · rintro ⟨hsome, lines, i, chip, hall, hchip, hone, hnodup, rfl⟩
    have hlocates := (locates_iff h).mpr hall
    cases lines with
    | nil =>
        cases hlocates
        exact absurd rfl hsome
    | cons first rest =>
        obtain ⟨chip', hchip', hpath, -⟩ := hlocates.isOn first List.mem_cons_self
        rw [hone first List.mem_cons_self, hchip] at hchip'
        cases hchip'
        refine ⟨first, rest, hlocates, ?_, hnodup, by rw [hpath]⟩
        intro line hline
        rw [hone line (List.mem_cons_of_mem _ hline), hone first List.mem_cons_self]

/-- What was located, part by part. -/
theorem locateAll_append (h : HaveWords chips) {before later : List String}
    {befores laters : List (String × Location)}
    (hbefore : locateAll chips opts before = .ok befores) (hline : Means chips opts id line)
    (hlater : locateAll chips opts later = .ok laters) :
    locateAll chips opts (before ++ id :: later) = .ok (befores ++ (id, line) :: laters) := by
  rw [locateAll_eq_ok_iff_forall] at hbefore hlater ⊢
  refine ⟨by rw [List.map_append, List.map_cons, hbefore.1, hlater.1], ?_⟩
  intro p hp
  rcases List.mem_append.mp hp with hp | hp
  · exact hbefore.2 p hp
  · rcases List.mem_cons.mp hp with rfl | hp
    · exact (locate_eq_ok_iff h).mpr hline
    · exact hlater.2 p hp

theorem meanAll_part (h : HaveWords chips)
    (hlocate : ∀ p ∈ found, locate chips opts p.1 = .ok p.2) :
    MeanAll chips opts (found.map Prod.fst) (found.map Prod.snd) :=
  (meanAll_iff h).mpr ⟨found, locateAll_eq_ok_iff_forall.mpr ⟨rfl, hlocate⟩, rfl⟩

/-- Where a line of one chip is named again, the first identifier that does so is refused. -/
theorem refused_of_repeated {i : Nat} (h : HaveWords chips)
    (hall : locateAll chips opts ids = .ok found) (hone : ∀ p ∈ found, p.2.chip = i)
    (hagain : firstRepeated? [] found = some id) : Refused chips opts ids (.repeated id) := by
  obtain ⟨before, line, later, rfl, hfirsts, -, hrepeats⟩ := firstRepeated?_eq_some_iff.mp hagain
  obtain ⟨hids, hlocate⟩ := locateAll_eq_ok_iff_forall.mp hall
  rw [List.forall_mem_append, List.forall_mem_cons] at hlocate hone
  obtain ⟨hbefore, hline, hlater⟩ := hlocate
  obtain ⟨honeBefore, honeLine, honeLater⟩ := hone
  refine .repeated (before.map Prod.fst) (later.map Prod.fst) id (before.map Prod.snd)
    (later.map Prod.snd) line (by rw [← hids, List.map_append, List.map_cons])
    (meanAll_part h hbefore) ((locate_eq_ok_iff h).mp hline) (meanAll_part h hlater) ?_ ?_ ?_
  · rw [List.forall_mem_append, List.forall_mem_map, List.forall_mem_map]
    exact ⟨fun p hp => (honeBefore p hp).trans honeLine.symm,
      fun p hp => (honeLater p hp).trans honeLine.symm⟩
  · rw [map_offset_snd]
    exact hfirsts
  · rw [map_offset_snd]
    exact hrepeats.resolve_left List.not_mem_nil

/-- If identifiers mean lines of several chips, one of them means a line of another chip than the
first one does. -/
theorem exists_other_chip {lines : List Location} {a b : Location} (h : HaveWords chips)
    (hall : MeanAll chips opts ids lines) (ha : a ∈ lines) (hb : b ∈ lines)
    (hne : a.chip ≠ b.chip) :
    ∃ first found, locateAll chips opts ids = .ok (first :: found) ∧
      ∃ p ∈ found, p.2.chip ≠ first.2.chip := by
  obtain ⟨found, hfound, rfl⟩ := (meanAll_iff h).mp hall
  obtain ⟨p, hp, rfl⟩ := List.mem_map.mp ha
  obtain ⟨q, hq, rfl⟩ := List.mem_map.mp hb
  cases found with
  | nil => cases hp
  | cons first found =>
      refine ⟨first, found, hfound, ?_⟩
      by_contra hnone
      have hone : ∀ x ∈ first :: found, x.2.chip = first.2.chip := by
        rw [List.forall_mem_cons]
        refine ⟨rfl, fun x hx => ?_⟩
        by_contra hother
        exact hnone ⟨x, hx, hother⟩
      exact hne ((hone p hp).trans (hone q hq).symm)

/-- If an identifier is the first that means an earlier line, it is found to be. -/
theorem exists_repeated {before later : List String} {firsts lasts : List Location}
    (h : HaveWords chips) (hbefore : MeanAll chips opts before firsts)
    (hline : Means chips opts id line) (hlater : MeanAll chips opts later lasts)
    (hchips : ∀ other ∈ firsts ++ lasts, other.chip = line.chip)
    (hfirsts : (firsts.map (·.offset)).Nodup) (hagain : line.offset ∈ firsts.map (·.offset)) :
    ∃ first found, locateAll chips opts (before ++ id :: later) = .ok (first :: found) ∧
      (∀ p ∈ found, p.2.chip = first.2.chip) ∧ firstRepeated? [] (first :: found) = some id := by
  obtain ⟨befores, hbefores, rfl⟩ := (meanAll_iff h).mp hbefore
  obtain ⟨laters, hlaters, rfl⟩ := (meanAll_iff h).mp hlater
  rw [map_offset_snd] at hfirsts hagain
  have hall := locateAll_append h hbefores hline hlaters
  have hfound : firstRepeated? [] (befores ++ (id, line) :: laters) = some id :=
    firstRepeated?_eq_some_iff.mpr ⟨befores, line, laters, rfl, hfirsts, by simp, .inr hagain⟩
  have hone : ∀ p ∈ befores ++ (id, line) :: laters, p.2.chip = line.chip := by
    rw [List.forall_mem_append, List.forall_mem_map, List.forall_mem_map] at hchips
    rw [List.forall_mem_append, List.forall_mem_cons]
    exact ⟨hchips.1, rfl, hchips.2⟩
  generalize befores ++ (id, line) :: laters = all at hall hfound hone
  cases all with
  | nil => cases hfound
  | cons first found =>
      rw [List.forall_mem_cons] at hone
      exact ⟨first, found, hall, fun p hp => (hone.2 p hp).trans hone.1.symm, hfound⟩

theorem refused_iff (h : HaveWords chips) :
    resolveIn chips opts ids = .error e ↔ Refused chips opts ids e := by
  rw [resolveIn_eq_error_iff]
  constructor
  · rintro (hlocate | ⟨hall, rfl⟩ | ⟨first, found, hall, hchecks⟩)
    · obtain ⟨before, id, later, lines, hids, hbefore, hfails⟩ := locateAll_eq_error_iff.mp hlocate
      exact .unresolved before later id lines e hids ((locates_iff h).mp hbefore)
        ((locate_eq_error_iff h).mp hfails)
    · exact .noLines (locateAll_eq_ok_iff.mp hall).1.symm
    · rcases hchecks with ⟨⟨p, hp, hne⟩, rfl⟩ | ⟨hone, id, hagain, rfl⟩
      · exact .severalChips _ p.2 first.2 ((meanAll_iff h).mpr ⟨_, hall, rfl⟩)
          (List.mem_cons_of_mem _ (List.mem_map_of_mem hp)) List.mem_cons_self hne
      · exact refused_of_repeated h hall (List.forall_mem_cons.mpr ⟨rfl, hone⟩) hagain
  · intro hrefused
    cases hrefused with
    | noLines hnil =>
        subst hnil
        exact .inr (.inl ⟨rfl, rfl⟩)
    | unresolved before later id lines _ hids hbefore hfails =>
        exact .inl (locateAll_eq_error_iff.mpr ⟨before, id, later, lines, hids,
          (locates_iff h).mpr hbefore, (locate_eq_error_iff h).mpr hfails⟩)
    | severalChips lines a b hall ha hb hchips =>
        obtain ⟨first, found, hfound, hother⟩ := exists_other_chip h hall ha hb hchips
        exact .inr (.inr ⟨first, found, hfound, .inl ⟨hother, rfl⟩⟩)
    | repeated before later id firsts lasts line hids hbefore hline hlater hchips hfirsts hagain =>
        subst hids
        obtain ⟨first, found, hall, hone, hfound⟩ :=
          exists_repeated h hbefore hline hlater hchips hfirsts hagain
        exact .inr (.inr ⟨first, found, hall, .inr ⟨hone, id, hfound, rfl⟩⟩)

/-- **The rule of resolution.** On an inventory whose offsets are words, identifiers are resolved
exactly if they mean different lines of one chip, to these lines, and are refused exactly for the
rule that they break first. -/
theorem resolveIn_rule (hwords : ∀ chip ∈ chips, chip.names.length < 2 ^ 32) :
    (∀ r, resolveIn chips opts ids = .ok r ↔ Resolves chips opts ids r) ∧
      ∀ e, resolveIn chips opts ids = .error e ↔ Refused chips opts ids e :=
  ⟨fun _ => resolves_iff hwords, fun _ => refused_iff hwords⟩

/-- Two chips.  A name is on both of them, and one name looks like a number. -/
def stock : List ChipLines :=
  [⟨"/dev/gpiochip0", [some "led", none, some "button", some "dup", some "4294967296"]⟩,
    ⟨"/dev/gpiochip1", [some "relay", some "dup"]⟩]

/-- On the first of them, a number that is no word is a name; and a line can be named twice in three
ways. -/
theorem stock_rule :
    (∀ chip ∈ stock, chip.names.length < 2 ^ 32) ∧
      Resolves stock ⟨some "0", false, false⟩ ["+01", "4294967296", "dup"]
        ⟨"/dev/gpiochip0", [1, 4, 3]⟩ ∧
      Refused stock ⟨some "0", false, true⟩ ["2", "dup"] (.notUnique "dup") ∧
      Refused stock ⟨none, false, false⟩ ["led", "relay", "led"] .severalChips ∧
      Refused stock ⟨some "0", false, false⟩ ["2", "led", "+2", "button"] (.repeated "+2") := by
  have hwords : ∀ chip ∈ stock, chip.names.length < 2 ^ 32 := by decide
  exact ⟨hwords, ((resolveIn_rule hwords).1 _).mp (by decide +kernel),
    ((resolveIn_rule hwords).2 _).mp (by decide +kernel),
    ((resolveIn_rule hwords).2 _).mp (by decide +kernel),
    ((resolveIn_rule hwords).2 _).mp (by decide +kernel)⟩

end Lists

end Resolve
end LineKeeper
