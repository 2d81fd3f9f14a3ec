import LineKeeper.Proofs.Building
import LineKeeper.Proofs.Inventory
import LineKeeper.CommandLine.Options

/-!
# The request that a command line makes

The lines that a command line names are resolved first; then a request is built for
them, with the levels and the label that the command line gives.

**Checks.**  What was resolved has already passed checks that building makes again:
there are lines, and none comes twice.  Levels that were read are valid, and there
is one for each line.  So only three limits are left to be broken: those on the
length of the chip's path, on the number of lines, and on the label.
`Options.Breaks` says which of them is broken first.

**Results.**
* `buildSpec_eq_ok_iff`, `buildSpec_eq_error_iff`: what is built for lines that were
  resolved, and why nothing is.
* `lineSpec_aligned`: offsets, values and settings of the request are those of the
  command line, position by position.
-/

namespace LineKeeper
namespace CommandLine.Options

variable {o : Options} {chips : Chips} {found : Resolved} {output : Bool} {lines : List LineArg}
  {spec : LineSpec}

section Building

/-- The levels that the lines are to have: those without one are low. -/
def wantedLevels (lines : List LineArg) : List Bool :=
  lines.map (·.level.getD false)

/-- What the request for resolved lines says. -/
def partsFor (o : Options) (found : Resolved) (output : Bool) (lines : List LineArg) :
    LineSpec.Parts where
  chipPath := found.chipPath
  consumer := o.consumer.getD ""
  offsets := found.offsets
  levels := wantedLevels lines
  activeLow := o.activeLow
  output := output || lines.any (·.level.isSome)

/-- The limit that is broken first when a request is built for lines that were resolved. -/
inductive Breaks (o : Options) (found : Resolved) : WireError → Prop
  | longPath
      (hpath : Field.chipPath.width < (Text.Utf8.encode found.chipPath).length) :
      Breaks o found (.fieldTooLong .chipPath)
  | manyLines
      (hpath : (Text.Utf8.encode found.chipPath).length ≤ Field.chipPath.width)
      (hlines : maxLines < found.offsets.length) :
      Breaks o found (.tooManyLines found.offsets.length)
  | longLabel (label : String)
      (hpath : (Text.Utf8.encode found.chipPath).length ≤ Field.chipPath.width)
      (hlines : found.offsets.length ≤ maxLines)
      (hlabel : o.consumer = some label)
      (hlong : Field.consumer.width < (Text.Utf8.encode label).length) :
      Breaks o found (.fieldTooLong .consumer)
  | nulInLabel (label : String)
      (hpath : (Text.Utf8.encode found.chipPath).length ≤ Field.chipPath.width)
      (hlines : found.offsets.length ≤ maxLines)
      (hlabel : o.consumer = some label)
      (hfits : (Text.Utf8.encode label).length ≤ Field.consumer.width)
      (hnul : '\x00' ∈ label.toList) :
      Breaks o found (.invalidString .consumer)

/-- What the request says before lines are driven. -/
def settledParts (o : Options) (found : Resolved) : LineSpec.Parts where
  chipPath := found.chipPath
  consumer := o.consumer.getD ""
  offsets := found.offsets
  levels := List.replicate found.offsets.length false
  activeLow := o.activeLow
  output := false

/-- The request with the label that the command line gives, if it gives one. -/
def labelled (o : Options) (spec : LineSpec) : Except WireError LineSpec :=
  match o.consumer with
  | some label => spec.withConsumer label
  | none => .ok spec

/-- The request before lines are driven. -/
def settled (o : Options) (found : Resolved) : Except WireError LineSpec :=
  LineSpec.new found.chipPath found.offsets >>= fun spec =>
    o.labelled (spec.withActiveLow o.activeLow)

/-- The request with the levels that the command line gives, if it asks for outputs. -/
def driven (output : Bool) (lines : List LineArg) (spec : LineSpec) : Except WireError LineSpec :=
  if output || lines.any (·.level.isSome) then
    spec.withOutputValues (lines.map fun l => levelByte (l.level.getD false))
  else .ok spec

theorem buildSpec_eq :
    o.buildSpec found output lines = o.settled found >>= driven output lines := by
  rw [settled, bind_assoc]
  simp only [buildSpec, labelled]
  cases o.consumer <;> rfl

theorem labelled_eq_ok_iff {spec next : LineSpec} (hbare : spec.parts.consumer = "") :
    o.labelled spec = .ok next ↔
      next.parts = { spec.parts with consumer := o.consumer.getD "" } := by
  rw [labelled]
  cases o.consumer with
  | some label => exact LineSpec.withConsumer_eq_ok_iff
  | none =>
      rw [Option.getD_none, ← hbare, Except.ok.injEq]
      exact ⟨fun h => h ▸ rfl, fun h => (LineSpec.eq_of_parts_eq h).symm⟩

/-- Only a label that the command line gives can be refused. -/
theorem labelled_eq_error_iff {spec : LineSpec} {e : WireError} :
    o.labelled spec = .error e ↔
      ∃ label, o.consumer = some label ∧ FieldText.ofString .consumer label = .error e := by
  rw [labelled]
  cases o.consumer with
  | none => simp
  | some label =>
      simp only [LineSpec.withConsumer_eq_error_iff, Option.some.injEq, exists_eq_left']

theorem settled_eq_ok_iff : o.settled found = .ok spec ↔ spec.parts = o.settledParts found := by
  have hlow : ∀ bare : LineSpec, (bare.withActiveLow o.activeLow).parts =
      { bare.parts with activeLow := o.activeLow } := fun _ => rfl
  rw [settled, bind_eq_ok_iff]
  constructor
  · rintro ⟨bare, hbare, hlabel⟩
    have hparts := LineSpec.new_eq_ok_iff.mp hbare
    rw [labelled_eq_ok_iff (by rw [hlow, hparts]), hlow, hparts] at hlabel
    exact hlabel
  · intro h
    obtain ⟨hpath, -, hoffsets, -⟩ := LineSpec.parts_eq_iff.mp h
    have hbare : spec.bare.parts = ⟨found.chipPath, "", found.offsets,
        List.replicate found.offsets.length false, false, false⟩ := by
      rw [LineSpec.parts_bare, hpath, hoffsets]
      rfl
    refine ⟨spec.bare, LineSpec.new_eq_ok_iff.mpr hbare, ?_⟩
    rw [labelled_eq_ok_iff (by rw [hlow, hbare]), hlow, hbare]
    exact h

/-- A request is not settled exactly if a limit is broken, on the path, on the number of lines or on
the label. -/
theorem settled_eq_error_iff {e : WireError} (hnul : '\x00' ∉ found.chipPath.toList)
    (hne : found.offsets ≠ []) (hnodup : found.offsets.Nodup) :
    o.settled found = .error e ↔ o.Breaks found e := by
  have hzero : (0 : UInt8) ∉ Text.Utf8.encode found.chipPath := fun h =>
    hnul ((Text.Utf8.mem_encode_iff (d := '\x00') (by decide)).mp h)
  have hpath : FieldText.ofString .chipPath found.chipPath = .error e ↔
      Field.chipPath.width < (Text.Utf8.encode found.chipPath).length ∧
        e = .fieldTooLong .chipPath := by
    simp only [FieldText.ofString_eq_error_iff, hnul, false_and, and_false, or_false]
  rw [settled, bind_eq_error_iff, LineSpec.new_eq_error_iff]
  simp only [labelled_eq_error_iff, exists_and_right, LineSpec.exists_new_iff, hpath,
    FieldText.ofString_eq_ok_iff, hzero, not_false_eq_true, and_true,
    Offsets.exists_ofList_iff hne hnodup, Offsets.ofList_eq_error_iff hne hnodup]
  constructor
  · rintro ((⟨hlong, rfl⟩ | ⟨hfits, hmany, rfl⟩) | ⟨⟨hfits, hlines⟩, label, hlabel, hrefused⟩)
    · exact .longPath hlong
    · exact .manyLines hfits hmany
    · rcases FieldText.ofString_eq_error_iff.mp hrefused with ⟨hlong, rfl⟩ | ⟨hshort, hin, rfl⟩
      · exact .longLabel label hfits hlines hlabel hlong
      · exact .nulInLabel label hfits hlines hlabel hshort hin
  · intro h
    cases h with
    | longPath hlong => exact .inl (.inl ⟨hlong, rfl⟩)
    | manyLines hfits hmany => exact .inl (.inr ⟨hfits, hmany, rfl⟩)
    | longLabel label hfits hlines hlabel hlong =>
        exact .inr ⟨⟨hfits, hlines⟩, label, hlabel,
          FieldText.ofString_eq_error_iff.mpr (.inl ⟨hlong, rfl⟩)⟩
    | nulInLabel label hfits hlines hlabel hshort hin =>
        exact .inr ⟨⟨hfits, hlines⟩, label, hlabel,
          FieldText.ofString_eq_error_iff.mpr (.inr ⟨hshort, hin, rfl⟩)⟩

/-- Lines without a level are to be low. -/
theorem wantedLevels_of_none (h : lines.any (·.level.isSome) = false) :
    wantedLevels lines = List.replicate lines.length false := by
  rw [wantedLevels, List.eq_replicate_iff]
  refine ⟨List.length_map _, fun level hlevel => ?_⟩
  obtain ⟨arg, harg, rfl⟩ := List.mem_map.mp hlevel
  have hnone := List.any_eq_false.mp h arg harg
  rw [Option.not_isSome_iff_eq_none.mp hnone, Option.getD_none]

/-- The levels of the command line, one for each line, are never refused. -/
theorem driven_eq {spec : LineSpec} (hlen : (wantedLevels lines).length = spec.offsets.list.length)
    (hlow : spec.levels = List.replicate spec.offsets.list.length false)
    (hinput : spec.output = false) :
    driven output lines spec =
      .ok { spec with
        levels := wantedLevels lines
        output := output || lines.any (·.level.isSome)
        levels_length := hlen } := by
  rw [driven]
  split
  · next hout =>
    refine LineSpec.withOutputValues_eq_ok_iff.mpr ⟨?_, by rw [hout]; rfl⟩
    simp only [LineSpec.values, wantedLevels, List.map_map]
    rfl
  · next hin =>
    simp only [Bool.not_eq_true, Bool.or_eq_false_iff] at hin
    have hlines : lines.length = spec.offsets.list.length := by
      rw [← hlen, wantedLevels, List.length_map]
    refine congrArg _ (LineSpec.eq_of_parts_eq ?_)
    simp only [LineSpec.parts, wantedLevels_of_none hin.2, hlines, hlow, hinput, hin.1, hin.2,
      Bool.or_self]

/-- Once settled, a request is driven as the command line says. -/
theorem driven_of_settled (hlen : found.offsets.length = lines.length)
    (h : spec.parts = o.settledParts found) :
    ∃ next, driven output lines spec = .ok next ∧
      next.parts = o.partsFor found output lines := by
  obtain ⟨hpath, hlabel, hoffsets, hlevels, hlow, hinput⟩ := LineSpec.parts_eq_iff.mp h
  have hwanted : (wantedLevels lines).length = spec.offsets.list.length := by
    rw [hoffsets, wantedLevels, List.length_map]
    exact hlen.symm
  refine ⟨_, driven_eq hwanted (hoffsets ▸ hlevels) hinput, ?_⟩
  exact LineSpec.parts_eq_iff.mpr ⟨hpath, hlabel, hoffsets, rfl, hlow, rfl⟩

/-- **What is built.** For lines that were resolved, a request is built exactly if there is one that
says what the command line says. -/
theorem buildSpec_eq_ok_iff (hlen : found.offsets.length = lines.length) :
    o.buildSpec found output lines = .ok spec ↔ spec.parts = o.partsFor found output lines := by
  rw [buildSpec_eq, bind_eq_ok_iff]
  constructor
  · rintro ⟨first, hfirst, hdriven⟩
    obtain ⟨next, hnext, hparts⟩ := driven_of_settled hlen (settled_eq_ok_iff.mp hfirst)
    rw [hnext] at hdriven
    cases hdriven
    exact hparts
  · intro h
    -- before its lines were driven, it was the request for the same lines as inputs
    have hfirst : spec.asInputs.parts = o.settledParts found := by
      have hoffsets := (LineSpec.parts_eq_iff.mp h).2.2.1
      rw [LineSpec.parts_asInputs, hoffsets, h]
      rfl
    obtain ⟨next, hnext, hparts⟩ := driven_of_settled hlen hfirst
    have hsame : next = spec := LineSpec.eq_of_parts_eq (hparts.trans h.symm)
    exact ⟨spec.asInputs, settled_eq_ok_iff.mpr hfirst, hsame ▸ hnext⟩

/-- **What is refused.** For lines that were resolved, no request is built exactly if a limit is
broken, and the error is the one for that limit. -/
theorem buildSpec_eq_error_iff {e : WireError} (hnul : '\x00' ∉ found.chipPath.toList)
    (hne : found.offsets ≠ []) (hnodup : found.offsets.Nodup)
    (hlen : found.offsets.length = lines.length) :
    o.buildSpec found output lines = .error e ↔ o.Breaks found e := by
  rw [buildSpec_eq, bind_eq_error_iff, ← settled_eq_error_iff hnul hne hnodup]
  refine or_iff_left ?_
  rintro ⟨first, hfirst, hdriven⟩
  obtain ⟨next, hnext, -⟩ := driven_of_settled hlen (settled_eq_ok_iff.mp hfirst)
  rw [hnext] at hdriven
  cases hdriven

end Building

section Asking

/-- Only lines that were resolved are asked for. -/
theorem lineSpec_eq_ok_iff :
    o.lineSpec chips output lines = .ok spec ↔
      ∃ found, Resolve.resolve chips o.lookup (lines.map (·.line)) = .ok found ∧
        o.buildSpec found output lines = .ok spec := by
  rw [lineSpec]
  cases Resolve.resolve chips o.lookup (lines.map (·.line)) with
  | error e => simp
  | ok found => cases hbuild : o.buildSpec found output lines <;> simp [hbuild]

theorem lineSpec_eq_error_iff {e : SpecError}
    (h : Resolve.resolve chips o.lookup (lines.map (·.line)) = .ok found) :
    o.lineSpec chips output lines = .error e ↔
      ∃ w, e = .limits w ∧ o.buildSpec found output lines = .error w := by
  rw [lineSpec, h]
  cases hbuild : o.buildSpec found output lines <;> simp [hbuild, eq_comm]

/-- For lines that were just resolved, no request is built exactly if a limit is broken. -/
theorem breaks_iff_of_resolve {e : WireError}
    (h : Resolve.resolve chips o.lookup (lines.map (·.line)) = .ok found) :
    o.buildSpec found output lines = .error e ↔ o.Breaks found e := by
  obtain ⟨hlen, hne, hnodup⟩ := Resolve.offsets_of_resolve h
  rw [List.length_map] at hlen
  obtain ⟨-, chip, hopen, -⟩ := Resolve.opens_of_resolve h
  -- a path with a NUL would not have opened, so only its length can be wrong
  have hnul : '\x00' ∉ found.chipPath.toList := by
    simpa using (Chips.openChip_eq_ok_iff.mp hopen).1
  exact buildSpec_eq_error_iff hnul hne hnodup hlen

/-- The request says, position by position, what the command line says. -/
structure Aligned (o : Options) (chips : Chips) (output : Bool) (lines : List LineArg)
    (spec : LineSpec) : Prop where
  offsets : List.Forall₂
    (fun arg offset =>
      Resolve.resolve chips o.lookup [arg.line] = .ok ⟨spec.chipPath.text, [offset]⟩)
    lines spec.offsets.list
  values : spec.values = lines.map fun arg => levelByte (arg.level.getD false)
  output : spec.output = true ↔ output = true ∨ ∃ arg ∈ lines, arg.level ≠ none
  activeLow : spec.activeLow = o.activeLow
  consumer : spec.consumer.text = o.consumer.getD ""

theorem aligned_of_parts (hresolve : Resolve.resolve chips o.lookup (lines.map (·.line)) = .ok found)
    (h : spec.parts = o.partsFor found output lines) : o.Aligned chips output lines spec := by
  obtain ⟨hpath, hlabel, hoffsets, hlevels, hlow, hout⟩ := LineSpec.parts_eq_iff.mp h
  refine ⟨?offsets, ?values, ?output, hlow, hlabel⟩
  case offsets =>
    rw [hpath, hoffsets]
    exact List.forall₂_map_left_iff.mp (Resolve.resolve_alone hresolve)
  case values =>
    rw [LineSpec.values, hlevels]
    simp only [partsFor, wantedLevels, List.map_map]
    rfl
  case output =>
    rw [hout]
    simp only [partsFor, Bool.or_eq_true, List.any_eq_true, Option.isSome_iff_ne_none]

/-- **What is asked for.** A request says, position by position, what the command line says.  If the
lines are resolved but no request is made, the path is too long, the lines are too many, or the
label is too long or has a NUL in it. -/
theorem lineSpec_aligned (o : Options) (chips : Chips) (output : Bool) (lines : List LineArg) :
    (∀ spec, o.lineSpec chips output lines = .ok spec → o.Aligned chips output lines spec) ∧
      ∀ found, Resolve.resolve chips o.lookup (lines.map (·.line)) = .ok found →
        ∀ e, o.lineSpec chips output lines = .error e ↔ ∃ w, e = .limits w ∧ o.Breaks found w := by
  constructor
  · intro spec h
    obtain ⟨found, hresolve, hbuild⟩ := lineSpec_eq_ok_iff.mp h
    have hlen := (Resolve.offsets_of_resolve hresolve).1
    rw [List.length_map] at hlen
    exact aligned_of_parts hresolve ((buildSpec_eq_ok_iff hlen).mp hbuild)
  · intro found hresolve e
    simp only [lineSpec_eq_error_iff hresolve, breaks_iff_of_resolve hresolve]

/-- A chip with two lines, of which one has a name. -/
def board : Chips :=
  ⟨[⟨"/dev/gpiochip0", [none, some "LED"], none, none, [], none, []⟩], none⟩

/-- The words that ask for both lines of the board, one by its offset and one by its name. -/
def lampWords (label : String) : List (List UInt8) :=
  ["-c", "gpiochip0", "-C", label, "request", "0", "LED=on"].map Text.Utf8.encode

/-- The lines that these words name. -/
def lampLines : List LineArg :=
  [⟨"0", none⟩, ⟨"LED", some true⟩]

/-- What these words say. -/
def lampOptions (label : String) : Options where
  chip := some "gpiochip0"
  consumer := some label
  byName := false
  strict := false
  activeLow := false
  json := false
  idleTimeout := defaultIdleTimeout
  logFile := none
  logRotate := false
  socketName := none
  command := .request false lampLines

/-- The request for both lines of the board. -/
def lampSpec : LineSpec where
  chipPath := FieldText.firstChip
  consumer := ⟨"lamp", by decide, by decide⟩
  offsets := ⟨[0, 1], by decide, by decide, by decide⟩
  levels := [false, true]
  activeLow := false
  output := true
  levels_length := rfl

theorem lineSpec_lampOptions :
    (lampOptions "lamp").lineSpec board false lampLines = .ok lampSpec := by
  decide +kernel

/-- A label that is too long by one byte. -/
def longLabel : String :=
  String.ofList (List.replicate 33 'x')

/-- One command line makes a request; the same one with a long label is refused. -/
theorem lamp_aligned :
    ofWords .empty (lampWords "lamp") = .ok (lampOptions "lamp") ∧
      ofWords .empty (lampWords longLabel) = .ok (lampOptions longLabel) ∧
      (lampOptions "lamp").lineSpec board false lampLines = .ok lampSpec ∧
      (lampOptions "lamp").Aligned board false lampLines lampSpec ∧
      (lampOptions longLabel).lineSpec board false lampLines =
        .error (.limits (.fieldTooLong .consumer)) ∧
      ∃ w, SpecError.limits (.fieldTooLong .consumer) = .limits w ∧
        (lampOptions longLabel).Breaks ⟨"/dev/gpiochip0", [0, 1]⟩ w := by
  have hfound : Resolve.resolve board (lampOptions longLabel).lookup (lampLines.map (·.line)) =
      .ok ⟨"/dev/gpiochip0", [0, 1]⟩ := by
    decide +kernel
  have hrefused : (lampOptions longLabel).lineSpec board false lampLines =
      .error (.limits (.fieldTooLong .consumer)) := by
    decide +kernel
  exact ⟨by decide +kernel, by decide +kernel, lineSpec_lampOptions,
    (lineSpec_aligned _ board false lampLines).1 _ lineSpec_lampOptions, hrefused,
    ((lineSpec_aligned _ board false lampLines).2 _ hfound _).mp hrefused⟩

end Asking

end CommandLine.Options
end LineKeeper
