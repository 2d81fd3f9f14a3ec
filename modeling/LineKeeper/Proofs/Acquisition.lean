import LineKeeper.Proofs.LineRequests

/-!
# Acquiring what was resolved

Lines are looked up by the process that makes a request and asked for by another one, which
opens the chip again at the path that the request gives.

**Checks.**  What is asked for passes the checks that come before the device is asked, because
the lines were looked up on a chip of the same machine: the chip opens, and it has lines
at all offsets.  What is left is the word of the device, `Device.Refuses`.

**Places.**  The two processes may run in different directories.  They mean one device by a
path if it begins at the root; the path of a request does unless the chip was chosen
by a path that does not.

**Results.**
* `request_fst_eq_error_iff`: how a request fails, for the chip that it opens.
* `lineSpec_acquires`: a request that was made fails only if the device refuses it.
* `lineSpec_isAbsolute_iff`: when the path of a request begins at the root.
-/

namespace LineKeeper

namespace Device

variable {d : Device} {spec : LineSpec} {chip : Chip} {e : Errno}

/-- The checks that come before the device is asked are passed: the chip opens, it has all the
lines, and there is a value for each of them. -/
structure Passes (d : Device) (spec : LineSpec) (chip : Chip) : Prop where
  opens : d.chips.openChip spec.chipPath.text = .ok chip
  onChip : ∀ o ∈ spec.offsets.list, o.toNat < chip.size
  values : spec.values.length = spec.offsets.list.length

/-- Why a device refuses a request: it refuses all of them, or a line is in use. -/
inductive Refuses (d : Device) (chip : Chip) (spec : LineSpec) : Errno → Prop
  | always (why : Errno) (hwhy : chip.requestErrno = some why) : Refuses d chip spec why
  | inUse (offset : UInt32) (hnone : chip.requestErrno = none)
      (hline : offset ∈ spec.offsets.list)
      (huse : offset ∈ chip.busy ∨ d.isHeld spec.chipPath.text offset = true) :
      Refuses d chip spec Errno.busy

theorem openFor_eq_ok_iff : d.openFor spec = .ok chip ↔ d.Passes spec chip := by
  rw [openFor_eq]
  constructor
  · intro h
    split at h
    · cases h
    · next opened hopen =>
      split at h
      · next hall =>
        cases h
        exact ⟨hopen, by simpa using hall, spec.values_length⟩
      · cases h
  · rintro ⟨hopen, honChip, -⟩
    rw [hopen]
    exact if_pos (by simpa using honChip)

theorem inUse_iff :
    ((LineRequest.ofSpec spec).offsets.any fun o =>
        chip.busy.contains o || d.isHeld (LineRequest.ofSpec spec).chip o) = true ↔
      ∃ o ∈ spec.offsets.list, o ∈ chip.busy ∨ d.isHeld spec.chipPath.text o = true := by
  simp only [List.any_eq_true, Bool.or_eq_true, List.contains_iff_mem]
  rfl

theorem refusal?_eq_some_iff :
    d.refusal? chip (.ofSpec spec) = some e ↔ d.Refuses chip spec e := by
  rw [refusal?]
  constructor
  · intro h
    split at h
    · next why herrno =>
      cases h
      exact .always _ herrno
    · next hnone =>
      split at h
      · next hany =>
        cases h
        obtain ⟨o, ho, huse⟩ := inUse_iff.mp hany
        exact .inUse o hnone ho huse
      · cases h
  · intro h
    cases h with
    | always why herrno => rw [herrno]
    | inUse o hnone ho huse =>
        rw [hnone]
        exact if_pos (inUse_iff.mpr ⟨o, ho, huse⟩)

/-- **How a request fails.** A request that passes the checks fails exactly if the device refuses
it, and with the number that the device gives. -/
theorem request_fst_eq_error_iff (h : d.Passes spec chip) :
    (d.request spec).1 = .error e ↔ ∃ why, d.Refuses chip spec why ∧ e = why.ofDeviceCall := by
  simp only [request, openFor_eq_ok_iff.mpr h, ask_eq, ← refusal?_eq_some_iff]
  cases d.refusal? chip (.ofSpec spec) <;> simp [eq_comm]

end Device

namespace CommandLine.Options

variable {o : Options} {chips : Chips} {output : Bool} {lines : List LineArg} {spec : LineSpec}

/-- What a request says about its chip and its lines was resolved. -/
theorem resolved_of_lineSpec (h : o.lineSpec chips output lines = .ok spec) :
    Resolve.resolve chips o.lookup (lines.map (·.line)) =
      .ok ⟨spec.chipPath.text, spec.offsets.list⟩ := by
  obtain ⟨found, hresolve, hbuild⟩ := lineSpec_eq_ok_iff.mp h
  have hlen := (Resolve.offsets_of_resolve hresolve).1
  rw [List.length_map] at hlen
  obtain ⟨hpath, -, hoffsets, -⟩ := LineSpec.parts_eq_iff.mp ((buildSpec_eq_ok_iff hlen).mp hbuild)
  rw [hresolve, hpath, hoffsets]
  rfl

section Agreeing

/-- **The two sides agree.** A request that was made for the lines of a machine passes all checks
on that machine, whatever lines are held by then.  So it fails only if the device refuses it. -/
theorem lineSpec_acquires (h : o.lineSpec chips output lines = .ok spec) (d : Device)
    (hsame : d.chips = chips) :
    ∃ chip, d.Passes spec chip ∧ d.openFor spec = .ok chip ∧
      d.request spec = d.ask chip (.ofSpec spec) ∧
      ∀ e, (d.request spec).1 = .error e ↔
        ∃ why, d.Refuses chip spec why ∧ e = why.ofDeviceCall := by
  -- the chip that the lines were looked up on is the one that opens now
  obtain ⟨-, chip, hopen, honChip⟩ := Resolve.opens_of_resolve (resolved_of_lineSpec h)
  have hpasses : d.Passes spec chip := ⟨hsame ▸ hopen, honChip, spec.values_length⟩
  have hchecked := Device.openFor_eq_ok_iff.mpr hpasses
  refine ⟨chip, hpasses, hchecked, ?_, fun e => Device.request_fst_eq_error_iff hpasses⟩
  rw [Device.request, hchecked]

/-- The board, with one of its lines held by an earlier request. -/
def lentBoard : Device :=
  ⟨board, [⟨1, "/dev/gpiochip0", [1]⟩], 1, []⟩

/-- The device refuses a request whose lines are on the board, as one of them is held. -/
theorem lamp_acquires :
    (lampOptions "lamp").lineSpec board false lampLines = .ok lampSpec ∧
      lentBoard.chips = board ∧ (lentBoard.request lampSpec).1 = .error Errno.busy ∧
      ∃ chip, lentBoard.Passes lampSpec chip ∧ lentBoard.openFor lampSpec = .ok chip ∧
        lentBoard.request lampSpec = lentBoard.ask chip (.ofSpec lampSpec) ∧
        ∀ e, (lentBoard.request lampSpec).1 = .error e ↔
          ∃ why, lentBoard.Refuses chip lampSpec why ∧ e = why.ofDeviceCall :=
  ⟨lineSpec_lampOptions, rfl, by decide +kernel,
    lineSpec_acquires lineSpec_lampOptions lentBoard rfl⟩

end Agreeing

section Places

/-- A chip that is chosen by a path is chosen by one from the root. -/
def RootedChip (o : Options) : Prop :=
  ∀ id, o.chip = some id → '/' ∈ id.toList → id.toList.head? = some '/'

theorem isAbsolute_iff_of_reaches {path : String} (h : o.lookup.Reaches path) :
    Path.isAbsolute (Path.ofString path) = true ↔ o.RootedChip := by
  simp only [Lookup.Reaches, lookup] at h
  cases hchip : o.chip with
  | some id =>
      rw [hchip] at h
      rw [h, Resolve.isAbsolute_chipPath_iff, RootedChip, hchip]
      simp only [Option.some.injEq, forall_eq']
  | none =>
      rw [hchip] at h
      rw [Path.isAbsolute_ofString_iff, RootedChip, hchip]
      exact iff_of_true (Resolve.head?_of_isListed h) fun id hid => by cases hid

/-- **Where the device is.** The path of a request is where its chip was found.  It begins at the
root, and so leads to one place from every directory, exactly if the chip was not chosen by a path
that begins elsewhere. -/
theorem lineSpec_isAbsolute_iff (h : o.lineSpec chips output lines = .ok spec) :
    o.lookup.Reaches spec.chipPath.text ∧
      (Path.isAbsolute (Path.ofString spec.chipPath.text) = true ↔ o.RootedChip) ∧
      ((∀ dir, Path.join dir (Path.ofString spec.chipPath.text) =
        Path.join [Path.slash] (Path.ofString spec.chipPath.text)) ↔ o.RootedChip) := by
  have hreaches := (Resolve.opens_of_resolve (resolved_of_lineSpec h)).1
  have habsolute := isAbsolute_iff_of_reaches hreaches
  exact ⟨hreaches, habsolute, Path.join_eq_join_root_iff.trans habsolute⟩

theorem lamp_isAbsolute :
    (lampOptions "lamp").lineSpec board false lampLines = .ok lampSpec ∧
      (lampOptions "lamp").RootedChip ∧
      (lampOptions "lamp").lookup.Reaches lampSpec.chipPath.text ∧
      (Path.isAbsolute (Path.ofString lampSpec.chipPath.text) = true ↔
        (lampOptions "lamp").RootedChip) ∧
      ((∀ dir, Path.join dir (Path.ofString lampSpec.chipPath.text) =
        Path.join [Path.slash] (Path.ofString lampSpec.chipPath.text)) ↔
          (lampOptions "lamp").RootedChip) := by
  refine ⟨lineSpec_lampOptions, ?_, lineSpec_isAbsolute_iff lineSpec_lampOptions⟩
  intro id hid hslash
  cases hid
  exact absurd hslash (by decide)

/-- A machine on which a chip is found at a path that does not begin at the root. -/
def nearBoard : Chips :=
  ⟨[⟨"dev/gpiochip0", [none], none, none, [], none, []⟩], none⟩

/-- The words that ask for the line of this chip. -/
def nearWords : List (List UInt8) :=
  ["-c", "dev/gpiochip0", "request", "0"].map Text.Utf8.encode

/-- What these words say. -/
def nearOptions : Options :=
  { lampOptions "" with
    chip := some "dev/gpiochip0"
    consumer := none
    command := .request false [⟨"0", none⟩] }

/-- The request for the line of this chip. -/
def nearSpec : LineSpec where
  chipPath := ⟨"dev/gpiochip0", by decide, by decide⟩
  consumer := FieldText.empty
  offsets := ⟨[0], by decide, by decide, by decide⟩
  levels := [false]
  activeLow := false
  output := false
  levels_length := rfl

/-- A request is made whose path leads to one place from `/`, and to another from `/home`. -/
theorem near_isRelative :
    ofWords .empty nearWords = .ok nearOptions ∧
      nearOptions.lineSpec nearBoard false [⟨"0", none⟩] = .ok nearSpec ∧
      Path.isAbsolute (Path.ofString nearSpec.chipPath.text) = false ∧
      Path.join (Path.ofString "/home") (Path.ofString nearSpec.chipPath.text) ≠
        Path.join [Path.slash] (Path.ofString nearSpec.chipPath.text) :=
  ⟨by decide +kernel, by decide +kernel, by decide +kernel, by decide +kernel⟩

end Places

end CommandLine.Options
end LineKeeper
