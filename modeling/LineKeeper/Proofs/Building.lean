import LineKeeper.Proofs.Checks
import LineKeeper.Proofs.FrameLayout

/-!
# Which requests can be built

A request comes into being in two ways: it is built, from a request for inputs by
steps that change it, or it is read from a frame.  Each way makes checks of its own.

**Parts.** `LineSpec.Parts` is what a request says, without the limits that its
type carries.  A step of building succeeds exactly if there is a request with the
parts that the step asks for.

**Inputs.** A request for inputs that was built has only low levels.  One that was
read has the levels that stand in the frame.

**Results.**
* `buildable_iff`: a request can be built exactly if it asks for outputs or has only
  low levels; then `LineSpec.steps` builds it.
* `decode_buildable`: what that means for the bytes of a frame.
-/

namespace LineKeeper

namespace LineSpec

/-- What a request says. -/
structure Parts where
  chipPath : String
  consumer : String
  offsets : List UInt32
  levels : List Bool
  activeLow : Bool
  output : Bool
deriving DecidableEq, Repr

/-- The parts of a request. -/
def parts (spec : LineSpec) : Parts where
  chipPath := spec.chipPath.text
  consumer := spec.consumer.text
  offsets := spec.offsets.list
  levels := spec.levels
  activeLow := spec.activeLow
  output := spec.output

variable {spec next : LineSpec} {path : String} {os : List UInt32} {e : WireError}

/-- Requests that say the same are the same. -/
theorem eq_of_parts_eq (h : spec.parts = next.parts) : spec = next := by
  obtain ⟨path, label, offsets, levels, low, out, _⟩ := spec
  obtain ⟨path', label', offsets', levels', low', out', _⟩ := next
  simp only [parts, Parts.mk.injEq] at h
  obtain ⟨hpath, hlabel, hoffsets, rfl, rfl, rfl⟩ := h
  cases FieldText.ext_text hpath
  cases FieldText.ext_text hlabel
  cases Offsets.ext_list hoffsets
  rfl

theorem parts_eq_iff {p : Parts} :
    spec.parts = p ↔
      spec.chipPath.text = p.chipPath ∧ spec.consumer.text = p.consumer ∧
        spec.offsets.list = p.offsets ∧ spec.levels = p.levels ∧ spec.activeLow = p.activeLow ∧
        spec.output = p.output := by
  cases p
  simp only [parts, Parts.mk.injEq]

section Steps

theorem new_eq_ok_iff :
    new path os = .ok spec ↔
      spec.parts = ⟨path, "", os, List.replicate os.length false, false, false⟩ := by
  simp only [new, bind_eq_ok_iff, FieldText.ofString_eq_ok, Offsets.ofList_eq_ok_iff]
  constructor
  · rintro ⟨text, rfl, lines, rfl, h⟩
    cases h
    rfl
  · intro h
    obtain ⟨rfl, -, rfl, -⟩ := parts_eq_iff.mp h
    exact ⟨_, rfl, _, rfl, congrArg _ (eq_of_parts_eq h.symm)⟩

theorem new_eq_error_iff :
    new path os = .error e ↔
      FieldText.ofString .chipPath path = .error e ∨
        (∃ text, FieldText.ofString .chipPath path = .ok text) ∧ Offsets.ofList os = .error e := by
  simp only [new, bind_eq_error_iff, pure_ne_error, and_false, exists_false, or_false,
    ← exists_and_right]

theorem exists_new_iff :
    (∃ spec, new path os = .ok spec) ↔
      (∃ text, FieldText.ofString .chipPath path = .ok text) ∧
        ∃ lines, Offsets.ofList os = .ok lines := by
  simp only [new, bind_eq_ok_iff]
  constructor
  · rintro ⟨_, text, htext, lines, hlines, -⟩
    exact ⟨⟨text, htext⟩, lines, hlines⟩
  · rintro ⟨⟨text, htext⟩, lines, hlines⟩
    exact ⟨_, text, htext, lines, hlines, rfl⟩

theorem withConsumer_eq_ok_iff {label : String} :
    spec.withConsumer label = .ok next ↔ next.parts = { spec.parts with consumer := label } := by
  simp only [withConsumer, bind_eq_ok_iff, FieldText.ofString_eq_ok]
  constructor
  · rintro ⟨text, rfl, h⟩
    cases h
    rfl
  · intro h
    obtain ⟨-, rfl, -⟩ := parts_eq_iff.mp h
    exact ⟨_, rfl, congrArg _ (eq_of_parts_eq h.symm)⟩

theorem withConsumer_eq_error_iff {label : String} :
    spec.withConsumer label = .error e ↔ FieldText.ofString .consumer label = .error e := by
  simp only [withConsumer, bind_eq_error_iff, pure_ne_error, and_false, exists_false, or_false]

theorem withOutputValues_eq_ok_iff {vs : List UInt8} :
    spec.withOutputValues vs = .ok next ↔
      next.values = vs ∧ next.parts = { spec.parts with levels := next.levels, output := true } := by
  have hcheck : checkValues next.offsets.list.length vs = .ok next.levels ↔ next.values = vs := by
    rw [checkValues_eq_ok_iff]
    exact ⟨And.right, fun h => ⟨next.levels_length, h⟩⟩
  constructor
  · intro h
    simp only [withOutputValues] at h
    split at h
    · next levels hlevels =>
      cases h
      exact ⟨hcheck.mp hlevels, rfl⟩
    · cases h
  · rintro ⟨hvalues, hparts⟩
    obtain ⟨-, -, hoffsets, -⟩ := parts_eq_iff.mp hparts
    have hlevels : checkValues spec.offsets.list.length vs = .ok next.levels := by
      have hnext := hcheck.mpr hvalues
      rw [hoffsets] at hnext
      exact hnext
    -- the levels carry the proof that they were checked, so the match is split, not rewritten
    simp only [withOutputValues]
    split
    · next levels hlevels' =>
      rw [hlevels] at hlevels'
      cases hlevels'
      congr 1
      apply eq_of_parts_eq
      rw [hparts]
      rfl
    · next e he =>
      rw [hlevels] at he
      cases he

end Steps

section Inputs

/-- A request for inputs has only low levels. -/
def InputsAreLow (spec : LineSpec) : Prop :=
  spec.output = false → ∀ v ∈ spec.values, v = 0

theorem inputsAreLow_iff :
    spec.InputsAreLow ↔
      spec.output = false → spec.levels = List.replicate spec.offsets.list.length false := by
  have hlevels : (∀ v ∈ spec.values, v = 0) ↔ ∀ l ∈ spec.levels, l = false := by
    simp only [values, List.mem_map, forall_exists_index, and_imp, forall_apply_eq_imp_iff₂]
    refine forall₂_congr fun l _ => ?_
    cases l <;> simp [levelByte]
  rw [InputsAreLow, hlevels, List.eq_replicate_iff]
  exact ⟨fun h hout => ⟨spec.levels_length, h hout⟩, fun h hout => (h hout).2⟩

theorem inputsAreLow_of_new (h : new path os = .ok spec) : spec.InputsAreLow := by
  obtain ⟨-, -, hoffsets, hlevels, -⟩ := parts_eq_iff.mp (new_eq_ok_iff.mp h)
  rw [inputsAreLow_iff, hoffsets]
  exact fun _ => hlevels

/-- No step of building raises the level of an input. -/
theorem InputsAreLow.change {c : Change} (hlow : spec.InputsAreLow)
    (h : spec.change c = .ok next) : next.InputsAreLow := by
  cases c with
  | consumer label =>
      obtain ⟨-, -, -, hlevels, -, hout⟩ := parts_eq_iff.mp (withConsumer_eq_ok_iff.mp h)
      rw [InputsAreLow, hout, values, hlevels]
      exact hlow
  | outputValues vs =>
      obtain ⟨-, -, -, -, -, hout⟩ := parts_eq_iff.mp (withOutputValues_eq_ok_iff.mp h).2
      rw [InputsAreLow, hout]
      exact fun hinput => Bool.noConfusion hinput
  | activeLow low =>
      cases h
      exact hlow

theorem InputsAreLow.changes {cs : List Change} (hlow : spec.InputsAreLow)
    (h : spec.changes cs = .ok next) : next.InputsAreLow := by
  induction cs generalizing spec with
  | nil =>
      cases h
      exact hlow
  | cons c cs ih =>
      obtain ⟨mid, hmid, hrest⟩ := bind_eq_ok_iff.mp h
      exact ih (hlow.change hmid) hrest

end Inputs

section Buildable

/-- The request for the same lines as inputs. -/
def asInputs (spec : LineSpec) : LineSpec :=
  { spec with
    levels := List.replicate spec.offsets.list.length false
    output := false
    levels_length := List.length_replicate }

theorem parts_asInputs :
    spec.asInputs.parts = { spec.parts with
      levels := List.replicate spec.offsets.list.length false
      output := false } := rfl

/-- The request with low levels if it asks for inputs. -/
def lowered (spec : LineSpec) : LineSpec :=
  if spec.output then spec else spec.asInputs

theorem lowered_eq_self_iff : spec.lowered = spec ↔ spec.InputsAreLow := by
  rw [lowered, inputsAreLow_iff]
  cases hout : spec.output with
  | true => simp
  | false =>
      simp only [Bool.false_eq_true, if_false, forall_const]
      constructor
      · intro h
        exact (congrArg LineSpec.levels h).symm
      · intro h
        apply eq_of_parts_eq
        rw [parts_asInputs, ← h, ← hout]
        rfl

/-- The steps that build a request: its label, its values if it asks for outputs, and whether it is
active when low. -/
def steps (spec : LineSpec) : List Change :=
  .consumer spec.consumer.text ::
    if spec.output then [.outputValues spec.values, .activeLow spec.activeLow]
    else [.activeLow spec.activeLow]

/-- The request from which building starts. -/
def bare (spec : LineSpec) : LineSpec :=
  { spec.asInputs with
    consumer := FieldText.empty
    activeLow := false }

theorem parts_bare :
    spec.bare.parts = ⟨spec.chipPath.text, "", spec.offsets.list,
      List.replicate spec.offsets.list.length false, false, false⟩ := rfl

theorem build_steps (spec : LineSpec) :
    build spec.chipPath.text spec.offsets.list spec.steps = .ok spec.lowered := by
  have hlabel : spec.bare.withConsumer spec.consumer.text =
      .ok { spec.bare with consumer := spec.consumer } := withConsumer_eq_ok_iff.mpr rfl
  refine bind_eq_ok_iff.mpr ⟨_, new_eq_ok_iff.mpr parts_bare, bind_eq_ok_iff.mpr ⟨_, hlabel, ?_⟩⟩
  rw [lowered]
  cases hout : spec.output with
  | false => rfl
  | true =>
      have hvalues : withOutputValues { spec.bare with consumer := spec.consumer } spec.values =
          .ok { spec with activeLow := false } :=
        withOutputValues_eq_ok_iff.mpr ⟨rfl, by simp only [parts, bare, asInputs, hout]⟩
      exact bind_eq_ok_iff.mpr ⟨_, hvalues, rfl⟩

/-- **What can be built.** A request can be built exactly if it asks for outputs or has only low
levels. -/
theorem buildable_iff :
    (∃ path os cs, build path os cs = .ok spec) ↔ spec.InputsAreLow := by
  constructor
  · rintro ⟨path, os, cs, h⟩
    obtain ⟨first, hfirst, hrest⟩ := bind_eq_ok_iff.mp h
    exact (inputsAreLow_of_new hfirst).changes hrest
  · intro h
    have hbuild := spec.build_steps
    rw [lowered_eq_self_iff.mpr h] at hbuild
    exact ⟨_, _, _, hbuild⟩

end Buildable

end LineSpec

/-- The path of the first chip of a machine. -/
def FieldText.firstChip : FieldText .chipPath := ⟨"/dev/gpiochip0", by decide, by decide⟩

namespace Message

variable {frame : List UInt8} {spec : LineSpec}

/-- Does the last byte of the frame of a request say that outputs are asked for? -/
def asksForOutputs (frame : List UInt8) : Bool :=
  frame[488]?.any fun flags => flags &&& 2 != 0

/-- The first slots for values in the frame of a request. -/
def valueBytes (frame : List UInt8) (count : Nat) : List UInt8 :=
  (frame.drop 424).take count

/-- The values in the frame of a request begin at byte 424, and its flags are byte 488. -/
theorem layout_of_decode (h : decode frame = .ok (.request spec)) :
    ∃ front spare : List UInt8, front.length = 424 ∧
      spare.length = maxLines - spec.offsets.list.length ∧
      frame = front ++ (spec.values ++ (spare ++ [spec.flags])) := by
  obtain ⟨fs, hfields, rfl⟩ := Chunk.fits_cons_of_spare_zero.mp (decode_eq_ok_iff.mp h)
  obtain ⟨spareWords, spareBytes, hwords, hbytes, rfl⟩ := LineSpec.fits_chunks_iff.mp hfields
  have hatMost := spec.offsets.atMost
  refine ⟨Wire.encodeWord Kind.request.tag ++ (spec.chipPath.padded ++ (spec.consumer.padded ++
    (Wire.encodeWord spec.count ++ (spec.offsets.list.flatMap Wire.encodeWord ++ spareWords)))),
    spareBytes, ?_, hbytes, by simp only [List.append_assoc]⟩
  simp only [List.length_append, Wire.encodeWord_length, FieldText.padded_length, Field.width,
    LineSpec.length_flatMap_encodeWord, hwords, maxLines] at *
  omega

/-- A request that was read has its values, and whether it asks for outputs, from the frame. -/
theorem bytes_of_decode (h : decode frame = .ok (.request spec)) :
    valueBytes frame spec.offsets.list.length = spec.values ∧
      asksForOutputs frame = spec.output := by
  obtain ⟨front, spare, hfront, hspare, rfl⟩ := layout_of_decode h
  constructor
  · rw [valueBytes, ← hfront, List.drop_left, ← spec.values_length, List.take_left]
  · have hatMost := spec.offsets.atMost
    have hlen : (front ++ (spec.values ++ spare)).length = 488 := by
      simp only [List.length_append, hfront, hspare, LineSpec.values_length, maxLines] at *
      omega
    have hlast : (front ++ (spec.values ++ (spare ++ [spec.flags])))[488]? = some spec.flags := by
      rw [← hlen, ← List.append_assoc spec.values, ← List.append_assoc front]
      exact List.getElem?_concat_length
    rw [asksForOutputs, hlast, Option.any_some]
    exact (LineSpec.flags_eq_iff.mp rfl).2.2.symm

/-- **Reading and building.** A request that is read from a frame has a value for each line.  The
steps that build such a request give it back, with low levels if it asks for inputs; so it can be
built exactly if the frame asks for outputs or holds no value but zero. -/
theorem decode_buildable (h : decode frame = .ok (.request spec)) :
    spec.values.length = spec.offsets.list.length ∧
      LineSpec.build spec.chipPath.text spec.offsets.list spec.steps = .ok spec.lowered ∧
      ((∃ path os cs, LineSpec.build path os cs = .ok spec) ↔
        (asksForOutputs frame = false →
          ∀ v ∈ valueBytes frame spec.offsets.list.length, v = 0)) := by
  obtain ⟨hvalues, hout⟩ := bytes_of_decode h
  refine ⟨spec.values_length, spec.build_steps, ?_⟩
  rw [hvalues, hout]
  exact LineSpec.buildable_iff

/-- An input without a label. -/
def oneInput (level : Bool) : LineSpec where
  chipPath := FieldText.firstChip
  consumer := FieldText.empty
  offsets := ⟨[1], by decide, by decide, by decide⟩
  levels := [level]
  activeLow := false
  output := false
  levels_length := rfl

/-- A frame of `oneInput`, with a byte in the slot for its value. -/
def inputFrame (value : UInt8) : List UInt8 :=
  [0, 0, 0, 4] ++ (oneInput false).chipPath.padded ++ List.replicate 32 0 ++ [0, 0, 0, 1] ++
    [0, 0, 0, 1] ++ List.replicate 252 0 ++ [value] ++ List.replicate 63 0 ++ [0]

theorem lowInput_buildable :
    decode (inputFrame 0) = .ok (.request (oneInput false)) ∧
      (oneInput false).values.length = (oneInput false).offsets.list.length ∧
      LineSpec.build (oneInput false).chipPath.text (oneInput false).offsets.list
        (oneInput false).steps = .ok (oneInput false).lowered ∧
      ((∃ path os cs, LineSpec.build path os cs = .ok (oneInput false)) ↔
        (asksForOutputs (inputFrame 0) = false →
          ∀ v ∈ valueBytes (inputFrame 0) (oneInput false).offsets.list.length, v = 0)) := by
  have hread : decode (inputFrame 0) = .ok (.request (oneInput false)) := by decide +kernel
  exact ⟨hread, decode_buildable hread⟩

/-- An input whose slot holds a one is read, but no steps build it. -/
theorem raisedInput_unbuildable :
    decode (inputFrame 1) = .ok (.request (oneInput true)) ∧ (oneInput true).output = false ∧
      (oneInput true).values = [1] ∧
      ¬ ∃ path os cs, LineSpec.build path os cs = .ok (oneInput true) := by
  have hread : decode (inputFrame 1) = .ok (.request (oneInput true)) := by decide +kernel
  refine ⟨hread, rfl, rfl, ?_⟩
  rw [LineSpec.buildable_iff]
  intro hlow
  exact absurd (hlow rfl 1 (by decide)) (by decide)

end Message
end LineKeeper
