import LineKeeper.Wire.Field

/-!
# What a client asks for

A `LineSpec` names lines of one chip and says how they are to be requested. Its
type carries the limits: between one and 64 offsets, none twice, and one level
for each.

**Building.** `LineSpec.new` makes a request for inputs; `withConsumer`,
`withOutputValues` and `withActiveLow` change it, and a `Change` is one such step as a value. Each step
that can fail says which limit was broken.

**Results.**
* `firstRepeat?_eq_none_iff`: the check for repeated offsets is exact.
* `Offsets.ofList_list`: a list that keeps the limits is accepted as it is.
* `levelsOf_values`: levels are read back from the bytes that stand for them.
-/

namespace LineKeeper

/-- The first offset that repeats one in `seen` or one before it. -/
def firstRepeat? (seen : List UInt32) : List UInt32 → Option UInt32
  | [] => none
  | o :: os => if o ∈ seen then some o else firstRepeat? (o :: seen) os

theorem firstRepeat?_eq_none_iff {seen os : List UInt32} :
    firstRepeat? seen os = none ↔ os.Nodup ∧ ∀ o ∈ os, o ∉ seen := by
  induction os generalizing seen with
  | nil => simp [firstRepeat?]
  | cons o os ih =>
      by_cases h : o ∈ seen
      · simp [firstRepeat?, h]
      · simp only [firstRepeat?, h, if_false, ih, List.nodup_cons, List.mem_cons, not_or]
        constructor
        · rintro ⟨hnd, hall⟩
          refine ⟨⟨fun hmem => (hall o hmem).1 rfl, hnd⟩, ?_⟩
          rintro x (rfl | hx)
          · exact h
          · exact (hall x hx).2
        · rintro ⟨⟨hno, hnd⟩, hall⟩
          exact ⟨hnd, fun x hx => ⟨fun hxo => hno (hxo ▸ hx), hall x (.inr hx)⟩⟩

/-- The lines of a request: not none, not too many, none twice. -/
structure Offsets where
  list : List UInt32
  nonempty : list ≠ []
  atMost : list.length ≤ maxLines
  nodup : list.Nodup
deriving DecidableEq

namespace Offsets

theorem ext_list {a b : Offsets} (h : a.list = b.list) : a = b := by
  cases a; cases b; cases h; rfl

/-- Checks a list of offsets: that it has one, then that it has not too many, then that it
repeats none. -/
def ofList (os : List UInt32) : Except WireError Offsets :=
  if hne : os = [] then .error .noLines
  else if hle : os.length ≤ maxLines then
    match hr : firstRepeat? [] os with
    | none => .ok ⟨os, hne, hle, (firstRepeat?_eq_none_iff.mp hr).1⟩
    | some o => .error (.duplicateOffset o)
  else .error (.tooManyLines os.length)

theorem ofList_list (os : Offsets) : ofList os.list = .ok os := by
  have hr : firstRepeat? [] os.list = none :=
    firstRepeat?_eq_none_iff.mpr ⟨os.nodup, by simp⟩
  simp only [ofList, os.nonempty, os.atMost, dif_pos, dif_neg, not_false_eq_true]
  split
  · rfl
  · next o ho => rw [hr] at ho; cases ho

theorem list_of_ofList {os : List UInt32} {r : Offsets} (h : ofList os = .ok r) :
    r.list = os := by
  simp only [ofList] at h
  split at h
  · cases h
  · split at h
    · split at h
      · cases h; rfl
      · cases h
    · cases h

end Offsets

/-- The byte that stands for a level. -/
def levelByte : Bool → UInt8
  | false => 0
  | true => 1

/-- The levels that the bytes stand for. The first byte above one is refused. -/
def levelsOf : List UInt8 → Except WireError (List Bool)
  | [] => .ok []
  | v :: vs =>
      if v = 0 then (levelsOf vs).map (false :: ·)
      else if v = 1 then (levelsOf vs).map (true :: ·)
      else .error (.invalidValue v)

theorem levelsOf_values (ls : List Bool) : levelsOf (ls.map levelByte) = .ok ls := by
  induction ls with
  | nil => rfl
  | cons l ls ih => cases l <;> simp [levelsOf, levelByte, ih, Except.map]

theorem values_of_levelsOf {vs : List UInt8} {ls : List Bool} (h : levelsOf vs = .ok ls) :
    ls.map levelByte = vs := by
  induction vs generalizing ls with
  | nil => cases h; rfl
  | cons v vs ih =>
      simp only [levelsOf] at h
      split at h
      · next h0 =>
        cases hr : levelsOf vs with
        | error e => rw [hr] at h; cases h
        | ok r => rw [hr] at h; cases h; simp [levelByte, h0, ih hr]
      · split at h
        · next h1 =>
          cases hr : levelsOf vs with
          | error e => rw [hr] at h; cases h
          | ok r => rw [hr] at h; cases h; simp [levelByte, h1, ih hr]
        · cases h

/-- Checks output values for `expected` lines: first their number, then each one. -/
def checkValues (expected : Nat) (values : List UInt8) : Except WireError (List Bool) :=
  if values.length = expected then levelsOf values
  else .error (.valueCount expected values.length)

theorem length_of_checkValues {expected : Nat} {values : List UInt8} {ls : List Bool}
    (h : checkValues expected values = .ok ls) : ls.length = expected := by
  simp only [checkValues] at h
  split at h
  · next hl => rw [← hl, ← values_of_levelsOf h, List.length_map]
  · cases h

/-- A request for lines of one chip. The levels of an input request mean nothing. -/
structure LineSpec where
  chipPath : FieldText .chipPath
  consumer : FieldText .consumer
  offsets : Offsets
  levels : List Bool
  activeLow : Bool
  output : Bool
  levels_length : levels.length = offsets.list.length
deriving DecidableEq

namespace LineSpec

/-- Requests the lines as inputs. -/
def new (chipPath : String) (offsets : List UInt32) : Except WireError LineSpec := do
  let path ← FieldText.ofString .chipPath chipPath
  let lines ← Offsets.ofList offsets
  return {
    chipPath := path
    consumer := FieldText.empty
    offsets := lines
    levels := List.replicate lines.list.length false
    activeLow := false
    output := false
    levels_length := List.length_replicate }

/-- Sets the label shown for the lines. -/
def withConsumer (spec : LineSpec) (consumer : String) : Except WireError LineSpec := do
  let label ← FieldText.ofString .consumer consumer
  return { spec with consumer := label }

/-- Requests the lines as outputs with these values. -/
def withOutputValues (spec : LineSpec) (values : List UInt8) : Except WireError LineSpec :=
  match h : checkValues spec.offsets.list.length values with
  | .ok levels =>
      .ok { spec with levels := levels, output := true, levels_length := length_of_checkValues h }
  | .error e => .error e

/-- Says whether the lines are active when low. -/
def withActiveLow (spec : LineSpec) (activeLow : Bool) : LineSpec :=
  { spec with activeLow := activeLow }

/-- One step in building a request. -/
inductive Change
  | consumer (label : String)
  | outputValues (values : List UInt8)
  | activeLow (activeLow : Bool)
deriving DecidableEq, Repr

/-- Takes one step. -/
def change (spec : LineSpec) : Change → Except WireError LineSpec
  | .consumer label => spec.withConsumer label
  | .outputValues values => spec.withOutputValues values
  | .activeLow activeLow => .ok (spec.withActiveLow activeLow)

/-- Takes steps in order, until one fails. -/
def changes (spec : LineSpec) : List Change → Except WireError LineSpec
  | [] => .ok spec
  | c :: cs => do
      let next ← spec.change c
      next.changes cs

/-- Makes a request for inputs and takes steps from it. -/
def build (chipPath : String) (offsets : List UInt32) (cs : List Change) :
    Except WireError LineSpec := do
  let spec ← new chipPath offsets
  spec.changes cs

/-- The request after each step; a step that fails is the last. -/
def stages (spec : LineSpec) : List Change → List (Except WireError LineSpec)
  | [] => []
  | c :: cs =>
      match spec.change c with
      | .ok next => .ok next :: next.stages cs
      | .error e => [.error e]

/-- The values as bytes, one for each line. -/
def values (spec : LineSpec) : List UInt8 :=
  spec.levels.map levelByte

/-- The byte of flags: bit 0 for active-low, bit 1 for outputs. -/
def flags (spec : LineSpec) : UInt8 :=
  (if spec.activeLow then 1 else 0) + (if spec.output then 2 else 0)

theorem values_length (spec : LineSpec) : spec.values.length = spec.offsets.list.length := by
  simp [values, spec.levels_length]

end LineSpec
end LineKeeper
