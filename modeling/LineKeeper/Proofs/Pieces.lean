import LineKeeper.CommandLine.Scan
import Mathlib.Data.List.Nodup

/-!
# What the words of a level spell

The words of a level name switches, some with values, and operands: these are its pieces, and
`spell` says which pieces some words spell.  Several letters in one word are several pieces, and
a switch with its value is one piece, in however many words.  A word that is the value of a switch
is no operand, and it names no command.

**What the pieces say.**  Most pieces are worth an entry.  The pieces of a level can be read if
each is worth one, no switch is among them twice, and a place for one word has no two.  What they
then say is their entries, one for each piece.

**Results.**
* `Readable.concat_iff`: when pieces can be read with one more.
* `Readable.has_switch_iff`: a switch was given exactly if a piece names it.
* `Settings.Alike.add`: what lists of lines were given together makes no difference.
-/

namespace LineKeeper
namespace CommandLine

/-- Something that words name: a switch, a switch with the bytes of its value, or a word that is
neither. -/
inductive Piece
  | flag (s : Switch)
  | valued (s : Switch) (raw : List UInt8)
  | operand (w : List UInt8)
deriving DecidableEq, Repr

namespace Piece

/-- The switch of a piece. -/
def switch? : Piece → Option Switch
  | flag s => some s
  | valued s _ => some s
  | operand _ => none

/-- The word of a piece that is no switch. -/
def word? : Piece → Option (List UInt8)
  | operand w => some w
  | _ => none

/-- What a piece is worth at a level.  Help and the version are no settings. -/
def worth? (level : Level) : Piece → Option Entry
  | flag s => if s = .help ∨ s = .version then none else some ⟨.switch s, .words, .present⟩
  | valued s raw => (readSwitch s raw).toOption.map (Entry.mk (.switch s) .words)
  | operand w => level.operand?.bind fun o =>
      (readOperand o [w]).toOption.map (Entry.mk (.operand o) .words)

/-- The entries that pieces are worth. -/
inductive IsWorth (level : Level) : Piece → Entry → Prop
  | flag (s : Switch) : IsWorth level (.flag s) ⟨.switch s, .words, .present⟩
  | valued {s : Switch} {raw : List UInt8} {value : Value} (h : readSwitch s raw = .ok value) :
      IsWorth level (.valued s raw) ⟨.switch s, .words, value⟩
  | operand {w : List UInt8} {o : Operand} {value : Value} (ho : level.operand? = some o)
      (h : readOperand o [w] = .ok value) :
      IsWorth level (.operand w) ⟨.operand o, .words, value⟩

variable {level : Level} {p : Piece} {e : Entry} {s : Switch} {o : Operand}

theorem toOption_eq_some {α β : Type} {x : Except α β} {b : β} (h : x.toOption = some b) :
    x = .ok b := by
  cases x with
  | error e => cases h
  | ok b' => cases h; rfl

theorem isWorth_of_worth? (h : p.worth? level = some e) : IsWorth level p e := by
  cases p with
  | flag s =>
      simp only [worth?] at h
      split at h <;> cases h
      exact .flag s
  | valued s raw =>
      obtain ⟨value, hvalue, rfl⟩ := Option.map_eq_some_iff.mp h
      exact .valued (toOption_eq_some hvalue)
  | operand w =>
      obtain ⟨o, ho, h⟩ := Option.bind_eq_some_iff.mp h
      obtain ⟨value, hvalue, rfl⟩ := Option.map_eq_some_iff.mp h
      exact .operand ho (toOption_eq_some hvalue)

theorem item_worth?_eq_switch_iff (h : p.worth? level = some e) :
    e.item = .switch s ↔ p.switch? = some s := by
  cases isWorth_of_worth? h <;> simp [switch?]

theorem word?_of_switch? (h : p.switch? = some s) : p.word? = none := by
  cases p with
  | flag _ => rfl
  | valued _ _ => rfl
  | operand _ => cases h

/-- Switches are worth the same at all levels. -/
theorem worth?_of_switch? (h : p.switch? = some s) (level level' : Level) :
    p.worth? level = p.worth? level' := by
  cases p with
  | flag _ => rfl
  | valued _ _ => rfl
  | operand _ => cases h

end Piece

section Spelling

/-- The pieces that words spell, and what follows them if one leads to another level. -/
structure Spelling where
  pieces : List Piece
  next : Option (Level × List (List UInt8))
deriving DecidableEq

namespace Spelling

/-- Puts pieces in front. -/
def behind (ps : List Piece) (sp : Spelling) : Spelling :=
  { sp with pieces := ps ++ sp.pieces }

@[simp] theorem pieces_behind (ps : List Piece) (sp : Spelling) :
    (sp.behind ps).pieces = ps ++ sp.pieces := rfl

end Spelling

/-- The pieces of a long name, and the switch that waits for its value. -/
def spellLong (level : Level) (name : List UInt8) (value : Option (List UInt8)) :
    Option (List Piece × Option Switch) :=
  match (Text.Utf8.decode? name).bind level.ofLong? with
  | none => none
  | some s =>
      match s.takesValue, value with
      | true, some raw => some ([.valued s raw], none)
      | true, none => some ([], some s)
      | false, none => some ([.flag s], none)
      | false, some _ => none

/-- The pieces of letters, and the switch that waits for its value. -/
def spellLetters (level : Level) : List UInt8 → Option (List Piece × Option Switch)
  | [] => some ([], none)
  | b :: bs =>
      match level.ofLetter? (Char.ofNat b.toNat) with
      | none => none
      | some s =>
          if s.takesValue then
            if bs.isEmpty then some ([], some s)
            else some ([.valued s (Scan.attachedValue bs)], none)
          else (spellLetters level bs).map fun r => (.flag s :: r.1, r.2)

/-- The pieces of a word that begins like a switch, and the switch that waits for its value. -/
def spellSwitches (level : Level) : Word → Option (List Piece × Option Switch)
  | .long name value => spellLong level name value
  | .letters bytes => spellLetters level bytes
  | _ => none

/-- The pieces that words spell at a level, while a switch waits for its value or none does.
Behind a lone double hyphen all words are operands. -/
def spell (level : Level) : Option Switch → List (List UInt8) → Option Spelling
  | none, [] => some ⟨[], none⟩
  | some _, [] => none
  | some s, w :: ws =>
      if Word.ofBytes w = .plain then (spell level none ws).map (·.behind [.valued s w]) else none
  | none, w :: ws =>
      match Scan.inner? level w with
      | some inner => some ⟨[], some (inner, ws)⟩
      | none =>
          match Word.ofBytes w with
          | .terminator => some ⟨ws.map .operand, none⟩
          | .plain => (spell level none ws).map (·.behind [.operand w])
          | word => (spellSwitches level word).bind fun r => (spell level r.2 ws).map (·.behind r.1)

end Spelling

section Readable

/-- The switches of some pieces. -/
def switches (ps : List Piece) : List Switch :=
  ps.filterMap Piece.switch?

/-- The words of some pieces that are no switches. -/
def operands (ps : List Piece) : List (List UInt8) :=
  ps.filterMap Piece.word?

/-- What pieces say at a level. -/
def settings (level : Level) (ps : List Piece) : Settings :=
  ⟨ps.filterMap (Piece.worth? level)⟩

/-- An entry of some pieces is what one of them is worth. -/
theorem exists_of_entry? {level : Level} {ps : List Piece} {i : Item} {e : Entry}
    (h : Settings.entry? (settings level ps) i = some e) :
    ∃ p ∈ ps, p.worth? level = some e ∧ e.item = i := by
  obtain ⟨p, hp, hworth⟩ := List.mem_filterMap.mp (List.mem_of_find?_eq_some h)
  exact ⟨p, hp, hworth, by simpa using List.find?_some h⟩

/-- The pieces can be read at a level. -/
structure Readable (level : Level) (ps : List Piece) : Prop where
  entries : ∀ p ∈ ps, (p.worth? level).isSome = true
  once : (switches ps).Nodup
  single : ∀ o, level.operand? = some o → o.isMany = false → (operands ps).length ≤ 1

variable {level : Level} {ps qs : List Piece} {p : Piece} {e : Entry} {s : Switch} {o : Operand}

@[simp] theorem switches_append (ps qs : List Piece) :
    switches (ps ++ qs) = switches ps ++ switches qs :=
  List.filterMap_append

@[simp] theorem operands_append (ps qs : List Piece) :
    operands (ps ++ qs) = operands ps ++ operands qs :=
  List.filterMap_append

theorem mem_switches : s ∈ switches ps ↔ ∃ p ∈ ps, p.switch? = some s :=
  List.mem_filterMap

theorem settings_concat (h : p.worth? level = some e) :
    settings level (ps ++ [p]) = (settings level ps).add e := by
  simp [settings, Settings.add, h]

namespace Readable

theorem nil (level : Level) : Readable level [] :=
  ⟨fun _ hp => (List.not_mem_nil hp).elim, List.nodup_nil, fun _ _ _ => Nat.zero_le 1⟩

theorem of_append (h : Readable level (ps ++ qs)) : Readable level ps := by
  refine ⟨fun p hp => h.entries p (List.mem_append_left qs hp), ?_, fun o ho hm => ?_⟩
  · have := h.once
    rw [switches_append] at this
    exact this.of_append_left
  · have := h.single o ho hm
    rw [operands_append, List.length_append] at this
    omega

/-- Pieces can be read with one more if they can be read without it, it can be read itself, its
switch is not among them, and no word is among them if it is a word of its own. -/
theorem concat_iff : Readable level (ps ++ [p]) ↔ Readable level ps ∧
    (p.worth? level).isSome = true ∧ (∀ s, p.switch? = some s → s ∉ switches ps) ∧
    (∀ w o, p.word? = some w → level.operand? = some o → o.isMany = false → operands ps = []) := by
  constructor
  · intro h
    refine ⟨h.of_append, h.entries p (by simp), fun s hs hmem => ?_, fun w o hw ho hm => ?_⟩
    · have hdisjoint := (List.nodup_append.mp (switches_append ps [p] ▸ h.once)).2.2
      exact hdisjoint s hmem s (by simp [switches, hs]) rfl
    · have hlength := h.single o ho hm
      rw [operands_append, List.length_append] at hlength
      have hone : (operands [p]).length = 1 := by simp [operands, hw]
      exact List.eq_nil_of_length_eq_zero (by omega)
  · rintro ⟨hps, hp, honce, hsingle⟩
    refine ⟨fun q hq => ?_, ?_, fun o ho hm => ?_⟩
    · rcases List.mem_append.mp hq with hq | hq
      · exact hps.entries q hq
      · rw [List.mem_singleton.mp hq]
        exact hp
    · rw [switches_append]
      refine hps.once.append ?_ fun s hs hs' => ?_
      · simp only [switches, List.filterMap_cons, List.filterMap_nil]
        cases p.switch? <;> simp
      · obtain ⟨q, hq, hqs⟩ := mem_switches.mp hs'
        exact honce s (List.mem_singleton.mp hq ▸ hqs) hs
    · rw [operands_append, List.length_append]
      cases hw : p.word? with
      | none =>
          have hnone : (operands [p]).length = 0 := by simp [operands, hw]
          have := hps.single o ho hm
          omega
      | some w =>
          have hone : (operands [p]).length = 1 := by simp [operands, hw]
          have hnil : (operands ps).length = 0 := by rw [hsingle w o hw ho hm]; rfl
          omega

/-- A switch was given exactly if a piece names it. -/
theorem has_switch_iff (h : Readable level ps) :
    (settings level ps).has (.switch s) = true ↔ s ∈ switches ps := by
  simp only [Settings.has, Settings.entry?, settings, List.find?_isSome, mem_switches,
    List.mem_filterMap, decide_eq_true_eq]
  constructor
  · rintro ⟨e, ⟨p, hp, he⟩, hitem⟩
    exact ⟨p, hp, (Piece.item_worth?_eq_switch_iff he).mp hitem⟩
  · rintro ⟨p, hp, hs⟩
    obtain ⟨e, he⟩ := Option.isSome_iff_exists.mp (h.entries p hp)
    exact ⟨e, ⟨p, hp, he⟩, (Piece.item_worth?_eq_switch_iff he).mpr hs⟩

end Readable

end Readable

namespace Settings

variable {g g' : Settings} {e : Entry} {i : Item} {ls ms : List LineArg}

/-- Both say the same, perhaps with the lines in other groups. -/
structure Alike (g g' : Settings) : Prop where
  entry : ∀ i, i ≠ .operand .lines → g.entry? i = g'.entry? i
  given : ∀ i, g.has i = g'.has i
  lines : g.lines = g'.lines

theorem entry?_add (g : Settings) (e : Entry) (i : Item) :
    Settings.entry? (g.add e) i = (g.entry? i).or (if e.item = i then some e else none) := by
  simp only [add, Settings.entry?, List.find?_append, List.find?_singleton, decide_eq_true_eq]

theorem has_add (g : Settings) (e : Entry) (i : Item) :
    (g.add e).has i = (g.has i || decide (e.item = i)) := by
  simp only [has, entry?_add, Option.isSome_or]
  by_cases h : e.item = i <;> simp [h]

theorem lines_add (g : Settings) (e : Entry) : (g.add e).lines = g.lines ++ lines ⟨[e]⟩ := by
  simp [lines, add]

namespace Alike

theorem refl (g : Settings) : g.Alike g :=
  ⟨fun _ _ => rfl, fun _ => rfl, rfl⟩

theorem add (h : g.Alike g') (e : Entry) : (g.add e).Alike (g'.add e) := by
  refine ⟨fun i hi => ?_, fun i => ?_, ?_⟩
  · rw [entry?_add, entry?_add, h.entry i hi]
  · rw [has_add, has_add, h.given i]
  · rw [lines_add, lines_add, h.lines]

/-- What lines were given together makes no difference. -/
theorem add_lines (h : (g.add ⟨.operand .lines, .words, .lines ls⟩).Alike g') :
    (g.add ⟨.operand .lines, .words, .lines (ls ++ ms)⟩).Alike
      (g'.add ⟨.operand .lines, .words, .lines ms⟩) := by
  refine ⟨fun i hi => ?_, fun i => ?_, ?_⟩
  · have hother : ¬ Item.operand .lines = i := fun heq => hi heq.symm
    rw [entry?_add, entry?_add, ← h.entry i hi, entry?_add]
    simp [hother]
  · rw [has_add, has_add, ← h.given i, has_add, Bool.or_assoc, Bool.or_self]
  · rw [lines_add, lines_add, ← h.lines, lines_add]
    simp [Settings.lines]

theorem request? (h : g.Alike g') : g.request? = g'.request? := by
  rw [Settings.request?, Settings.request?, h.entry _ (by decide)]

end Alike

end Settings

end CommandLine
end LineKeeper
