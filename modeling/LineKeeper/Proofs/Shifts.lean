import LineKeeper.Proofs.LineReading

/-!
# Words that are shifted to another level

Words that spell switches known at every level spell the same at each of them: their names and
letters are the same everywhere.  So they can be taken out from before the name of the command and
put directly behind it, or back, and what the other words spell stays as it is.

**Results.**
* `spell_append`: words behind others are spelled by themselves, unless a lone double hyphen or a
  switch that waits stands before them.
* `spell_of_globals`: switches that are known everywhere are spelled the same everywhere.
* `wording?_before`, `wording?_behind`: the wordings of a command line before and after a shift.
-/

namespace LineKeeper
namespace CommandLine

/-- Does the piece name a switch that is known at every level? -/
def Piece.isGlobal (p : Piece) : Bool :=
  p.switch?.any fun s => Level.globals.contains s

theorem Piece.isGlobal_iff {p : Piece} :
    p.isGlobal = true ↔ ∃ s ∈ Level.globals, p.switch? = some s := by
  cases hp : p.switch? <;> simp [isGlobal, hp]

/-- The words spell the pieces, and leave nothing open: no switch waits at their end, and the
switches have not ended. -/
structure Spells (level : Level) (ws : List (List UInt8)) (ps : List Piece) : Prop where
  spelled : spell level none ws = some ⟨ps, none⟩
  going : ∀ w ∈ ws, Word.ofBytes w ≠ .terminator

/-- One command line becomes another when words that spell switches known at every level are taken
out from before the name of the command and put directly behind it. -/
inductive Shifted : List (List UInt8) → List (List UInt8) → Prop
  | mk {before options after rest : List (List UInt8)} {name : List UInt8} {v : Verb}
      {bs qs as : List Piece} (hb : Spells .outer before bs) (ho : Spells .outer options qs)
      (hglobal : ∀ p ∈ qs, p.isGlobal = true) (ha : Spells .outer after as)
      (hname : Scan.inner? .outer name = some (.command v)) :
      Shifted (before ++ (options ++ (after ++ name :: rest)))
        (before ++ (after ++ name :: (options ++ rest)))

variable {level level' : Level} {ps qs : List Piece} {s : Switch}
  {waiting : Option Switch} {w name : List UInt8} {ws rest : List (List UInt8)} {v : Verb}

section Levels

/-- The name of a command does not look like a switch. -/
theorem ofBytes_of_inner? (h : Scan.inner? .outer w = some level) : Word.ofBytes w = .plain := by
  have hplain : ∀ name : String, Text.Utf8.decode? w = some name →
      Word.ofBytes (Text.Utf8.encode name) = .plain → Word.ofBytes w = .plain := by
    intro name hname hbytes
    rwa [Text.Utf8.encode_of_decode? hname] at hbytes
  cases hname : Text.Utf8.decode? w with
  | none => simp [Scan.inner?, hname] at h
  | some name =>
      simp only [Scan.inner?, hname] at h
      split at h
      · rename_i hhelp
        refine hplain name hname ?_
        rw [hhelp]
        decide +kernel
      · obtain ⟨v, hv, -⟩ := Option.map_eq_some_iff.mp h
        have hverb : v.name = name := by simpa using List.find?_some hv
        refine hplain name hname ?_
        rw [← hverb]
        cases v <;> decide +kernel

/-- Only words that look like no switch lead to another level. -/
theorem inner?_eq_none (h : Word.ofBytes w ≠ .plain) (level : Level) :
    Scan.inner? level w = none := by
  cases level with
  | outer =>
      cases hinner : Scan.inner? .outer w with
      | none => rfl
      | some inner => exact absurd (ofBytes_of_inner? hinner) h
  | command v => rfl
  | help => rfl

theorem ofLong?_of_mem {long : String} (h : level.ofLong? long = some s)
    (hs : s ∈ level'.switches) : level'.ofLong? long = some s := by
  have hlong : s.long = long := by simpa using List.find?_some h
  rw [← hlong]
  exact Level.ofLong?_long hs

theorem ofLetter?_of_mem {c : Char} (h : level.ofLetter? c = some s)
    (hs : s ∈ level'.switches) : level'.ofLetter? c = some s := by
  have hletter : s.letter? = some c := by simpa using List.find?_some h
  cases level' with
  | outer => revert hs; cases s <;> cases hletter <;> decide
  | command v => revert hs; cases v <;> cases s <;> cases hletter <;> decide
  | help => cases hs

end Levels

/-- The pieces are switches that are known at a level. -/
def Known (level : Level) (ps : List Piece) : Prop :=
  ∀ p ∈ ps, ∃ s ∈ level.switches, p.switch? = some s

section Everywhere

variable {r : List Piece × Option Switch}

theorem spellLong_of_known {long : List UInt8} {value : Option (List UInt8)}
    (h : spellLong level long value = some r) (hp : Known level' r.1)
    (hw : ∀ s, r.2 = some s → s ∈ level'.switches) : spellLong level' long value = some r := by
  unfold spellLong at h ⊢
  cases hname : (Text.Utf8.decode? long).bind level.ofLong? with
  | none => simp [hname] at h
  | some s =>
      obtain ⟨text, htext, hs⟩ := Option.bind_eq_some_iff.mp hname
      rw [hname] at h
      dsimp only at h
      have hmem : s ∈ level'.switches := by
        split at h <;> cases h
        · obtain ⟨_, hmem, ⟨⟩⟩ := hp _ (List.mem_singleton_self _)
          exact hmem
        · exact hw s rfl
        · obtain ⟨_, hmem, ⟨⟩⟩ := hp _ (List.mem_singleton_self _)
          exact hmem
      rw [htext, Option.bind_some, ofLong?_of_mem hs hmem]
      exact h

theorem spellLetters_of_known {bytes : List UInt8} (h : spellLetters level bytes = some r)
    (hp : Known level' r.1) (hw : ∀ s, r.2 = some s → s ∈ level'.switches) :
    spellLetters level' bytes = some r := by
  induction bytes generalizing r with
  | nil => exact h
  | cons b bs ih =>
      unfold spellLetters at h ⊢
      cases hs : level.ofLetter? (Char.ofNat b.toNat) with
      | none => simp [hs] at h
      | some s =>
          rw [hs] at h
          dsimp only at h
          split at h
          · rename_i htakes
            have hmem : s ∈ level'.switches := by
              split at h <;> cases h
              · exact hw s rfl
              · obtain ⟨_, hmem, ⟨⟩⟩ := hp _ (List.mem_singleton_self _)
                exact hmem
            simp only [ofLetter?_of_mem hs hmem, if_pos htakes]
            exact h
          · rename_i htakes
            obtain ⟨r', hr', rfl⟩ := Option.map_eq_some_iff.mp h
            obtain ⟨_, hmem, ⟨⟩⟩ := hp _ List.mem_cons_self
            have hrest := ih hr' (fun p hmem' => hp p (List.mem_cons_of_mem _ hmem')) hw
            simp only [ofLetter?_of_mem hs hmem, if_neg htakes, hrest, Option.map_some]

theorem spellSwitches_of_known {word : Word} (h : spellSwitches level word = some r)
    (hp : Known level' r.1) (hw : ∀ s, r.2 = some s → s ∈ level'.switches) :
    spellSwitches level' word = some r := by
  cases word with
  | long name value => exact spellLong_of_known h hp hw
  | letters bytes => exact spellLetters_of_known h hp hw
  | _ => cases h

/-- A switch that waits gets its value from the words that follow. -/
theorem pieces_of_waiting {sp : Spelling} (h : spell level (some s) ws = some sp) :
    ∃ raw qs, sp.pieces = .valued s raw :: qs := by
  cases ws with
  | nil => cases h
  | cons w ws =>
      rw [spell] at h
      split at h
      · obtain ⟨sp', -, rfl⟩ := Option.map_eq_some_iff.mp h
        exact ⟨w, sp'.pieces, rfl⟩
      · cases h

/-- A word that begins like a switch, and the words behind it. -/
theorem spell_cons_of_isSwitch (h : (Word.ofBytes w).isSwitch = true) (level : Level) :
    spell level none (w :: ws) = (spellSwitches level (Word.ofBytes w)).bind fun r =>
      (spell level r.2 ws).map (·.behind r.1) := by
  rw [spell]
  cases hw : Word.ofBytes w with
  | terminator => simp [hw, Word.isSwitch] at h
  | plain => simp [hw, Word.isSwitch] at h
  | long name value => rw [inner?_eq_none (by simp [hw])]
  | letters bytes => rw [inner?_eq_none (by simp [hw])]

/-- What the first of some words spells, with the pieces of the words behind it. -/
inductive Begins (level : Level) (w : List UInt8) (ws : List (List UInt8)) :
    Option Switch → List Piece → Prop
  | value {s : Switch} {qs : List Piece} (hw : Word.ofBytes w = .plain)
      (hrest : spell level none ws = some ⟨qs, none⟩) :
      Begins level w ws (some s) (.valued s w :: qs)
  | terminator (hw : Word.ofBytes w = .terminator) : Begins level w ws none (ws.map .operand)
  | operand {qs : List Piece} (hw : Word.ofBytes w = .plain) (hinner : Scan.inner? level w = none)
      (hrest : spell level none ws = some ⟨qs, none⟩) : Begins level w ws none (.operand w :: qs)
  | switches {r : List Piece × Option Switch} {qs : List Piece}
      (hw : (Word.ofBytes w).isSwitch = true)
      (hr : spellSwitches level (Word.ofBytes w) = some r)
      (hrest : spell level r.2 ws = some ⟨qs, none⟩) : Begins level w ws none (r.1 ++ qs)

theorem begins_of_spell (h : spell level waiting (w :: ws) = some ⟨ps, none⟩) :
    Begins level w ws waiting ps := by
  cases waiting with
  | some s =>
      rw [spell] at h
      split at h
      · rename_i hw
        obtain ⟨⟨qs, next⟩, hrest, heq⟩ := Option.map_eq_some_iff.mp h
        obtain ⟨rfl, rfl⟩ := Spelling.mk.inj heq
        exact .value hw hrest
      · cases h
  | none =>
      cases hswitch : (Word.ofBytes w).isSwitch with
      | true =>
          rw [spell_cons_of_isSwitch hswitch] at h
          obtain ⟨r, hr, h⟩ := Option.bind_eq_some_iff.mp h
          obtain ⟨⟨qs, next⟩, hrest, heq⟩ := Option.map_eq_some_iff.mp h
          obtain ⟨rfl, rfl⟩ := Spelling.mk.inj heq
          exact .switches hswitch hr hrest
      | false =>
          rw [spell] at h
          cases hinner : Scan.inner? level w with
          | some inner => simp [hinner] at h
          | none =>
              rw [hinner] at h
              cases hw : Word.ofBytes w with
              | terminator =>
                  rw [hw] at h
                  cases h
                  exact .terminator hw
              | plain =>
                  rw [hw] at h
                  obtain ⟨⟨qs, next⟩, hrest, heq⟩ := Option.map_eq_some_iff.mp h
                  obtain ⟨rfl, rfl⟩ := Spelling.mk.inj heq
                  exact .operand hw hinner hrest
              | long name value => simp [hw, Word.isSwitch] at hswitch
              | letters bytes => simp [hw, Word.isSwitch] at hswitch

/-- Switches that are known at another level too are spelled the same there. -/
theorem spell_of_known (h : spell level waiting ws = some ⟨ps, none⟩) (hp : Known level' ps) :
    spell level' waiting ws = some ⟨ps, none⟩ := by
  induction ws generalizing waiting ps with
  | nil => cases waiting <;> exact h
  | cons w ws ih =>
      cases begins_of_spell h with
      | value hw hrest =>
          have hsame := ih hrest fun p hmem => hp p (List.mem_cons_of_mem _ hmem)
          rw [spell, if_pos hw, hsame]
          rfl
      | terminator hw => rw [spell, inner?_eq_none (by simp [hw]), hw]
      | operand =>
          obtain ⟨_, -, ⟨⟩⟩ := hp _ List.mem_cons_self
      | @switches r qs hw hr hrest =>
          have hsame := ih hrest fun p hmem => hp p (List.mem_append_right _ hmem)
          have hswitches : spellSwitches level' (Word.ofBytes w) = some r := by
            refine spellSwitches_of_known hr
              (fun p hmem => hp p (List.mem_append_left _ hmem)) fun s hs => ?_
            rw [hs] at hrest
            obtain ⟨raw, qs', rfl⟩ := pieces_of_waiting hrest
            obtain ⟨_, hmem, ⟨⟩⟩ := hp (.valued s raw) (List.mem_append_right _ List.mem_cons_self)
            exact hmem
          rw [spell_cons_of_isSwitch hw, hswitches, Option.bind_some, hsame]
          rfl

end Everywhere

section Shifting

/-- Words behind others are spelled by themselves. -/
theorem spell_append (h : spell level waiting ws = some ⟨ps, none⟩)
    (hgoing : ∀ w ∈ ws, Word.ofBytes w ≠ .terminator) (rest : List (List UInt8)) :
    spell level waiting (ws ++ rest) = (spell level none rest).map (·.behind ps) := by
  induction ws generalizing waiting ps with
  | nil =>
      cases waiting with
      | none =>
          cases h
          rw [List.nil_append]
          cases spell level none rest <;> rfl
      | some s => cases h
  | cons w ws ih =>
      -- the words behind `w`, with the pieces of `w` in front
      have hbehind : ∀ {waiting qs qs'}, spell level waiting ws = some ⟨qs', none⟩ →
          (spell level waiting (ws ++ rest)).map (·.behind qs) =
            (spell level none rest).map (·.behind (qs ++ qs')) := by
        intro waiting qs qs' hspell
        rw [ih hspell fun w hw => hgoing w (List.mem_cons_of_mem _ hw)]
        cases spell level none rest <;> simp [Spelling.behind]
      rw [List.cons_append]
      cases begins_of_spell h with
      | value hw hrest =>
          rw [spell, if_pos hw, hbehind hrest]
          rfl
      | terminator hw => exact absurd hw (hgoing w List.mem_cons_self)
      | operand hw hinner hrest =>
          rw [spell, hinner, hw]
          exact hbehind hrest
      | switches hw hr hrest =>
          rw [spell_cons_of_isSwitch hw, hr, Option.bind_some, hbehind hrest]

variable {options before after : List (List UInt8)} {as bs : List Piece}

/-- What is spelled up to the name of a command. -/
theorem wording?_append (h : Spells .outer ws ps)
    (hname : Scan.inner? .outer name = some (.command v)) (rest : List (List UInt8)) :
    wording? (ws ++ name :: rest) =
      (spell (.command v) none rest).map fun inner => ⟨ps, v, inner.pieces⟩ := by
  rw [wording?, spell_append h.spelled h.going, spell, hname]
  simp [Spelling.behind]

theorem Spells.append (h : Spells level ws ps) (h' : Spells level rest qs) :
    Spells level (ws ++ rest) (ps ++ qs) := by
  refine ⟨?_, fun w hw => ?_⟩
  · rw [spell_append h.spelled h.going, h'.spelled]
    rfl
  · rcases List.mem_append.mp hw with hw | hw
    · exact h.going w hw
    · exact h'.going w hw

theorem known_of_globals (h : ∀ p ∈ qs, p.isGlobal = true) (v : Verb) : Known (.command v) qs := by
  intro p hp
  obtain ⟨s, hs, hps⟩ := Piece.isGlobal_iff.mp (h p hp)
  exact ⟨s, (mem_switches_of_mem_globals hs v).2, hps⟩

/-- The wording of a command line with switches before the name of the command. -/
theorem wording?_before (hb : Spells .outer before bs) (ho : Spells .outer options qs)
    (ha : Spells .outer after as) (hname : Scan.inner? .outer name = some (.command v))
    (rest : List (List UInt8)) :
    wording? (before ++ (options ++ (after ++ name :: rest))) =
      (spell (.command v) none rest).map fun inner => ⟨bs ++ (qs ++ as), v, inner.pieces⟩ := by
  have h := wording?_append (hb.append (ho.append ha)) hname rest
  rwa [List.append_assoc, List.append_assoc] at h

/-- The wording of a command line with the same switches directly behind the name. -/
theorem wording?_behind (hb : Spells .outer before bs) (ho : Spells .outer options qs)
    (hglobal : ∀ p ∈ qs, p.isGlobal = true) (ha : Spells .outer after as)
    (hname : Scan.inner? .outer name = some (.command v)) (rest : List (List UInt8)) :
    wording? (before ++ (after ++ name :: (options ++ rest))) =
      (spell (.command v) none rest).map fun inner => ⟨bs ++ as, v, qs ++ inner.pieces⟩ := by
  have h := wording?_append (hb.append ha) hname (options ++ rest)
  have hoptions := spell_of_known ho.spelled (known_of_globals hglobal v)
  rw [spell_append hoptions ho.going, Option.map_map, List.append_assoc] at h
  exact h

end Shifting

end CommandLine
end LineKeeper
