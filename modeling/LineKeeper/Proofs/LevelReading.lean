import LineKeeper.Proofs.Pieces

/-!
# Reading the words of a level, piece by piece

What was named last is pending and is read late: the refusal of a piece may come several words
after it.  In the end that makes no difference.  While a scan reads words, it holds the pieces
that they spell (`Scan.Follows`): once what is pending is settled, either it was given what the
pieces say, or they cannot be read.

**Invariant.**  A scan that took some pieces settles with what they say, or refuses them.  A scan
in which a switch waits has settled the pieces before it, so that only the value is missing.

**Results.**
* `Scan.give_yields`, `Scan.flag_yields`, `Scan.attach_yields`, `Scan.await_yields`,
  `Scan.plain_yields`: what one piece does.
* `Scan.words_reaches`: words are read exactly as far as the pieces that they spell can be read.
-/

namespace LineKeeper
namespace CommandLine

section Yields

variable {α β : Type} {P P' : α → Prop} {R : β → Prop} {Q Q' : Prop} {x : Except UsageError α}
  {f : α → Except UsageError β}

/-- What was read has the property `P`, or it was refused, and then `Q` is so. -/
def Yields (P : α → Prop) (Q : Prop) : Except UsageError α → Prop
  | .ok a => P a
  | .error _ => Q

namespace Yields

theorem bind (h : Yields P Q x) (hf : ∀ a, P a → Yields R Q' (f a)) (hq : Q → Q') :
    Yields R Q' (x >>= f) := by
  cases x with
  | ok a => exact hf a h
  | error e => exact hq h

theorem mono (h : Yields P Q x) (hp : ∀ a, P a → P' a) (hq : Q → Q') : Yields P' Q' x := by
  cases x with
  | ok a => exact hp a h
  | error e => exact hq h

end Yields

end Yields

section Lines

/-- Line arguments are read one by one. -/
theorem readLines_concat (raws : List (List UInt8)) (raw : List UInt8) :
    readLines (raws ++ [raw]) =
      (readLines raws).bind fun ls => (readLines [raw]).map fun ms => ls ++ ms := by
  induction raws with
  | nil =>
      simp only [List.nil_append]
      cases readLines [raw] <;> rfl
  | cons first raws ih =>
      simp only [List.cons_append, readLines, ih, bind, Except.bind]
      cases textOf first with
      | error f => rfl
      | ok s =>
          dsimp only
          cases LineArg.ofString s with
          | error e => rfl
          | ok line =>
              cases readLines raws with
              | error f => rfl
              | ok ls =>
                  cases textOf raw with
                  | error f => rfl
                  | ok s =>
                      dsimp only
                      cases LineArg.ofString s <;> rfl

end Lines

namespace Scan

variable {s t : Scan} {level : Level} {ps : List Piece} {p : Piece} {sw : Switch}
  {raw w : List UInt8} {value : Except Fault Value} {waiting : Option Switch}
  {ws : List (List UInt8)}

section Following

/-- For an operand of one word, the scan knows whether it has its word. -/
def Fills (s : Scan) (level : Level) (ps : List Piece) : Prop :=
  ∀ o, level.operand? = some o → o.isMany = false → (s.filled = true ↔ operands ps ≠ [])

/-- Nothing is pending, and the scan was given what the pieces say. -/
structure Holds (s : Scan) (level : Level) (ps : List Piece) : Prop where
  atLevel : s.level = level
  pending : s.pending = .nothing
  given : s.given.Alike (settings level ps)
  readable : Readable level ps
  filled : s.Fills level ps

/-- What was given and what is pending is what the pieces say, as far as they can be read. -/
structure Took (s : Scan) (level : Level) (ps : List Piece) : Prop where
  atLevel : s.level = level
  calm : s.isWaiting = false
  operand : ∀ o raws, s.pending = .operand o raws → level.operand? = some o
  settle : Yields (fun t => t.Holds level ps ∧ t.ended = s.ended) (¬ Readable level ps) s.settle
  filled : s.Fills level ps

/-- A switch waits for its value, and the scan was given what the pieces before it say. -/
structure Awaits (s : Scan) (level : Level) (ps : List Piece) (sw : Switch) : Prop where
  pending : s.pending = .waiting sw
  before : Holds { s with pending := .nothing } level ps

/-- The scan has read the words that spell the pieces, and perhaps the name of a switch that waits
for its value. -/
def Follows (s : Scan) (level : Level) (ps : List Piece) : Option Switch → Prop
  | none => s.Took level ps
  | some sw => s.Awaits level ps sw

theorem Holds.took (h : s.Holds level ps) : s.Took level ps where
  atLevel := h.atLevel
  calm := by rw [isWaiting, h.pending]
  operand := fun o raws ho => by simp [h.pending] at ho
  settle := by
    rw [settle_settled h.pending]
    exact ⟨h, rfl⟩
  filled := h.filled

theorem holds_start (level : Level) : (start level).Holds level [] :=
  ⟨rfl, rfl, .refl _, .nil level, fun _ _ _ => by simp [start, operands]⟩

theorem Follows.isWaiting_eq (h : s.Follows level ps waiting) :
    s.isWaiting = waiting.isSome := by
  cases waiting with
  | none => exact h.calm
  | some sw => rw [isWaiting, h.pending]; rfl

/-- A switch is no word of an operand. -/
theorem Fills.concat (h : s.Fills level ps) (hp : p.word? = none) (hs : t.filled = s.filled) :
    t.Fills level (ps ++ [p]) := by
  intro o ho hm
  have hnil : operands [p] = [] := by simp [operands, hp]
  rw [operands_append, hnil, List.append_nil, hs]
  exact h o ho hm

theorem not_readable_of_worth? (h : p.worth? level = none) : ¬ Readable level (ps ++ [p]) := by
  intro hr
  have := (Readable.concat_iff.mp hr).2.1
  rw [h] at this
  cases this

end Following

section Switches

/-- A switch with its value is given, unless it was given before or the value cannot be read. -/
theorem give_yields (h : s.Holds level ps) (hp : p.switch? = some sw)
    (he : p.worth? level = value.toOption.map (Entry.mk (.switch sw) .words)) :
    Yields (fun t => t.Holds level (ps ++ [p]) ∧ t.ended = s.ended)
      (¬ Readable level (ps ++ [p])) (s.give sw .words value) := by
  have hword := Piece.word?_of_switch? hp
  have hhas : s.given.has (.switch sw) = true ↔ sw ∈ switches ps := by
    rw [h.given.given]
    exact h.readable.has_switch_iff
  by_cases hgiven : s.given.has (.switch sw) = true
  · rw [give, if_pos hgiven]
    intro hr
    exact (Readable.concat_iff.mp hr).2.2.1 sw hp (hhas.mp hgiven)
  · rw [give, if_neg hgiven]
    cases value with
    | error f => exact not_readable_of_worth? he
    | ok v =>
        have hentry : p.worth? level = some ⟨.switch sw, .words, v⟩ := he
        refine ⟨⟨h.atLevel, h.pending, ?_, ?_, h.filled.concat hword rfl⟩, rfl⟩
        · rw [settings_concat hentry]
          exact h.given.add _
        · refine Readable.concat_iff.mpr ⟨h.readable, by rw [hentry]; rfl, ?_, ?_⟩
          · intro sw' hsw' hmem
            cases hp.symm.trans hsw'
            exact hgiven (hhas.mpr hmem)
          · intro w o hw
            cases hword.symm.trans hw

/-- A switch without a value is given, unless it was given before or is a demand. -/
theorem flag_yields (h : s.Took level ps) (sw : Switch) (long : Bool) :
    Yields (fun t => t.Holds level (ps ++ [.flag sw]) ∧ t.ended = s.ended)
      (¬ Readable level (ps ++ [.flag sw])) (s.flag sw long) := by
  refine h.settle.bind (fun t ht => ?_) fun hq hr => hq hr.of_append
  obtain ⟨ht, hended⟩ := ht
  rw [← hended]
  by_cases hdemand : sw = .help ∨ sw = .version
  · have hnone : (Piece.flag sw).worth? level = none := if_pos hdemand
    rcases hdemand with rfl | rfl <;> exact not_readable_of_worth? hnone
  · have hentry : (Piece.flag sw).worth? level = some ⟨.switch sw, .words, .present⟩ :=
      if_neg hdemand
    have hgive : Yields (fun u => u.Holds level (ps ++ [.flag sw]) ∧ u.ended = t.ended)
        (¬ Readable level (ps ++ [.flag sw])) (t.give sw .words (.ok .present)) :=
      give_yields ht rfl hentry
    cases sw with
    | help => exact absurd (.inl rfl) hdemand
    | version => exact absurd (.inr rfl) hdemand
    | _ => exact hgive

/-- A switch that was named together with its value is given. -/
theorem attach_yields (h : s.Took level ps) (sw : Switch) (raw : List UInt8) :
    Yields (fun t => t.Holds level (ps ++ [.valued sw raw]) ∧ t.ended = s.ended)
      (¬ Readable level (ps ++ [.valued sw raw])) (s.attach sw raw) := by
  refine h.settle.bind (fun t ht => ?_) fun hq hr => hq hr.of_append
  rw [← ht.2]
  exact give_yields ht.1 rfl rfl

/-- A switch that takes a value waits for it. -/
theorem await_yields (h : s.Took level ps) (sw : Switch) :
    Yields (fun t => t.Awaits level ps sw ∧ t.ended = s.ended) (¬ Readable level ps)
      (s.await sw) := by
  refine h.settle.bind (fun t ht => ?_) id
  obtain ⟨ht, hended⟩ := ht
  exact ⟨⟨rfl, ⟨ht.atLevel, rfl, ht.given, ht.readable, ht.filled⟩⟩, hended⟩

/-- The next word is the value of the switch that waits. -/
theorem Awaits.take (h : s.Awaits level ps sw) (w : List UInt8) :
    Took { s with pending := .valued sw w } level (ps ++ [.valued sw w]) where
  atLevel := h.before.atLevel
  calm := rfl
  operand := fun o raws ho => by cases ho
  settle := give_yields (p := .valued sw w) h.before rfl rfl
  filled := h.before.filled.concat rfl rfl

/-- A switch that waits when it should be settled is refused. -/
theorem settle_of_isWaiting (h : s.isWaiting = true) : ∃ e, s.settle = .error e := by
  cases hp : s.pending with
  | waiting sw => exact ⟨s.fault (.noValue sw), by simp [settle, hp, fail]⟩
  | _ => simp [isWaiting, hp] at h

end Switches

section Words

/-- A word that is added to those of its operand. -/
theorem settle_append {o : Operand} {raws : List (List UInt8)} (h : s.Took level ps)
    (hp : s.pending = .operand o raws) (hm : o.isMany = true) :
    Yields (fun t => t.Holds level (ps ++ [.operand w]) ∧ t.ended = s.ended)
      (¬ Readable level (ps ++ [.operand w]))
      { s with pending := .operand o (raws ++ [w]) }.settle := by
  have hlevel := h.operand o raws hp
  cases o with
  | request => cases hm
  | lines =>
      have hsettle := h.settle
      simp only [settle, hp, readOperand] at hsettle
      simp only [settle, readOperand, readLines_concat]
      cases hraws : readLines raws with
      | error f =>
          rw [hraws] at hsettle
          exact fun hr => hsettle hr.of_append
      | ok ls =>
          rw [hraws] at hsettle
          obtain ⟨hholds, -⟩ := hsettle
          cases hw : readLines [w] with
          | error f =>
              refine not_readable_of_worth? ?_
              simp [Piece.worth?, hlevel, readOperand, hw, Except.map, Except.toOption]
          | ok ms =>
              have hentry : (Piece.operand w).worth? level =
                  some ⟨.operand .lines, .words, .lines ms⟩ := by
                simp [Piece.worth?, hlevel, readOperand, hw, Except.map, Except.toOption]
              refine ⟨⟨hholds.atLevel, rfl, ?_, ?_, ?_⟩, rfl⟩
              · rw [settings_concat hentry]
                exact hholds.given.add_lines
              · refine Readable.concat_iff.mpr
                  ⟨hholds.readable, by rw [hentry]; rfl, fun _ hs => (by cases hs), ?_⟩
                intro w' o' _ ho' hm'
                cases hlevel.symm.trans ho'
                cases hm'
              · intro o' ho' hm'
                cases hlevel.symm.trans ho'
                cases hm'

/-- The first word of an operand; an operand of one word then has it. -/
theorem Holds.open {o : Operand} {filled : Bool} (h : s.Holds level ps)
    (ho : level.operand? = some o) (hempty : o.isMany = false → operands ps = [])
    (hfilled : o.isMany = false → filled = true) (w : List UInt8) :
    Took { s with pending := .operand o [w], filled := filled } level (ps ++ [.operand w]) := by
  have hfills : ∀ u : Scan, u.filled = filled → u.Fills level (ps ++ [.operand w]) := by
    intro u hu o' ho' hm
    cases ho.symm.trans ho'
    rw [hu, hfilled hm]
    simp [operands, Piece.word?]
  refine ⟨h.atLevel, rfl, fun o' raws ho' => ?_, ?_, hfills _ rfl⟩
  · cases ho'
    exact ho
  · have hvalue : (Piece.operand w).worth? level =
        (readOperand o [w]).toOption.map (Entry.mk (.operand o) .words) := by
      simp [Piece.worth?, ho]
    simp only [settle]
    cases hread : readOperand o [w] with
    | error f =>
        rw [hread] at hvalue
        exact not_readable_of_worth? hvalue
    | ok v =>
        have hentry : (Piece.operand w).worth? level = some ⟨.operand o, .words, v⟩ := by
          rw [hvalue, hread]
          rfl
        refine ⟨⟨h.atLevel, rfl, ?_, ?_, hfills _ rfl⟩, rfl⟩
        · rw [settings_concat hentry]
          exact h.given.add _
        · refine Readable.concat_iff.mpr
            ⟨h.readable, by rw [hentry]; rfl, fun _ hs => (by cases hs), ?_⟩
          intro _ o' _ ho' hm
          cases ho.symm.trans ho'
          exact hempty hm

/-- A word that is neither a switch nor the value of one is a word of the operand. -/
theorem plain_yields (h : s.Took level ps) (w : List UInt8) :
    Yields (fun t => t.Took level (ps ++ [.operand w]) ∧ t.ended = s.ended)
      (¬ Readable level (ps ++ [.operand w])) (s.plain w) := by
  obtain rfl := h.atLevel
  unfold plain
  cases ho : s.level.operand? with
  | none => exact not_readable_of_worth? (by simp [Piece.worth?, ho])
  | some o =>
      dsimp only
      cases hm : o.isMany with
      | true =>
          have hfirst : Yields (fun t => t.Took s.level (ps ++ [.operand w]) ∧ t.ended = s.ended)
              (¬ Readable s.level (ps ++ [.operand w]))
              (do let s ← s.settle; return { s with pending := .operand o [w] }) := by
            refine h.settle.bind (fun t ht => ?_) fun hq hr => hq hr.of_append
            exact ⟨ht.1.open ho (by simp [hm]) (by simp [hm]) w, ht.2⟩
          cases hp : s.pending with
          | operand o' raws =>
              have hsame : o' = o := Option.some.inj ((h.operand o' raws hp).symm.trans ho)
              subst hsame
              have hsettle := settle_append (w := w) h hp hm
              refine ⟨⟨h.atLevel, rfl, fun _ _ ho' => ?_, ?_, ?_⟩, rfl⟩
              · cases ho'
                exact ho
              · exact hsettle
              · intro o'' ho'' hm''
                cases ho.symm.trans ho''
                exact absurd hm (by simp [hm''])
          | _ => exact hfirst
      | false =>
          cases hfilled : s.filled with
          | true =>
              intro hr
              have hempty := (Readable.concat_iff.mp hr).2.2.2 w o rfl ho hm
              exact (h.filled o ho hm).mp hfilled hempty
          | false =>
              have hempty : operands ps = [] := by
                by_contra hne
                have := (h.filled o ho hm).mpr hne
                rw [hfilled] at this
                cases this
              refine h.settle.bind (fun t ht => ?_) fun hq hr => hq hr.of_append
              exact ⟨ht.1.open ho (fun _ => hempty) (fun _ => rfl) w, ht.2⟩

end Words

section Reading

/-- The scan `s`, which took some pieces, becomes one that follows those that are spelled behind
them; if it is refused, these cannot be read. -/
def Advances (s : Scan) (level : Level) (ps : List Piece)
    (spelled : Option (List Piece × Option Switch)) : Except UsageError Scan → Prop :=
  Yields (fun t => ∃ r, spelled = some r ∧ t.Follows level (ps ++ r.1) r.2 ∧ t.ended = s.ended)
    (∀ r, spelled = some r → ¬ Readable level (ps ++ r.1))

theorem flag_advances (h : s.Took level ps) (sw : Switch) (long : Bool) :
    s.Advances level ps (some ([.flag sw], none)) (s.flag sw long) := by
  refine (flag_yields h sw long).mono (fun t ht => ⟨_, rfl, ht.1.took, ht.2⟩) ?_
  rintro hq r ⟨⟩
  exact hq

theorem attach_advances (h : s.Took level ps) (sw : Switch) (raw : List UInt8) :
    s.Advances level ps (some ([.valued sw raw], none)) (s.attach sw raw) := by
  refine (attach_yields h sw raw).mono (fun t ht => ⟨_, rfl, ht.1.took, ht.2⟩) ?_
  rintro hq r ⟨⟩
  exact hq

theorem await_advances (h : s.Took level ps) (sw : Switch) :
    s.Advances level ps (some ([], some sw)) (s.await sw) := by
  refine (await_yields h sw).mono (fun t ht => ⟨_, rfl, ?_, ht.2⟩) ?_
  · rw [List.append_nil]
    exact ht.1
  · rintro hq r ⟨⟩ hr
    exact hq hr.of_append

/-- A long name, with its value if one is attached. -/
theorem long_advances (h : s.Took level ps) (name : List UInt8) (value : Option (List UInt8))
    (later : List (List UInt8)) :
    s.Advances level ps (spellLong level name value) (s.long name value later) := by
  unfold long spellLong
  rw [h.atLevel]
  cases (Text.Utf8.decode? name).bind level.ofLong? with
  | none => exact fun _ hr => by cases hr
  | some sw =>
      dsimp only
      cases sw.takesValue <;> cases value with
      | none => first | exact flag_advances h sw true | exact await_advances h sw
      | some raw => first | exact attach_advances h sw raw | exact fun _ hr => by cases hr

/-- Letters are read one by one, up to one that takes a value. -/
theorem letters_advances (h : s.Took level ps) (bytes : List UInt8) :
    s.Advances level ps (spellLetters level bytes) (s.letters bytes) := by
  induction bytes generalizing s ps with
  | nil => exact ⟨_, rfl, by rw [List.append_nil]; exact h, rfl⟩
  | cons b bs ih =>
      unfold letters spellLetters
      rw [h.atLevel]
      cases level.ofLetter? (Char.ofNat b.toNat) with
      | none => exact fun _ hr => by cases hr
      | some sw =>
          dsimp only
          cases sw.takesValue with
          | true =>
              cases bs with
              | nil => exact await_advances h sw
              | cons c cs => exact attach_advances h sw _
          | false =>
              refine (flag_yields h sw false).bind (fun t ht => ?_) ?_
              · refine (ih ht.1.took).mono ?_ ?_
                · rintro u ⟨r, hr, hu, hended⟩
                  refine ⟨(.flag sw :: r.1, r.2), by simp [hr], ?_, hended.trans ht.2⟩
                  simpa using hu
                · rintro hq r hr
                  obtain ⟨r', hr', rfl⟩ := Option.map_eq_some_iff.mp hr
                  simpa using hq r' hr'
              · rintro hq r hr hread
                obtain ⟨r', -, rfl⟩ := Option.map_eq_some_iff.mp hr
                have hsplit : Readable level ((ps ++ [.flag sw]) ++ r'.1) := by simpa using hread
                exact hq hsplit.of_append

/-- While a switch waits, a word that begins like a switch is refused. -/
theorem long_of_isWaiting (h : s.isWaiting = true) (name : List UInt8)
    (value : Option (List UInt8)) (later : List (List UInt8)) :
    ∃ e, s.long name value later = .error e := by
  obtain ⟨e, he⟩ := settle_of_isWaiting h
  unfold long
  cases (Text.Utf8.decode? name).bind s.level.ofLong? with
  | none => exact ⟨_, rfl⟩
  | some sw =>
      dsimp only
      cases sw.takesValue <;> cases value <;>
        first
        | exact ⟨e, by simp only [flag, await, attach, he]; rfl⟩
        | exact ⟨_, rfl⟩

theorem letters_of_isWaiting (h : s.isWaiting = true) (b : UInt8) (bs : List UInt8) :
    ∃ e, s.letters (b :: bs) = .error e := by
  obtain ⟨e, he⟩ := settle_of_isWaiting h
  unfold letters
  cases s.level.ofLetter? (Char.ofNat b.toNat) with
  | none => exact ⟨_, rfl⟩
  | some sw =>
      refine ⟨e, ?_⟩
      simp only [flag, await, attach, he]
      cases sw.takesValue <;> cases bs.isEmpty <;> rfl

theorem plain_of_isWaiting (h : s.isWaiting = true) (w : List UInt8) :
    ∃ e, s.plain w = .error e := by
  obtain ⟨e, he⟩ := settle_of_isWaiting h
  unfold plain
  cases s.level.operand? with
  | none => exact ⟨_, rfl⟩
  | some o =>
      dsimp only
      cases o.isMany with
      | true =>
          cases hp : s.pending with
          | operand _ _ => simp [isWaiting, hp] at h
          | _ => exact ⟨e, by simp only [he]; rfl⟩
      | false =>
          cases s.filled with
          | true => exact ⟨_, rfl⟩
          | false => exact ⟨e, by simp only [he]; rfl⟩

/-- Behind a lone double hyphen all words are operands. -/
theorem words_of_ended (h : s.Took level ps) (hended : s.ended = true) :
    Yields (fun r => r.1.Took level (ps ++ ws.map .operand) ∧ r.2 = none)
      (¬ Readable level (ps ++ ws.map .operand)) (s.words ws) := by
  induction ws generalizing s ps with
  | nil => exact ⟨by rw [List.map_nil, List.append_nil]; exact h, rfl⟩
  | cons w ws ih =>
      rw [words, if_pos (by rw [hended]; rfl), word, if_pos hended, List.map_cons,
        List.append_cons]
      refine (plain_yields h w).bind (fun t ht => ?_) fun hq hr => hq hr.of_append
      exact ih ht.1 (ht.2.trans hended)

/-- A switch that waits when the switches have ended never gets its value. -/
theorem words_of_ended_of_isWaiting (h : s.isWaiting = true) (hended : s.ended = true) :
    Yields (fun r => r.1.isWaiting = true ∧ r.2 = none) True (s.words ws) := by
  cases ws with
  | nil => exact ⟨h, rfl⟩
  | cons w ws =>
      obtain ⟨e, he⟩ := plain_of_isWaiting h w
      rw [words, if_pos (by rw [hended]; rfl), word, if_pos hended, he]
      trivial

/-- What comes of reading words behind those of some pieces.  If they spell nothing, then a switch
waits at their end. -/
def Came (level : Level) (ps : List Piece) (spelled : Option Spelling)
    (r : Scan × Option (Level × List (List UInt8))) : Prop :=
  match spelled with
  | some sp => r.1.Took level (ps ++ sp.pieces) ∧ r.2 = sp.next
  | none => r.1.isWaiting = true ∧ r.2 = none

/-- Words that are read behind those that spelled `ps`. -/
def Reaches (level : Level) (ps : List Piece) (spelled : Option Spelling) :
    Except UsageError (Scan × Option (Level × List (List UInt8))) → Prop :=
  Yields (Came level ps spelled) (∀ sp, spelled = some sp → ¬ Readable level (ps ++ sp.pieces))

/-- One word, and then the others. -/
theorem Advances.words {spelled : Option (List Piece × Option Switch)}
    {x : Except UsageError Scan} (h : s.Advances level ps spelled x) (hended : s.ended = false)
    (hrest : ∀ t qs waiting, Follows t level qs waiting → t.ended = false →
      Reaches level qs (spell level waiting ws) (t.words ws)) :
    Reaches level ps (spelled.bind fun r => (spell level r.2 ws).map (·.behind r.1))
      (x >>= fun t => t.words ws) := by
  refine Yields.bind h ?_ ?_
  · rintro t ⟨r, rfl, ht, hsame⟩
    refine (hrest t _ _ ht (hsame.trans hended)).mono (fun u hu => ?_) ?_
    · rw [Option.bind_some]
      cases hspell : spell level r.2 ws with
      | none =>
          rw [hspell] at hu
          exact hu
      | some sp =>
          rw [hspell] at hu
          refine ⟨?_, hu.2⟩
          rw [Spelling.pieces_behind, ← List.append_assoc]
          exact hu.1
    · rintro hq sp hsp
      obtain ⟨sp', hsp', rfl⟩ := Option.map_eq_some_iff.mp hsp
      rw [Spelling.pieces_behind, ← List.append_assoc]
      exact hq sp' hsp'
  · rintro hq sp hsp hr
    obtain ⟨r, hr', hsp⟩ := Option.bind_eq_some_iff.mp hsp
    obtain ⟨sp', -, rfl⟩ := Option.map_eq_some_iff.mp hsp
    rw [Spelling.pieces_behind, ← List.append_assoc] at hr
    exact hq r hr' hr.of_append

/-- That the switches have ended changes nothing of what is pending. -/
theorem settle_end (s : Scan) :
    { s with ended := true }.settle = s.settle.map fun t => { t with ended := true } := by
  cases hp : s.pending with
  | nothing => simp [settle, hp, Except.map]
  | waiting sw => simp [settle, hp, fail, fault, Except.map]
  | valued sw raw =>
      simp only [settle, hp, give, fail, fault]
      split
      · rfl
      · cases readSwitch sw raw <;> rfl
  | operand o raws =>
      simp only [settle, hp]
      cases readOperand o raws <;> rfl

theorem Took.end (h : s.Took level ps) : Took { s with ended := true } level ps := by
  refine ⟨h.atLevel, h.calm, h.operand, ?_, h.filled⟩
  have hsettle := h.settle
  rw [settle_end]
  cases hs : s.settle with
  | error e =>
      rw [hs] at hsettle
      exact hsettle
  | ok t =>
      rw [hs] at hsettle
      obtain ⟨ht, -⟩ := hsettle
      exact ⟨⟨ht.atLevel, ht.pending, ht.given, ht.readable, ht.filled⟩, rfl⟩

theorem ofBytes_ne_letters_nil (w : List UInt8) : Word.ofBytes w ≠ .letters [] := by
  intro h
  unfold Word.ofBytes at h
  split at h
  · cases h
  · cases h
  · split at h
    · cases h
    · split at h
      · cases h
      · split at h <;> cases h

/-- While a switch waits, the next word is its value if it is plain. -/
theorem words_of_awaits (h : s.Awaits level ps sw) (hended : s.ended = false)
    (hrest : ∀ t qs waiting, Follows t level qs waiting → t.ended = false →
      Reaches level qs (spell level waiting ws) (t.words ws)) (w : List UInt8) :
    Reaches level ps (spell level (some sw) (w :: ws)) (s.words (w :: ws)) := by
  have hwaiting : s.isWaiting = true := by rw [isWaiting, h.pending]
  rw [words, if_pos (by simp [hwaiting]), word, if_neg (by simp [hended]), spell]
  cases hw : Word.ofBytes w with
  | terminator =>
      refine (words_of_ended_of_isWaiting (s := { s with ended := true }) hwaiting rfl).mono
        (fun r hr => hr) fun _ sp hsp => ?_
      cases hsp
  | long name value =>
      obtain ⟨e, he⟩ := long_of_isWaiting hwaiting name value ws
      simp only [he]
      exact fun _ hsp => by cases hsp
  | letters bytes =>
      cases bytes with
      | nil => exact absurd hw (ofBytes_ne_letters_nil w)
      | cons b bs =>
          obtain ⟨e, he⟩ := letters_of_isWaiting hwaiting b bs
          simp only [he]
          exact fun _ hsp => by cases hsp
  | plain =>
      have htake : s.Advances level ps (some ([.valued sw w], none))
          (.ok { s with pending := .valued sw w }) := ⟨_, rfl, h.take w, rfl⟩
      simp only [h.pending, if_true]
      exact htake.words hended hrest

/-- While no switch waits, the next word may lead to another level, end the switches, name some
of them, or be an operand. -/
theorem words_of_took (h : s.Took level ps) (hended : s.ended = false)
    (hrest : ∀ t qs waiting, Follows t level qs waiting → t.ended = false →
      Reaches level qs (spell level waiting ws) (t.words ws)) (w : List UInt8) :
    Reaches level ps (spell level none (w :: ws)) (s.words (w :: ws)) := by
  rw [words, if_neg (by simp [hended, h.calm]), h.atLevel, spell]
  cases inner? level w with
  | some inner => exact ⟨by rw [List.append_nil]; exact h, rfl⟩
  | none =>
      simp only [word, hended]
      cases hw : Word.ofBytes w with
      | terminator =>
          refine (words_of_ended h.end rfl).mono (fun r hr => hr) fun hq sp hsp => ?_
          cases hsp
          exact hq
      | long name value => exact (long_advances h name value ws).words hended hrest
      | letters bytes => exact (letters_advances h bytes).words hended hrest
      | plain =>
          have hplain : s.Advances level ps (some ([.operand w], none)) (s.plain w) := by
            refine (plain_yields h w).mono (fun t ht => ⟨_, rfl, ht.1, ht.2⟩) ?_
            rintro hq r ⟨⟩
            exact hq
          have hcalm := h.calm
          cases hp : s.pending with
          | waiting sw => simp [isWaiting, hp] at hcalm
          | _ => exact hplain.words hended hrest

/-- Words are read exactly as far as the pieces that they spell can be read. -/
theorem words_reaches (h : s.Follows level ps waiting) (hended : s.ended = false)
    (ws : List (List UInt8)) : Reaches level ps (spell level waiting ws) (s.words ws) := by
  induction ws generalizing s ps waiting with
  | nil =>
      cases waiting with
      | none => exact ⟨by rw [List.append_nil]; exact h, rfl⟩
      | some sw => exact ⟨h.isWaiting_eq, rfl⟩
  | cons w ws ih =>
      cases waiting with
      | some sw => exact words_of_awaits h hended (fun _ _ _ ht hgoing => ih ht hgoing) w
      | none => exact words_of_took h hended (fun _ _ _ ht hgoing => ih ht hgoing) w

end Reading

end Scan
end CommandLine
end LineKeeper
