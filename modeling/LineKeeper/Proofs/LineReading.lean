import LineKeeper.CommandLine.Options
import LineKeeper.Proofs.LevelReading

/-!
# Reading a whole command line

The words of a command line spell pieces at two levels, with the name of a command between them:
its wording.  Each level is closed by itself.  What it lacks may be given by variables, also by
one whose switch stands at the other level, and rotating the log needs its file at the same level.
Then the levels are merged.

**Results.**
* `Scan.fill_yields`: what variables give.
* `Scan.close_yields`: a level is closed exactly if its pieces are complete.
* `merged_of_closed`: a word counts more than a variable, and the inner level more than the
  outer one.
* `Options.ofWords_eq_ok_iff`: which command lines are accepted, and what they say.
-/

namespace LineKeeper
namespace CommandLine

/-- What the words of a command line spell: the pieces at the outer level, the command, and the
pieces at its level. -/
structure Wording where
  outer : List Piece
  verb : Verb
  inner : List Piece
deriving DecidableEq

/-- The wording of a command line. -/
def wording? (ws : List (List UInt8)) : Option Wording :=
  (spell .outer none ws).bind fun outer =>
    match outer.next with
    | some (.command v, rest) =>
        (spell (.command v) none rest).map fun inner => ⟨outer.pieces, v, inner.pieces⟩
    | _ => none

/-- What a variable has for a switch. -/
def fallback? (env : Environment) (s : Switch) : Option (List UInt8) :=
  s.variableName?.bind env.get?

/-- What a variable is worth if its switch is one of some and was not given. -/
def fallbackWorth? (env : Environment) (sws : List Switch) : Item → Option Entry
  | .switch s =>
      if s ∈ sws then
        (fallback? env s).bind fun raw =>
          (readSwitch s raw).toOption.map (Entry.mk (.switch s) .environment)
      else none
  | .operand _ => none

section Complete

/-- If the log is rotated, its file is given as well, at the same level or by the variable. -/
def RotatesFile (env : Environment) (ps : List Piece) : Prop :=
  Switch.logRotate ∈ switches ps →
    Switch.logFile ∈ switches ps ∨ (fallback? env .logFile).isSome = true

/-- The pieces say all that has to be said at a level. -/
structure Complete (env : Environment) (level : Level) (ps : List Piece) : Prop where
  readable : Readable level ps
  fallbacks : ∀ s ∈ level.switches, s ∉ switches ps → ∀ raw, fallback? env s = some raw →
    ∃ value, readSwitch s raw = .ok value
  rotates : RotatesFile env ps
  operand : level.operand?.isSome = true → operands ps ≠ []

/-- Both levels are complete. -/
structure Wording.Accepted (w : Wording) (env : Environment) : Prop where
  outer : Complete env .outer w.outer
  inner : Complete env (.command w.verb) w.inner

end Complete

section Values

/-- The value that the words give a switch. -/
def Wording.given? (w : Wording) (s : Switch) : Option Value :=
  ((Settings.entry? (settings (.command w.verb) w.inner) (.switch s)).or
    (Settings.entry? (settings .outer w.outer) (.switch s))).map Entry.value

/-- The value of a switch: the one that the words give, else the one that a variable gives. -/
def Wording.value? (w : Wording) (env : Environment) (s : Switch) : Option Value :=
  (w.given? s).or ((fallback? env s).bind fun raw => (readSwitch s raw).toOption)

/-- The options with some values, or the defaults. -/
def Options.ofValues (value? : Switch → Option Value) (command : Command) : Options where
  chip := text? (value? .chip)
  consumer := text? (value? .consumer)
  byName := (value? .byName).isSome
  strict := (value? .strict).isSome
  activeLow := (value? .activeLow).isSome
  json := (value? .json).isSome
  idleTimeout := secondsOr defaultIdleTimeout (value? .idleTimeout)
  logFile := path? (value? .logFile)
  logRotate := (value? .logRotate).isSome
  socketName := text? (value? .socketName)
  command := command

/-- What a wording says. -/
def Wording.options? (w : Wording) (env : Environment) : Option Options :=
  (Options.command? w.verb (settings (.command w.verb) w.inner)).map
    (Options.ofValues (w.value? env))

theorem Options.merge_eq (outer inner : Settings) (command : Command) :
    merge outer inner command = ofValues (Settings.merged outer inner) command := rfl

/-- Only the switches that are known at every level matter for the options. -/
theorem Options.ofValues_congr {f g : Switch → Option Value} (h : ∀ s ∈ Level.globals, f s = g s)
    (command : Command) : ofValues f command = ofValues g command := by
  have hs : ∀ s, s ∈ Level.globals → f s = g s := h
  simp only [ofValues, hs _ (by decide : Switch.chip ∈ Level.globals),
    hs _ (by decide : Switch.consumer ∈ Level.globals),
    hs _ (by decide : Switch.byName ∈ Level.globals),
    hs _ (by decide : Switch.strict ∈ Level.globals),
    hs _ (by decide : Switch.activeLow ∈ Level.globals),
    hs _ (by decide : Switch.json ∈ Level.globals),
    hs _ (by decide : Switch.idleTimeout ∈ Level.globals),
    hs _ (by decide : Switch.logFile ∈ Level.globals),
    hs _ (by decide : Switch.logRotate ∈ Level.globals),
    hs _ (by decide : Switch.socketName ∈ Level.globals)]

end Values

section Worth

variable {env : Environment} {level : Level} {ps : List Piece} {e : Entry} {s : Switch}
  {o : Operand} {raw : List UInt8} {value : Value}

theorem source_of_entry? {i : Item} (h : Settings.entry? (settings level ps) i = some e) :
    e.source = .words := by
  obtain ⟨p, -, hp, -⟩ := exists_of_entry? h
  cases Piece.isWorth_of_worth? hp <;> rfl

/-- An operand was given exactly if it has a word. -/
theorem Readable.has_operand_iff (h : Readable level ps) (ho : level.operand? = some o) :
    (settings level ps).has (.operand o) = true ↔ operands ps ≠ [] := by
  rw [← List.length_pos_iff, List.length_pos_iff_exists_mem]
  simp only [Settings.has, Settings.entry?, settings, List.find?_isSome, List.mem_filterMap,
    decide_eq_true_eq, operands]
  constructor
  · rintro ⟨e, ⟨p, hp, he⟩, hitem⟩
    cases Piece.isWorth_of_worth? he with
    | flag s => cases hitem
    | valued => cases hitem
    | @operand w => exact ⟨w, .operand w, hp, rfl⟩
  · rintro ⟨w, p, hp, hw⟩
    obtain ⟨e, he⟩ := Option.isSome_iff_exists.mp (h.entries p hp)
    refine ⟨e, ⟨p, hp, he⟩, ?_⟩
    cases Piece.isWorth_of_worth? he with
    | flag s => cases hw
    | valued => cases hw
    | operand ho' => rw [Option.some.inj (ho'.symm.trans ho)]

theorem source_of_fallbackWorth? {sws : List Switch} {i : Item}
    (h : fallbackWorth? env sws i = some e) : e.source = .environment := by
  cases i with
  | operand o => cases h
  | switch s =>
      simp only [fallbackWorth?] at h
      split at h
      · obtain ⟨_, -, h⟩ := Option.bind_eq_some_iff.mp h
        obtain ⟨_, -, rfl⟩ := Option.map_eq_some_iff.mp h
        rfl
      · cases h

theorem value_fallbackWorth? {sws : List Switch} (h : s ∈ sws) :
    (fallbackWorth? env sws (.switch s)).map Entry.value =
      (fallback? env s).bind fun raw => (readSwitch s raw).toOption := by
  rw [fallbackWorth?, if_pos h]
  cases fallback? env s with
  | none => rfl
  | some raw => simp [Function.comp_def]

/-- The value of a switch is no list of lines. -/
theorem lines_of_readSwitch {src : Source} (h : readSwitch s raw = .ok value) :
    Settings.lines ⟨[⟨.switch s, src, value⟩]⟩ = [] := by
  have htext : ∀ t : Except Fault String, t.map Value.text = .ok value →
      Settings.lines ⟨[⟨.switch s, src, value⟩]⟩ = [] := by
    intro t ht
    cases t with
    | error f => cases ht
    | ok text => cases ht; rfl
  cases s with
  | logFile =>
      simp only [readSwitch] at h
      split at h <;> cases h
      rfl
  | idleTimeout =>
      simp only [readSwitch] at h
      cases ht : textOf raw with
      | error f => rw [ht] at h; cases h
      | ok text =>
          simp only [ht, bind, Except.bind] at h
          split at h <;> cases h
          rfl
  | _ => exact htext _ h

end Worth

namespace Scan

variable {s t : Scan} {env : Environment} {level : Level} {ps : List Piece} {sw : Switch}
  {sws : List Switch}

section Filling

/-- What was not given in words was given by variables, as far as they are set. -/
structure Filled (s : Scan) (env : Environment) (sws : List Switch) (t : Scan) : Prop where
  atLevel : t.level = s.level
  read : ∀ sw ∈ sws, s.given.has (.switch sw) = false → ∀ raw, fallback? env sw = some raw →
    ∃ value, readSwitch sw raw = .ok value
  entry : ∀ i, t.given.entry? i = (s.given.entry? i).or (fallbackWorth? env sws i)
  lines : t.given.lines = s.given.lines

theorem fallbackWorth?_cons_of_ne {i : Item} (h : i ≠ .switch sw) :
    fallbackWorth? env (sw :: sws) i = fallbackWorth? env sws i := by
  cases i with
  | operand o => rfl
  | switch sw' =>
      have hne : sw' ≠ sw := fun heq => h (heq ▸ rfl)
      simp [fallbackWorth?, hne]

/-- A switch that was given needs no variable, and one without a variable gets nothing. -/
theorem Filled.cons (h : s.Filled env sws t)
    (hskip : s.given.has (.switch sw) = true ∨ fallback? env sw = none) :
    s.Filled env (sw :: sws) t := by
  refine ⟨h.atLevel, fun sw' hmem hhas raw hraw => ?_, fun i => ?_, h.lines⟩
  · rcases List.mem_cons.mp hmem with rfl | hmem
    · rcases hskip with hgiven | hnone
      · rw [hgiven] at hhas
        cases hhas
      · rw [hnone] at hraw
        cases hraw
    · exact h.read sw' hmem hhas raw hraw
  · rw [h.entry i]
    by_cases hi : i = .switch sw
    · subst hi
      rcases hskip with hgiven | hnone
      · obtain ⟨e, he⟩ := Option.isSome_iff_exists.mp hgiven
        rw [he, Option.some_or, Option.some_or]
      · simp [fallbackWorth?, hnone]
    · rw [fallbackWorth?_cons_of_ne hi]

/-- A variable gives its switch. -/
theorem Filled.cons_add {raw : List UInt8} {value : Value}
    (hhas : s.given.has (.switch sw) = false) (hraw : fallback? env sw = some raw)
    (hvalue : readSwitch sw raw = .ok value)
    (h : Filled { s with given := s.given.add ⟨.switch sw, .environment, value⟩ } env sws t) :
    s.Filled env (sw :: sws) t := by
  refine ⟨h.atLevel, fun sw' hmem hhas' raw' hraw' => ?_, fun i => ?_, ?_⟩
  · by_cases heq : sw' = sw
    · subst heq
      cases hraw.symm.trans hraw'
      exact ⟨value, hvalue⟩
    · refine h.read sw' (List.mem_of_ne_of_mem heq hmem) ?_ raw' hraw'
      rw [Settings.has_add, hhas']
      simp [Ne.symm heq]
  · rw [h.entry i, Settings.entry?_add, Option.or_assoc]
    by_cases hi : i = .switch sw
    · subst hi
      have hnone : s.given.entry? (.switch sw) = none := by
        simpa [Settings.has] using hhas
      simp [hnone, fallbackWorth?, hraw, hvalue, Except.toOption]
    · rw [fallbackWorth?_cons_of_ne hi, if_neg (Ne.symm hi), Option.none_or]
  · rw [h.lines, Settings.lines_add, lines_of_readSwitch hvalue, List.append_nil]

/-- What variables give: they are read unless the words gave the switch. -/
theorem fill_yields (s : Scan) (env : Environment) (sws : List Switch) :
    Yields (s.Filled env sws)
      (∃ sw ∈ sws, s.given.has (.switch sw) = false ∧ ∃ raw, fallback? env sw = some raw ∧
        ∀ value, readSwitch sw raw ≠ .ok value) (s.fill env sws) := by
  induction sws generalizing s with
  | nil =>
      refine ⟨rfl, fun _ hsw => ?_, fun i => ?_, rfl⟩
      · cases hsw
      · cases i <;> simp [fallbackWorth?]
  | cons sw sws ih =>
      have hskip : (s.given.has (.switch sw) = true ∨ fallback? env sw = none) →
          Yields (s.Filled env (sw :: sws)) (∃ sw' ∈ sw :: sws,
            s.given.has (.switch sw') = false ∧ ∃ raw, fallback? env sw' = some raw ∧
              ∀ value, readSwitch sw' raw ≠ .ok value) (s.fill env sws) := by
        intro hskip
        refine (ih s).mono (fun t ht => ht.cons hskip) ?_
        rintro ⟨sw', hmem, hrest⟩
        exact ⟨sw', List.mem_cons_of_mem sw hmem, hrest⟩
      unfold fill
      cases hhas : s.given.has (.switch sw) with
      | true => exact hskip (.inl hhas)
      | false =>
          cases hraw : fallback? env sw with
          | none =>
              have hnone : sw.variableName?.bind env.get? = none := hraw
              simp only [Bool.false_eq_true, if_false, hnone]
              exact hskip (.inr hraw)
          | some raw =>
              have hsome : sw.variableName?.bind env.get? = some raw := hraw
              simp only [Bool.false_eq_true, if_false, hsome]
              cases hvalue : readSwitch sw raw with
              | error f =>
                  refine ⟨sw, List.mem_cons_self, hhas, raw, hraw, fun value hv => ?_⟩
                  cases hvalue.symm.trans hv
              | ok value =>
                  refine (ih _).mono (fun t ht => ht.cons_add hhas hraw hvalue) ?_
                  rintro ⟨sw', hmem, hhas', hrest⟩
                  rw [Settings.has_add, Bool.or_eq_false_iff] at hhas'
                  exact ⟨sw', List.mem_cons_of_mem sw hmem, hhas'.1, hrest⟩

end Filling

section Closing

/-- The level was closed: all is said that has to be, in words or by variables. -/
structure Closed (t : Scan) (env : Environment) (level : Level) (ps : List Piece) : Prop where
  complete : Complete env level ps
  entry : ∀ i, i ≠ .operand .lines →
    t.given.entry? i =
      (Settings.entry? (settings level ps) i).or (fallbackWorth? env level.switches i)
  lines : t.given.lines = (settings level ps).lines

/-- Only rotating a log without a file, or an operand without words, is missing. -/
theorem missing_isEmpty_iff (s : Scan) : s.missing.isEmpty = true ↔
    (s.given.has (.switch .logRotate) = true → s.given.has (.switch .logFile) = true) ∧
      ∀ o, s.level.operand? = some o → s.given.has (.operand o) = true := by
  simp only [missing, required, List.isEmpty_iff, List.filter_eq_nil_iff, Bool.not_eq_true,
    Bool.not_eq_false', List.mem_append]
  constructor
  · intro h
    refine ⟨fun hr => h _ (.inl ?_), fun o ho => h _ (.inr ?_)⟩
    · rw [if_pos hr]
      exact List.mem_singleton_self _
    · simp [ho]
  · rintro ⟨hrotate, hoperand⟩ i (hi | hi)
    · split at hi
      · rename_i hr
        rw [List.mem_singleton.mp hi]
        exact hrotate hr
      · cases hi
    · cases ho : s.level.operand? with
      | none => simp [ho] at hi
      | some o =>
          rw [ho] at hi
          rw [List.mem_singleton.mp hi]
          exact hoperand o ho

section Given

variable (hs : s.Holds level ps) (ht : s.Filled env level.switches t)
include hs ht

theorem Filled.has_logRotate_iff :
    t.given.has (.switch .logRotate) = true ↔ Switch.logRotate ∈ switches ps := by
  have hnone : fallbackWorth? env level.switches (.switch .logRotate) = none := by
    simp [fallbackWorth?, fallback?, Switch.variableName?]
  rw [← hs.readable.has_switch_iff, ← hs.given.given, Settings.has, ht.entry, hnone, Option.or_none,
    Settings.has]

theorem Filled.has_logFile_iff (hl : Switch.logFile ∈ level.switches) :
    t.given.has (.switch .logFile) = true ↔
      Switch.logFile ∈ switches ps ∨ (fallback? env .logFile).isSome = true := by
  rw [← hs.readable.has_switch_iff, ← hs.given.given]
  cases hhas : s.given.has (.switch .logFile) with
  | true =>
      rw [Settings.has] at hhas
      simp [Settings.has, ht.entry, hhas]
  | false =>
      have hnone : s.given.entry? (.switch .logFile) = none := by
        simpa [Settings.has] using hhas
      rw [Settings.has, ht.entry, hnone, Option.none_or]
      cases hraw : fallback? env .logFile with
      | none => simp [fallbackWorth?, hraw]
      | some raw =>
          obtain ⟨value, hvalue⟩ := ht.read _ hl hhas raw hraw
          simp [fallbackWorth?, hl, hraw, hvalue, Except.toOption]

theorem Filled.has_operand_iff {o : Operand} (ho : level.operand? = some o) :
    t.given.has (.operand o) = true ↔ operands ps ≠ [] := by
  rw [← hs.readable.has_operand_iff ho, ← hs.given.given, Settings.has, ht.entry, Settings.has]
  simp [fallbackWorth?]

end Given

/-- A level is closed exactly if its pieces are complete. -/
theorem close_yields (h : s.Took level ps) (env : Environment)
    (hl : Switch.logFile ∈ level.switches) :
    Yields (fun t => t.Closed env level ps) (¬ Complete env level ps) (s.close env) := by
  have hsupply : Yields (fun u => ∃ t, Holds t level ps ∧ t.Filled env level.switches u)
      (¬ Complete env level ps) (s.supply env) := by
    refine h.settle.bind (fun t ht => ?_) fun hq hc => hq hc.readable
    have hfill := fill_yields t env t.level.switches
    rw [ht.1.atLevel] at hfill ⊢
    refine hfill.mono (fun u hu => ⟨t, ht.1, hu⟩) ?_
    rintro ⟨sw, hmem, hhas, raw, hraw, hbad⟩ hc
    have hgiven : sw ∉ switches ps := by
      rw [← hc.readable.has_switch_iff, ← ht.1.given.given, hhas]
      exact Bool.false_ne_true
    obtain ⟨value, hvalue⟩ := hc.fallbacks sw hmem hgiven raw hraw
    exact hbad value hvalue
  refine hsupply.bind ?_ id
  rintro u ⟨t, ht, hu⟩
  have hmissing : u.missing.isEmpty = true ↔
      RotatesFile env ps ∧ (level.operand?.isSome = true → operands ps ≠ []) := by
    rw [missing_isEmpty_iff, Filled.has_logRotate_iff ht hu, Filled.has_logFile_iff ht hu hl,
      hu.atLevel, ht.atLevel]
    refine and_congr_right' ⟨fun hall ho => ?_, fun hall o ho => ?_⟩
    · obtain ⟨o, ho⟩ := Option.isSome_iff_exists.mp ho
      exact (Filled.has_operand_iff ht hu ho).mp (hall o ho)
    · exact (Filled.has_operand_iff ht hu ho).mpr (hall (by rw [ho]; rfl))
  by_cases hempty : u.missing.isEmpty = true
  · rw [if_pos hempty]
    obtain ⟨hrotates, hoperand⟩ := hmissing.mp hempty
    refine ⟨⟨ht.readable, fun sw hmem hgiven raw hraw => ?_, hrotates, hoperand⟩, ?_, ?_⟩
    · refine hu.read sw hmem ?_ raw hraw
      rw [← ht.readable.has_switch_iff, ← ht.given.given] at hgiven
      exact eq_false_of_ne_true hgiven
    · intro i hi
      rw [hu.entry, ht.given.entry i hi]
    · rw [hu.lines, ht.given.lines]
  · rw [if_neg hempty]
    exact fun hc => hempty (hmissing.mpr ⟨hc.rotates, hc.operand⟩)

end Closing

end Scan

section Merging

variable {env : Environment} {v : Verb} {ps : List Piece} {s : Switch} {outer inner t : Scan}
  {w : Wording} {o : Options} {ws : List (List UInt8)}

theorem mem_switches_of_mem_globals (h : s ∈ Level.globals) (v : Verb) :
    s ∈ Level.switches .outer ∧ s ∈ Level.switches (.command v) := by
  revert h
  cases s <;> cases v <;> decide

theorem Scan.Closed.entry_switch {level : Level} (h : t.Closed env level ps) (s : Switch) :
    t.given.entry? (.switch s) = (Settings.entry? (settings level ps) (.switch s)).or
      (fallbackWorth? env level.switches (.switch s)) :=
  h.entry (.switch s) (by simp)

/-- The variables have no part in what a command is to do. -/
theorem command?_of_closed (h : t.Closed env (.command v) ps) :
    Options.command? v t.given = Options.command? v (settings (.command v) ps) := by
  have houtput : t.given.has (.switch .output) =
      (settings (.command v) ps).has (.switch .output) := by
    rw [Settings.has, h.entry_switch]
    simp [fallbackWorth?, fallback?, Switch.variableName?, Settings.has]
  have hrequest : t.given.request? = (settings (.command v) ps).request? := by
    rw [Settings.request?, h.entry (.operand .request) (by decide), fallbackWorth?, Option.or_none,
      Settings.request?]
  cases v <;> simp only [Options.command?, houtput, hrequest, h.lines]

/-- The value of a request to be released is its name. -/
theorem request?_isSome {level : Level}
    (h : (settings level ps).has (.operand .request) = true) :
    (settings level ps).request?.isSome = true := by
  obtain ⟨e, he⟩ := Option.isSome_iff_exists.mp h
  obtain ⟨p, -, hp, hitem⟩ := exists_of_entry? he
  cases Piece.isWorth_of_worth? hp with
  | flag s => cases hitem
  | valued => cases hitem
  | @operand w o value ho hread =>
      cases hitem
      simp only [readOperand] at hread
      cases htext : textOf [w].flatten with
      | error f =>
          rw [htext] at hread
          cases hread
      | ok text =>
          simp only [htext, bind, Except.bind] at hread
          split at hread <;> cases hread
          rw [Settings.request?, he]
          rfl

/-- A command whose level is complete can be carried out. -/
theorem command?_isSome (h : Complete env (.command v) ps) :
    (Options.command? v (settings (.command v) ps)).isSome = true := by
  cases v with
  | release =>
      have hhas := (h.readable.has_operand_iff rfl).mpr (h.operand rfl)
      rw [Options.command?, Option.isSome_map]
      exact request?_isSome hhas
  | _ => rfl

/-- A word counts more than a variable, and the inner level more than the outer one. -/
theorem merged_of_closed (ho : outer.Closed env .outer w.outer)
    (hi : inner.Closed env (.command w.verb) w.inner) (hs : s ∈ Level.globals) :
    Settings.merged outer.given inner.given s = w.value? env s := by
  obtain ⟨hmo, hmi⟩ := mem_switches_of_mem_globals hs w.verb
  have hsame : fallbackWorth? env Level.outer.switches (.switch s) =
      fallbackWorth? env (Level.command w.verb).switches (.switch s) := by
    rw [fallbackWorth?, if_pos hmo, fallbackWorth?, if_pos hmi]
  rw [Settings.merged, ho.entry_switch, hi.entry_switch, Wording.value?, Wording.given?,
    ← value_fallbackWorth? hmi, hsame]
  cases hwi : Settings.entry? (settings (.command w.verb) w.inner) (.switch s) with
  | some i =>
      have hsource := source_of_entry? hwi
      cases (Settings.entry? (settings .outer w.outer) (.switch s)).or _ <;> simp [hsource]
  | none =>
      cases hwo : Settings.entry? (settings .outer w.outer) (.switch s) with
      | some o =>
          have hsource := source_of_entry? hwo
          cases hf : fallbackWorth? env (Level.command w.verb).switches (.switch s) with
          | none => rfl
          | some e => simp [hsource, source_of_fallbackWorth? hf]
      | none =>
          cases hf : fallbackWorth? env (Level.command w.verb).switches (.switch s) with
          | none => rfl
          | some e => simp [source_of_fallbackWorth? hf]

end Merging

section OfWords

variable {env : Environment} {w : Wording} {o : Options} {ws : List (List UInt8)}

/-- The words behind the name of a command. -/
theorem Options.inner_yields (env : Environment) (v : Verb) (rest : List (List UInt8)) :
    Yields (fun t => ∃ inner, spell (.command v) none rest = some inner ∧
        t.Closed env (.command v) inner.pieces)
      (∀ inner, spell (.command v) none rest = some inner →
        ¬ Complete env (.command v) inner.pieces)
      ((Scan.start (.command v)).words rest >>= fun r => r.1.close env) := by
  have hstart : (Scan.start (.command v)).Follows (.command v) [] none :=
    (Scan.holds_start (.command v)).took
  have hwords := Scan.words_reaches hstart rfl rest
  refine hwords.bind ?_ fun hq inner hinner hc => hq inner hinner hc.readable
  intro r hr
  cases hspell : spell (.command v) none rest with
  | none =>
      rw [hspell] at hr
      obtain ⟨e, he⟩ := Scan.settle_of_isWaiting hr.1
      rw [Scan.close, Scan.supply, he]
      exact fun _ hinner => by cases hinner
  | some inner =>
      rw [hspell] at hr
      have hl := (mem_switches_of_mem_globals (by decide : Switch.logFile ∈ Level.globals) v).2
      refine (Scan.close_yields hr.1 env hl).mono (fun t ht => ⟨inner, rfl, ht⟩) ?_
      rintro hq _ ⟨⟩
      exact hq

/-- What is read behind the name of a command: the levels are closed, the inner one first, and
merged. -/
def Options.levels (env : Environment) (outer : Scan) (v : Verb) (rest : List (List UInt8)) :
    Except UsageError Options := do
  let inner ← (Scan.start (.command v)).words rest >>= fun r => r.1.close env
  let outer ← outer.close env
  match command? v inner.given with
  | some command => return merge outer.given inner.given command
  | none => inner.fail (.missing inner.missing)

theorem Options.ofWords_of_command {outer : Scan} {v : Verb} {rest : List (List UInt8)}
    (h : (Scan.start .outer).words ws = .ok (outer, some (.command v, rest))) :
    ofWords env ws = levels env outer v rest := by
  rw [ofWords, h, levels, bind_assoc]
  rfl

theorem Options.ofWords_of_no_command (env : Environment) {outer : Scan}
    {next : Option (Level × List (List UInt8))}
    (h : (Scan.start .outer).words ws = .ok (outer, next))
    (hnext : ∀ v rest, next ≠ some (.command v, rest)) : ∃ e, ofWords env ws = .error e := by
  rw [ofWords, h]
  cases next with
  | none =>
      cases hs : outer.supply env with
      | error e => exact ⟨e, by simp only [bind, Except.bind, hs]⟩
      | ok t => exact ⟨noCommand t, by simp only [bind, Except.bind, hs]; rfl⟩
  | some next =>
      obtain ⟨level, rest⟩ := next
      cases level with
      | command v => exact absurd rfl (hnext v rest)
      | outer => exact ⟨_, rfl⟩
      | help => exact ⟨_, rfl⟩

theorem Options.levels_yields {outer : Scan} {ps : List Piece} (ho : outer.Took .outer ps)
    (env : Environment) (v : Verb) (rest : List (List UInt8)) :
    Yields (fun o => ∃ inner, spell (.command v) none rest = some inner ∧
        Wording.Accepted ⟨ps, v, inner.pieces⟩ env ∧
        Wording.options? ⟨ps, v, inner.pieces⟩ env = some o)
      (∀ inner, spell (.command v) none rest = some inner →
        ¬ Wording.Accepted ⟨ps, v, inner.pieces⟩ env)
      (levels env outer v rest) := by
  refine (inner_yields env v rest).bind ?_ fun hq inner hinner ha => hq inner hinner ha.inner
  rintro i ⟨inner, hinner, hi⟩
  refine (Scan.close_yields ho env (by decide)).bind (fun t ht => ?_) fun hq _ _ ha => hq ha.outer
  obtain ⟨command, hcommand⟩ := Option.isSome_iff_exists.mp (command?_isSome hi.complete)
  rw [command?_of_closed hi, hcommand]
  refine ⟨inner, hinner, ⟨ht.complete, hi.complete⟩, ?_⟩
  rw [Wording.options?, hcommand, Option.map_some, merge_eq]
  refine congrArg some (ofValues_congr (fun s hs => ?_) command)
  exact (merged_of_closed (w := ⟨ps, v, inner.pieces⟩) ht hi hs).symm

theorem wording?_eq_some_iff : wording? ws = some w ↔
    ∃ rest inner, spell .outer none ws = some ⟨w.outer, some (.command w.verb, rest)⟩ ∧
      spell (.command w.verb) none rest = some inner ∧ inner.pieces = w.inner := by
  constructor
  · intro h
    obtain ⟨outer, houter, h⟩ := Option.bind_eq_some_iff.mp h
    split at h
    · rename_i v rest hnext
      obtain ⟨inner, hinner, rfl⟩ := Option.map_eq_some_iff.mp h
      exact ⟨rest, inner, by rw [houter, ← hnext], hinner, rfl⟩
    · cases h
  · rintro ⟨rest, inner, houter, hinner, hpieces⟩
    simp [wording?, houter, hinner, hpieces]

theorem Options.ofWords_yields (env : Environment) (ws : List (List UInt8)) :
    Yields (fun o => ∃ w, wording? ws = some w ∧ w.Accepted env ∧ w.options? env = some o)
      (∀ w, wording? ws = some w → ¬ w.Accepted env) (ofWords env ws) := by
  have hstart : (Scan.start .outer).Follows .outer [] none := (Scan.holds_start .outer).took
  have hwords := Scan.words_reaches hstart rfl ws
  cases hread : (Scan.start .outer).words ws with
  | error e =>
      rw [hread] at hwords
      rw [ofWords, hread]
      intro w hw ha
      obtain ⟨rest, inner, houter, -, -⟩ := wording?_eq_some_iff.mp hw
      exact hwords _ houter ha.outer.readable
  | ok r =>
      rw [hread] at hwords
      obtain ⟨outer, next⟩ := r
      by_cases hcommand : ∃ v rest, next = some (.command v, rest)
      · obtain ⟨v, rest, rfl⟩ := hcommand
        cases hspell : spell .outer none ws with
        | none =>
            rw [hspell] at hwords
            cases hwords.2
        | some sp =>
            rw [hspell] at hwords
            obtain ⟨ho, hnext⟩ := hwords
            obtain ⟨ps, next⟩ := sp
            subst hnext
            rw [ofWords_of_command hread]
            refine (levels_yields ho env v rest).mono ?_ ?_
            · rintro o ⟨inner, hinner, ha, hoptions⟩
              exact ⟨_, wording?_eq_some_iff.mpr ⟨rest, inner, hspell, hinner, rfl⟩, ha, hoptions⟩
            · intro hq w hw ha
              obtain ⟨rest', inner, houter, hinner, hpieces⟩ := wording?_eq_some_iff.mp hw
              cases hspell.symm.trans houter
              refine hq inner hinner ?_
              rw [hpieces]
              exact ha
      · obtain ⟨e, he⟩ := ofWords_of_no_command env hread
          fun v rest hnext => hcommand ⟨v, rest, hnext⟩
        rw [he]
        intro w hw
        obtain ⟨rest, inner, houter, -, -⟩ := wording?_eq_some_iff.mp hw
        rw [houter] at hwords
        exact absurd ⟨w.verb, rest, hwords.2⟩ hcommand

/-- A command line is accepted exactly if both levels of its wording are complete, and then it
says what its wording says. -/
theorem Options.ofWords_eq_ok_iff : ofWords env ws = .ok o ↔
    ∃ w, wording? ws = some w ∧ w.Accepted env ∧ w.options? env = some o := by
  have hyields := ofWords_yields env ws
  cases hread : ofWords env ws with
  | error e =>
      rw [hread] at hyields
      refine ⟨fun h => (by cases h), ?_⟩
      rintro ⟨w, hw, haccepted, -⟩
      exact absurd haccepted (hyields w hw)
  | ok o' =>
      rw [hread] at hyields
      obtain ⟨w, hw, haccepted, hoptions⟩ := hyields
      constructor
      · rintro ⟨⟩
        exact ⟨w, hw, haccepted, hoptions⟩
      · rintro ⟨w', hw', -, hoptions'⟩
        cases hw.symm.trans hw'
        cases hoptions.symm.trans hoptions'
        rfl

end OfWords

end CommandLine
end LineKeeper
