import LineKeeper.Proofs.Shifts
import Mathlib.Data.List.Perm.Basic

/-!
# Where a switch stands on the command line

A switch that is known at every level may stand before the name of the command or after it.
Moving such switches from one level to the other leaves what the command line says, as long as
each of them is given once.  Only rotating the log is bound to a place: it needs the file at its
own level, or from the variable, and so these two cannot be moved apart.

**Results.**
* `Readable.of_parts`: pieces can be read if those that may be moved and the others can.
* `Wording.given?_eq_some_iff`: what the words give a switch, wherever it stands.
* `Wording.Moved.accepted_iff`, `Wording.Moved.options?_eq`: what moving switches changes, and
  what it leaves.
* `Options.movesFreely`: a command line with switches moved is accepted, with the same options,
  exactly if rotating the log still has its file.
-/

namespace LineKeeper
namespace CommandLine

/-- The pieces that can be moved to another level. -/
def movable (ps : List Piece) : List Piece :=
  ps.filter Piece.isGlobal

/-- The pieces that belong to their level. -/
def fixed (ps : List Piece) : List Piece :=
  ps.filter fun p => !p.isGlobal

namespace Wording

/-- The pieces at both levels that can be moved. -/
def globals (w : Wording) : List Piece :=
  movable w.outer ++ movable w.inner

/-- No switch that is known at every level is given twice, at whatever levels. -/
def Once (w : Wording) : Prop :=
  (switches w.globals).Nodup

/-- The wordings differ only in the places of the switches that are known at every level. -/
structure Moved (w w' : Wording) : Prop where
  verb : w'.verb = w.verb
  outer : fixed w'.outer = fixed w.outer
  inner : fixed w'.inner = fixed w.inner
  globals : w'.globals.Perm w.globals

/-- Where the log is rotated, its file is given too, at the same level or by the variable. -/
def RotatesFile (w : Wording) (env : Environment) : Prop :=
  CommandLine.RotatesFile env w.outer ∧ CommandLine.RotatesFile env w.inner

end Wording

section Parts

variable {level level' : Level} {ps : List Piece} {p q : Piece} {s : Switch} {e : Entry}
  {i : Item}

theorem mem_movable : p ∈ movable ps ↔ p ∈ ps ∧ p.isGlobal = true :=
  List.mem_filter

theorem perm_parts (ps : List Piece) : (movable ps ++ fixed ps).Perm ps :=
  List.filter_append_perm _ ps

/-- Pieces that can be moved are worth the same at all levels. -/
theorem worth?_of_isGlobal (h : p.isGlobal = true) (level level' : Level) :
    p.worth? level = p.worth? level' := by
  obtain ⟨s, -, hs⟩ := Piece.isGlobal_iff.mp h
  exact Piece.worth?_of_switch? hs level level'

/-- Whatever is drawn from pieces, those that yield nothing may be left out. -/
theorem filterMap_fixed {α : Type} {f : Piece → Option α}
    (h : ∀ p, p.isGlobal = true → f p = none) (ps : List Piece) :
    (fixed ps).filterMap f = ps.filterMap f := by
  rw [fixed, List.filterMap_filter]
  refine List.filterMap_congr fun p _ => ?_
  cases hp : p.isGlobal with
  | true => simp [h p hp]
  | false => rfl

/-- Only pieces that belong to the level are operands. -/
theorem operands_fixed (ps : List Piece) : operands (fixed ps) = operands ps := by
  refine filterMap_fixed (fun p hp => ?_) ps
  obtain ⟨s, -, hs⟩ := Piece.isGlobal_iff.mp hp
  exact Piece.word?_of_switch? hs

/-- Only pieces that belong to the level give anything but the switches that are known at every
level. -/
theorem entry?_settings_fixed (hi : ∀ s ∈ Level.globals, i ≠ .switch s) (ps : List Piece) :
    Settings.entry? (settings level (fixed ps)) i = Settings.entry? (settings level ps) i := by
  simp only [settings, Settings.entry?, ← List.head?_filter, List.filter_filterMap]
  rw [filterMap_fixed fun p hp => ?_]
  obtain ⟨s, hs, hps⟩ := Piece.isGlobal_iff.mp hp
  cases he : p.worth? level with
  | none => rfl
  | some e =>
      have hitem := (Piece.item_worth?_eq_switch_iff he).mpr hps
      have hne : ¬ Item.switch s = i := fun heq => hi s hs heq.symm
      simp [Option.filter, hitem, hne]

theorem mem_switches_movable (h : s ∈ Level.globals) :
    s ∈ switches (movable ps) ↔ s ∈ switches ps := by
  simp only [mem_switches, mem_movable]
  constructor
  · rintro ⟨p, ⟨hp, -⟩, hs⟩
    exact ⟨p, hp, hs⟩
  · rintro ⟨p, hp, hs⟩
    exact ⟨p, ⟨hp, Piece.isGlobal_iff.mpr ⟨s, h, hs⟩⟩, hs⟩

/-- Pieces can be read if those that may be moved and the others can. -/
theorem Readable.of_parts (hfixed : Readable level (fixed ps))
    (hentries : ∀ p ∈ movable ps, (p.worth? level).isSome = true)
    (honce : (switches (movable ps)).Nodup) : Readable level ps := by
  have hperm := perm_parts ps
  refine ⟨fun p hp => ?_, ?_, ?_⟩
  · rcases List.mem_append.mp (hperm.mem_iff.mpr hp) with hp | hp
    · exact hentries p hp
    · exact hfixed.entries p hp
  · refine (hperm.filterMap Piece.switch?).nodup_iff.mp ?_
    change (switches (movable ps ++ fixed ps)).Nodup
    rw [switches_append]
    refine honce.append hfixed.once fun s hs hs' => ?_
    obtain ⟨p, hp, hps⟩ := mem_switches.mp hs
    obtain ⟨q, hq, hqs⟩ := mem_switches.mp hs'
    obtain ⟨s', hs', hps'⟩ := Piece.isGlobal_iff.mp (mem_movable.mp hp).2
    cases hps.symm.trans hps'
    have hglobal : q.isGlobal = true := Piece.isGlobal_iff.mpr ⟨s, hs', hqs⟩
    have hlocal := (List.mem_filter.mp hq).2
    rw [hglobal] at hlocal
    cases hlocal
  · rw [← operands_fixed]
    exact hfixed.single

theorem Readable.fixed (h : Readable level ps) : Readable level (fixed ps) := by
  refine ⟨fun p hp => h.entries p (List.mem_of_mem_filter hp), ?_, ?_⟩
  · exact h.once.sublist (List.filter_sublist.filterMap _)
  · rw [operands_fixed]
    exact h.single

/-- The switches that are known at every level give no lines. -/
theorem lines_settings_fixed (ps : List Piece) :
    (settings level (fixed ps)).lines = (settings level ps).lines := by
  have hempty : ∀ p : Piece, p.isGlobal = true → ∀ e, p.worth? level = some e →
      Settings.lines ⟨[e]⟩ = [] := by
    intro p hp e he
    cases Piece.isWorth_of_worth? he with
    | flag s => rfl
    | valued hread => exact lines_of_readSwitch hread
    | operand => cases hp
  induction ps with
  | nil => rfl
  | cons p ps ih =>
      have hcons : ∀ qs : List Piece, (settings level (p :: qs)).lines =
          (settings level [p]).lines ++ (settings level qs).lines := by
        intro qs
        cases he : p.worth? level <;> simp [settings, Settings.lines, he]
      cases hp : p.isGlobal with
      | false =>
          have hfixed : fixed (p :: ps) = p :: fixed ps := by simp [fixed, hp]
          rw [hfixed, hcons (fixed ps), hcons ps, ih]
      | true =>
          have hfixed : fixed (p :: ps) = fixed ps := by simp [fixed, hp]
          have hnil : (settings level [p]).lines = [] := by
            cases he : p.worth? level with
            | none => simp [settings, Settings.lines, he]
            | some e => simpa [settings, he] using hempty p hp e he
          rw [hfixed, hcons, hnil, ih, List.nil_append]

/-- What a command is to do is said by pieces that belong to its level. -/
theorem command?_settings_fixed (v : Verb) (ps : List Piece) :
    Options.command? v (settings level (fixed ps)) = Options.command? v (settings level ps) := by
  have houtput : (settings level (fixed ps)).has (.switch .output) =
      (settings level ps).has (.switch .output) := by
    rw [Settings.has, entry?_settings_fixed (by decide), Settings.has]
  have hrequest : (settings level (fixed ps)).request? = (settings level ps).request? := by
    rw [Settings.request?, entry?_settings_fixed (by decide), Settings.request?]
  cases v <;> simp only [Options.command?, houtput, hrequest, lines_settings_fixed]

/-- Of pieces with different switches, each is found by its switch. -/
theorem eq_of_switch? (h : (switches ps).Nodup) (hp : p ∈ ps) (hq : q ∈ ps)
    (hps : p.switch? = some s) (hqs : q.switch? = some s) : p = q := by
  induction ps with
  | nil => cases hp
  | cons r ps ih =>
      have hrest : (switches ps).Nodup := by
        refine h.sublist ?_
        exact (List.sublist_cons_self r ps).filterMap _
      have hfirst : ∀ u ∈ ps, r.switch? = some s → u.switch? ≠ some s := by
        intro u hu hr hus
        have hnodup : (switches (r :: ps)).Nodup := h
        rw [switches, List.filterMap_cons_some hr, List.nodup_cons] at hnodup
        exact hnodup.1 (mem_switches.mpr ⟨u, hu, hus⟩)
      rcases List.mem_cons.mp hp with rfl | hp' <;> rcases List.mem_cons.mp hq with rfl | hq'
      · rfl
      · exact absurd hqs (hfirst q hq' hps)
      · exact absurd hps (hfirst p hp' hqs)
      · exact ih hrest hp' hq'

/-- What pieces say of a switch. -/
theorem entry?_settings_eq_some_iff (h : Readable level ps) :
    Settings.entry? (settings level ps) (.switch s) = some e ↔
      ∃ p ∈ ps, p.switch? = some s ∧ p.worth? level = some e := by
  constructor
  · intro he
    obtain ⟨p, hp, hworth, hitem⟩ := exists_of_entry? he
    exact ⟨p, hp, (Piece.item_worth?_eq_switch_iff hworth).mp hitem, hworth⟩
  · rintro ⟨p, hp, hs, hentry⟩
    have hhas := h.has_switch_iff.mpr (mem_switches.mpr ⟨p, hp, hs⟩)
    obtain ⟨e', he'⟩ := Option.isSome_iff_exists.mp hhas
    obtain ⟨q, hq, hqe, hitem⟩ := exists_of_entry? he'
    have hqs := (Piece.item_worth?_eq_switch_iff hqe).mp hitem
    cases eq_of_switch? h.once hp hq hs hqs
    rw [he', ← hqe, hentry]

end Parts

section Moving

variable {env : Environment} {w w' : Wording} {s : Switch} {value : Value} {p : Piece}

namespace Wording

theorem Once.nodup (once : w.Once) :
    (switches (movable w.outer) ++ switches (movable w.inner)).Nodup := by
  rw [← switches_append]
  exact once

theorem mem_globals : p ∈ w.globals ↔ (p ∈ w.outer ∨ p ∈ w.inner) ∧ p.isGlobal = true := by
  simp only [globals, List.mem_append, mem_movable]
  exact or_and_right.symm

/-- What the words give a switch that is known at every level, wherever it stands. -/
theorem given?_eq_some_iff (ho : Readable .outer w.outer)
    (hi : Readable (.command w.verb) w.inner) (once : w.Once) (hs : s ∈ Level.globals) :
    w.given? s = some value ↔
      ∃ p ∈ w.globals, p.switch? = some s ∧ (p.worth? .outer).map Entry.value = some value := by
  have hglobal : ∀ p : Piece, p.switch? = some s → p.isGlobal = true :=
    fun p hp => Piece.isGlobal_iff.mpr ⟨s, hs, hp⟩
  rw [given?]
  constructor
  · intro h
    obtain ⟨e, he, rfl⟩ := Option.map_eq_some_iff.mp h
    rcases Option.or_eq_some_iff.mp he with he | ⟨-, he⟩
    · obtain ⟨p, hp, hps, hentry⟩ := (entry?_settings_eq_some_iff hi).mp he
      refine ⟨p, mem_globals.mpr ⟨.inr hp, hglobal p hps⟩, hps, ?_⟩
      rw [Piece.worth?_of_switch? hps .outer (.command w.verb), hentry, Option.map_some]
    · obtain ⟨p, hp, hps, hentry⟩ := (entry?_settings_eq_some_iff ho).mp he
      exact ⟨p, mem_globals.mpr ⟨.inl hp, hglobal p hps⟩, hps, by rw [hentry, Option.map_some]⟩
  · rintro ⟨p, hp, hps, hvalue⟩
    obtain ⟨e, hentry, rfl⟩ := Option.map_eq_some_iff.mp hvalue
    cases hinner : Settings.entry? (settings (.command w.verb) w.inner) (.switch s) with
    | some e' =>
        -- the piece at the inner level is the only one with this switch
        obtain ⟨q, hq, hqs, hqe⟩ := (entry?_settings_eq_some_iff hi).mp hinner
        have hqw : q ∈ w.globals := mem_globals.mpr ⟨.inr hq, hglobal q hqs⟩
        cases eq_of_switch? once hp hqw hps hqs
        rw [Piece.worth?_of_switch? hps _ .outer, hentry] at hqe
        cases hqe
        rfl
    | none =>
        have houter : p ∈ w.outer := by
          refine (mem_globals.mp hp).1.resolve_right fun hp => ?_
          have hsome := (entry?_settings_eq_some_iff hi).mpr
            ⟨p, hp, hps, by rw [Piece.worth?_of_switch? hps _ .outer, hentry]⟩
          rw [hinner] at hsome
          cases hsome
        rw [Option.none_or, (entry?_settings_eq_some_iff ho).mpr ⟨p, houter, hps, hentry⟩,
          Option.map_some]

/-- What variables have can be read: a switch is not given at both levels, and so its variable is
read at one of them at least. -/
theorem Accepted.fallback_reads (accepted : w.Accepted env) (once : w.Once) {raw : List UInt8}
    (hraw : fallback? env s = some raw) : ∃ value, readSwitch s raw = .ok value := by
  have hs : s ∈ Level.globals := by
    obtain ⟨name, hname, -⟩ := Option.bind_eq_some_iff.mp hraw
    cases s <;> first | decide | cases hname
  obtain ⟨hmo, hmi⟩ := mem_switches_of_mem_globals hs w.verb
  by_cases houter : s ∈ switches w.outer
  · have hinner : s ∉ switches w.inner := by
      intro hinner
      have hdisjoint := (List.nodup_append.mp once.nodup).2.2
      exact hdisjoint s ((mem_switches_movable hs).mpr houter) s
        ((mem_switches_movable hs).mpr hinner) rfl
    exact accepted.inner.fallbacks s hmi hinner raw hraw
  · exact accepted.outer.fallbacks s hmo houter raw hraw

namespace Moved

variable (moved : w.Moved w') (accepted : w.Accepted env) (once : w.Once)
include moved

theorem entries (accepted : w.Accepted env) (hp : p ∈ w'.globals) (level : Level) :
    (p.worth? level).isSome = true := by
  obtain ⟨hmem, hglobal⟩ := mem_globals.mp (moved.globals.mem_iff.mp hp)
  rcases hmem with hmem | hmem
  · rw [worth?_of_isGlobal hglobal level .outer]
    exact accepted.outer.readable.entries p hmem
  · rw [worth?_of_isGlobal hglobal level (.command w.verb)]
    exact accepted.inner.readable.entries p hmem

theorem once_moved (once : w.Once) : w'.Once :=
  (moved.globals.filterMap Piece.switch?).nodup_iff.mpr once

include accepted once

/-- The pieces can be read where they were moved. -/
theorem readable : Readable .outer w'.outer ∧ Readable (.command w'.verb) w'.inner := by
  have honce := (moved.once_moved once).nodup
  constructor
  · refine .of_parts ?_ (fun p hp => ?_) honce.of_append_left
    · rw [moved.outer]
      exact accepted.outer.readable.fixed
    · exact moved.entries accepted (List.mem_append_left _ hp) _
  · refine .of_parts ?_ (fun p hp => ?_) honce.of_append_right
    · rw [moved.inner, moved.verb]
      exact accepted.inner.readable.fixed
    · exact moved.entries accepted (List.mem_append_right _ hp) _

/-- Nothing but rotating the log depends on the places. -/
theorem accepted_iff : w'.Accepted env ↔ w'.RotatesFile env := by
  obtain ⟨ho, hi⟩ := moved.readable accepted once
  refine ⟨fun h => ⟨h.outer.rotates, h.inner.rotates⟩, fun h => ⟨⟨ho, ?_, h.1, ?_⟩,
    ⟨hi, ?_, h.2, ?_⟩⟩⟩
  · exact fun s _ _ raw hraw => accepted.fallback_reads once hraw
  · exact fun h => by cases h
  · exact fun s _ _ raw hraw => accepted.fallback_reads once hraw
  · rw [moved.verb, ← operands_fixed, moved.inner, operands_fixed]
    exact accepted.inner.operand

/-- The options do not depend on the places. -/
theorem options?_eq : w'.options? env = w.options? env := by
  obtain ⟨ho, hi⟩ := moved.readable accepted once
  have hvalue : ∀ s ∈ Level.globals, w'.value? env s = w.value? env s := by
    intro s hs
    have hgiven : w'.given? s = w.given? s := by
      refine Option.ext fun value => ?_
      rw [given?_eq_some_iff ho hi (moved.once_moved once) hs,
        given?_eq_some_iff accepted.outer.readable accepted.inner.readable once hs]
      simp only [moved.globals.mem_iff]
    rw [value?, hgiven, value?]
  have hcommand : Options.command? w'.verb (settings (.command w'.verb) w'.inner) =
      Options.command? w.verb (settings (.command w.verb) w.inner) := by
    rw [moved.verb, ← command?_settings_fixed, moved.inner, command?_settings_fixed]
  rw [options?, options?, hcommand]
  exact congrArg (Option.map · _) (funext (Options.ofValues_congr hvalue))

end Moved

end Wording

theorem Wording.Moved.symm (moved : w.Moved w') : w'.Moved w :=
  ⟨moved.verb.symm, moved.outer.symm, moved.inner.symm, moved.globals.symm⟩

/-- Pieces that are taken out at the outer level and put in front at the inner one are moved. -/
theorem moved_behind {ps qs rs is : List Piece} (v : Verb)
    (hglobal : ∀ p ∈ qs, p.isGlobal = true) :
    Wording.Moved ⟨ps ++ (qs ++ rs), v, is⟩ ⟨ps ++ rs, v, qs ++ is⟩ := by
  have hfixed : fixed qs = [] := List.filter_eq_nil_iff.mpr fun p hp => by simp [hglobal p hp]
  have happend : ∀ us vs, fixed (us ++ vs) = fixed us ++ fixed vs := fun us vs =>
    List.filter_append us vs
  have hmovable : ∀ us vs, movable (us ++ vs) = movable us ++ movable vs := fun us vs =>
    List.filter_append us vs
  refine ⟨rfl, ?_, ?_, ?_⟩
  · rw [happend, happend, happend, hfixed, List.nil_append]
  · rw [happend, hfixed, List.nil_append]
  · simp only [Wording.globals, hmovable, List.append_assoc]
    refine List.Perm.append_left _ ?_
    rw [← List.append_assoc, ← List.append_assoc]
    exact List.perm_append_comm.append_right _

/-- Shifting words moves pieces, whether forth or back. -/
theorem moved_of_shifted {ws ws' : List (List UInt8)} (h : Shifted ws ws' ∨ Shifted ws' ws)
    (hw : wording? ws = some w) : ∃ w', wording? ws' = some w' ∧ w.Moved w' := by
  rcases h with ⟨hb, ho, hglobal, ha, hname⟩ | ⟨hb, ho, hglobal, ha, hname⟩
  · rw [wording?_before hb ho ha hname] at hw
    rw [wording?_behind hb ho hglobal ha hname]
    obtain ⟨inner, hinner, rfl⟩ := Option.map_eq_some_iff.mp hw
    exact ⟨_, by rw [hinner, Option.map_some], moved_behind _ hglobal⟩
  · rw [wording?_behind hb ho hglobal ha hname] at hw
    rw [wording?_before hb ho ha hname]
    obtain ⟨inner, hinner, rfl⟩ := Option.map_eq_some_iff.mp hw
    exact ⟨_, by rw [hinner, Option.map_some], (moved_behind _ hglobal).symm⟩

end Moving

section Free

variable {env : Environment} {ws : List (List UInt8)} {o : Options}

/-- The switches of a command line that are known at every level can stand at either. Its options
have the values of the words, else of the variables, else the defaults; shifting words moves
switches; and wherever these are moved, if none is given twice, the command line is accepted with
the same options, provided that rotating the log still has its file. -/
structure MovesFreely (env : Environment) (ws : List (List UInt8)) (w : Wording) (o : Options) :
    Prop where
  wording : wording? ws = some w
  options : w.options? env = some o
  shifts : ∀ ws', Shifted ws ws' ∨ Shifted ws' ws → ∃ w', wording? ws' = some w' ∧ w.Moved w'
  moves : w.Once → ∀ ws' w', wording? ws' = some w' → w.Moved w' →
    ∀ o', Options.ofWords env ws' = .ok o' ↔ o' = o ∧ w'.RotatesFile env

/-- In every command line that is accepted the switches move freely. -/
theorem Options.movesFreely (h : ofWords env ws = .ok o) : ∃ w, MovesFreely env ws w o := by
  obtain ⟨w, hw, accepted, hoptions⟩ := ofWords_eq_ok_iff.mp h
  refine ⟨w, hw, hoptions, fun ws' hshift => moved_of_shifted hshift hw, ?_⟩
  intro once ws' w' hw' moved o'
  rw [ofWords_eq_ok_iff]
  constructor
  · rintro ⟨w'', hw'', accepted', hoptions'⟩
    cases hw'.symm.trans hw''
    rw [moved.options?_eq accepted once, hoptions] at hoptions'
    exact ⟨(Option.some.inj hoptions').symm, (moved.accepted_iff accepted once).mp accepted'⟩
  · rintro ⟨rfl, hrotates⟩
    refine ⟨w', hw', (moved.accepted_iff accepted once).mpr hrotates, ?_⟩
    rw [moved.options?_eq accepted once, hoptions]

/-- Switches at both levels, in several spellings. -/
def scattered : List (List UInt8) :=
  ["-lc", "0", "--log-file=/l", "--log-rotate", "request", "--idle-timeout", "5", "a=1"].map
    Text.Utf8.encode

/-- The same switches, most of them behind the name of the command. -/
def gathered : List (List UInt8) :=
  ["--idle-timeout=5", "request", "--log-rotate", "a=1", "-c0", "--log-file", "/l", "-l"].map
    Text.Utf8.encode

/-- What both of them say where the socket has a name. -/
def scatteredOptions : Options where
  chip := some "0"
  consumer := none
  byName := false
  strict := false
  activeLow := true
  json := false
  idleTimeout := 5
  logFile := some (Text.Utf8.encode "/l")
  logRotate := true
  socketName := some "s"
  command := .request false [⟨"a", some true⟩]

/-- An environment with a name for the socket and a timeout that is not needed. -/
def named : Environment :=
  ⟨[("GPIOCTL_SOCKET_NAME", Text.Utf8.encode "s"), ("GPIOCTL_IDLE_TIMEOUT", Text.Utf8.encode "7")]⟩

/-- What `scattered` spells. -/
def scatteredWording : Wording where
  outer := [.flag .activeLow, .valued .chip (Text.Utf8.encode "0"),
    .valued .logFile (Text.Utf8.encode "/l"), .flag .logRotate]
  verb := .request
  inner := [.valued .idleTimeout (Text.Utf8.encode "5"), .operand (Text.Utf8.encode "a=1")]

/-- What `gathered` spells. -/
def gatheredWording : Wording where
  outer := [.valued .idleTimeout (Text.Utf8.encode "5")]
  verb := .request
  inner := [.flag .logRotate, .operand (Text.Utf8.encode "a=1"),
    .valued .chip (Text.Utf8.encode "0"), .valued .logFile (Text.Utf8.encode "/l"),
    .flag .activeLow]

theorem scattered_movesFreely :
    Options.ofWords named scattered = .ok scatteredOptions ∧
      MovesFreely named scattered scatteredWording scatteredOptions ∧ scatteredWording.Once ∧
      wording? gathered = some gatheredWording ∧ scatteredWording.Moved gatheredWording ∧
      gatheredWording.RotatesFile named ∧
      Options.ofWords named gathered = .ok scatteredOptions := by
  have hread : Options.ofWords named scattered = .ok scatteredOptions := by decide +kernel
  have hwording : wording? scattered = some scatteredWording := by decide +kernel
  have hgathered : wording? gathered = some gatheredWording := by decide +kernel
  have once : scatteredWording.Once := by
    unfold Wording.Once
    decide +kernel
  have moved : scatteredWording.Moved gatheredWording :=
    ⟨rfl, by decide +kernel, by decide +kernel, by decide +kernel⟩
  have hrotates : gatheredWording.RotatesFile named := by
    unfold Wording.RotatesFile RotatesFile
    decide +kernel
  obtain ⟨w, hfree⟩ := Options.movesFreely hread
  cases hwording.symm.trans hfree.wording
  exact ⟨hread, hfree, once, hgathered, moved, hrotates,
    (hfree.moves once gathered _ hgathered moved _).mpr ⟨rfl, hrotates⟩⟩

/-- The log is rotated. -/
def rotating : List (List UInt8) :=
  ["--log-file", "/tmp/x.log", "--log-rotate", "ping"].map Text.Utf8.encode

/-- The same switches, one of them directly behind the name of the command. -/
def apart : List (List UInt8) :=
  ["--log-file", "/tmp/x.log", "ping", "--log-rotate"].map Text.Utf8.encode

/-- A switch that is shifted away from the one that it needs is refused. -/
theorem apart_fails :
    (∃ o, Options.ofWords .empty rotating = .ok o ∧ o.logRotate = true) ∧ Shifted rotating apart ∧
      Options.ofWords .empty apart = .error ⟨.command .ping, .missing [.switch .logFile],
        [.switch .logFile, .switch .logRotate], []⟩ := by
  refine ⟨?_, ?_, by decide +kernel⟩
  · refine ⟨⟨none, none, false, false, false, false, 60, some (Text.Utf8.encode "/tmp/x.log"), true,
      none, .ping⟩, by decide +kernel, rfl⟩
  · have hfile : Spells .outer (["--log-file", "/tmp/x.log"].map Text.Utf8.encode)
        [.valued .logFile (Text.Utf8.encode "/tmp/x.log")] := ⟨by decide +kernel, by decide +kernel⟩
    have hrotate : Spells .outer (["--log-rotate"].map Text.Utf8.encode) [.flag .logRotate] :=
      ⟨by decide +kernel, by decide +kernel⟩
    have hnone : Spells .outer [] [] := ⟨rfl, fun _ hw => by cases hw⟩
    exact .mk hfile hrotate (by decide) hnone
      (by decide +kernel : Scan.inner? .outer (Text.Utf8.encode "ping") = some (.command .ping))

end Free

end CommandLine
end LineKeeper
