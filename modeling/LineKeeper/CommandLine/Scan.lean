import LineKeeper.CommandLine.Settings
import LineKeeper.CommandLine.Word
import LineKeeper.Environment
import LineKeeper.Text.Similar

/-!
# Reading the words of one level

A `Scan` reads the words of one level from left to right. What was named last is
pending: a switch that waits for its value, a switch or an operand whose value is
not read yet. It is settled, that is, its value is read and added, before the next
thing that was named is dealt with, or at the end.

**Rules.**
* While a switch waits for its value, the next plain word is that value, also if it
  names a command. A word that begins with a hyphen is no value.
* Letters stand together behind one hyphen. A letter that takes a value takes the
  rest of its word, without an equals sign at the front, or else the next word.
* A lone double hyphen ends the switches and the names of commands. A switch that
  waits then gets no value.
* The switch that is not known is reported before anything that is pending.
* What is not given in words may be given by variables. Of what then is missing, all
  is reported.

**Results.**
* `settle_settled`: a scan with nothing pending has nothing to settle.
* `words_nil`, `words_cons`: the words are read one by one.
-/

namespace LineKeeper
namespace CommandLine

/-- What was named last and is not dealt with yet. -/
inductive Pending
  | nothing
  | waiting (s : Switch)
  | valued (s : Switch) (raw : List UInt8)
  | operand (o : Operand) (raws : List (List UInt8))
deriving DecidableEq, Repr

/-- The state of reading one level: what was given so far, what is pending, whether the switches
have ended, and whether an operand of one word has its word. -/
structure Scan where
  level : Level
  given : Settings
  pending : Pending
  ended : Bool
  filled : Bool
deriving DecidableEq

namespace Scan

/-- Nothing was read yet. -/
def start (level : Level) : Scan :=
  ⟨level, .empty, .nothing, false, false⟩

/-- A fault at this level. -/
def fault (s : Scan) (f : Fault) : UsageError :=
  .plain s.level f

/-- Refuses what was read. -/
def fail {α : Type} (s : Scan) (f : Fault) : Except UsageError α :=
  .error (s.fault f)

/-- Adds a value that was read. -/
def add (s : Scan) (item : Item) (source : Source) : Except Fault Value → Except UsageError Scan
  | .ok value => .ok { s with given := s.given.add ⟨item, source, value⟩ }
  | .error f => s.fail f

/-- Gives a switch. No switch may be given twice. -/
def give (s : Scan) (sw : Switch) (source : Source) (value : Except Fault Value) :
    Except UsageError Scan :=
  if s.given.has (.switch sw) then s.fail (.repeated sw) else s.add (.switch sw) source value

/-- Deals with what is pending. -/
def settle (s : Scan) : Except UsageError Scan :=
  let rest := { s with pending := .nothing }
  match s.pending with
  | .nothing => .ok s
  | .waiting sw => s.fail (.noValue sw)
  | .valued sw raw => rest.give sw .words (readSwitch sw raw)
  | .operand o raws => rest.add (.operand o) .words (readOperand o raws)

theorem settle_settled {s : Scan} (h : s.pending = .nothing) : s.settle = .ok s := by
  simp [settle, h]

/-- Is the item one that help shows? -/
def isShown (i : Item) : Bool :=
  !i.isHidden

/-- The items that were named so far, a pending switch with its value too. -/
def named (s : Scan) : List Item :=
  let given := s.given.items
  match s.pending with
  | .valued sw _ =>
      if given.contains (.switch sw) then given.erase (.switch sw) else given ++ [.switch sw]
  | _ => given

/-- The items of a list that a reminder of the usage shows beside the operand of the level. -/
def reminded (s : Scan) (items : List Item) : List Item :=
  items.filter fun i => isShown i && (s.level.operand?).all fun o => i ≠ .operand o

section Unknown

/-- The switches at a level that a name is like; the most similar one is last. -/
def alike (level : Level) (name : String) : List Switch :=
  (Text.Similar.among name (level.switches.map Switch.long)).filterMap level.ofLong?

/-- The command among the words that follow, the earliest one, that has a switch like the name. -/
def elsewhere? (name : String) : List (List UInt8) → Option (Verb × Switch)
  | [] => none
  | w :: ws =>
      match ((Text.Utf8.decode? w).bind Verb.ofName?) with
      | none => elsewhere? name ws
      | some v =>
          match (alike (.command v) name).getLast? with
          | some sw => some (v, sw)
          | none => elsewhere? name ws

/-- A tip to give a word as a value, if words can be values. -/
def valueTip (s : Scan) (word : String) : List Tip :=
  if s.level.operand?.isSome then [.asValue word] else []

/-- The report of a long name that is not known here; `later` are the words that follow. -/
def unknownLong (s : Scan) (name : String) (later : List (List UInt8)) : UsageError :=
  let word := "--" ++ name
  let fault := Fault.unknownArgument word
  match (alike s.level name).getLast? with
  | some sw =>
      let named := if s.named.contains (.switch sw) then s.named else s.named ++ [.switch sw]
      ⟨s.level, fault, s.reminded named, [.switch sw]⟩
  | none =>
      let tips :=
        match s.level, elsewhere? name later with
        | .outer, some (v, sw) => [Tip.switchOf v sw]
        | _, _ => []
      ⟨s.level, fault, s.reminded s.named, s.valueTip word ++ tips⟩

/-- The report of a letter that is not known here; it stands at the front of the bytes. -/
def unknownLetter (s : Scan) (bytes : List UInt8) : UsageError :=
  let shown :=
    match Text.Utf8.front? bytes with
    | some c => String.ofList ['-', c]
    | none => "-" ++ Text.Utf8.lossy bytes
  ⟨s.level, .unknownArgument shown, [], s.valueTip shown⟩

/-- The report of a word that has no meaning here. -/
def unexpected (s : Scan) (w : List UInt8) : UsageError :=
  let shown := Text.Utf8.lossy w
  match s.level with
  | .outer =>
      if s.ended && Level.commandNames.contains shown then
        ⟨s.level, .unknownArgument shown, [], [.withoutTerminator shown]⟩
      else
        let similar := Text.Similar.among shown Level.commandNames
        ⟨s.level, .unknownCommand shown, [], if similar.isEmpty then [] else [.commands similar]⟩
  | _ => s.fault (.unknownArgument shown)

end Unknown

section Switches

/-- A switch without a value was named. -/
def flag (s : Scan) (sw : Switch) (long : Bool) : Except UsageError Scan := do
  let s ← s.settle
  match sw with
  | .help => s.fail (.helpAsked long)
  | .version => s.fail .versionAsked
  | _ => s.give sw .words (.ok .present)

/-- A switch was named that waits for its value. -/
def await (s : Scan) (sw : Switch) : Except UsageError Scan := do
  let s ← s.settle
  return { s with pending := .waiting sw }

/-- A switch was named together with its value. -/
def attach (s : Scan) (sw : Switch) (raw : List UInt8) : Except UsageError Scan := do
  let s ← s.settle
  s.give sw .words (readSwitch sw raw)

/-- A value in the same word as its letter: an equals sign at the front is no part of it. -/
def attachedValue : List UInt8 → List UInt8
  | [] => []
  | b :: bs => if b = Word.equals then bs else b :: bs

/-- Reads a long name, and its value if one is attached; `later` are the words that follow. -/
def long (s : Scan) (name : List UInt8) (value : Option (List UInt8)) (later : List (List UInt8)) :
    Except UsageError Scan :=
  match (Text.Utf8.decode? name).bind s.level.ofLong? with
  | none => .error (s.unknownLong (Text.Utf8.lossy name) later)
  | some sw =>
      match sw.takesValue, value with
      | true, some raw => s.attach sw raw
      | true, none => s.await sw
      | false, none => s.flag sw true
      | false, some raw =>
          let items := s.given.items
          let used := if items.contains (.switch sw) then items else items ++ [.switch sw]
          .error ⟨s.level, .unwantedValue sw (Text.Utf8.lossy raw), s.reminded used, []⟩

/-- Reads letters. -/
def letters (s : Scan) : List UInt8 → Except UsageError Scan
  | [] => .ok s
  | b :: bs =>
      match s.level.ofLetter? (Char.ofNat b.toNat) with
      | none => .error (s.unknownLetter (b :: bs))
      | some sw =>
          if sw.takesValue then
            if bs.isEmpty then s.await sw else s.attach sw (attachedValue bs)
          else do
            let s ← s.flag sw false
            s.letters bs

end Switches

section Words

/-- Reads a word that is no switch and no value of one. -/
def plain (s : Scan) (w : List UInt8) : Except UsageError Scan :=
  match s.level.operand? with
  | none => .error (s.unexpected w)
  | some o =>
      if o.isMany then
        match s.pending with
        | .operand _ raws => .ok { s with pending := .operand o (raws ++ [w]) }
        | _ => do
            let s ← s.settle
            return { s with pending := .operand o [w] }
      else if s.filled then .error (s.unexpected w)
      else do
        let s ← s.settle
        return { s with pending := .operand o [w], filled := true }

/-- Does a switch wait for its value? -/
def isWaiting (s : Scan) : Bool :=
  match s.pending with
  | .waiting _ => true
  | _ => false

/-- The level that a word leads to. -/
def inner? (level : Level) (w : List UInt8) : Option Level :=
  match level, Text.Utf8.decode? w with
  | .outer, some name =>
      if name = Level.helpName then some .help else (Verb.ofName? name).map Level.command
  | _, _ => none

/-- Reads a word; `later` are the words that follow. -/
def word (s : Scan) (w : List UInt8) (later : List (List UInt8)) : Except UsageError Scan :=
  if s.ended then s.plain w
  else
    match Word.ofBytes w with
    | .terminator => .ok { s with ended := true }
    | .long name value => s.long name value later
    | .letters bytes => s.letters bytes
    | .plain =>
        match s.pending with
        | .waiting sw => .ok { s with pending := .valued sw w }
        | _ => s.plain w

/-- Reads words up to the first that leads to another level, and returns that level with the words
that follow. -/
def words (s : Scan) :
    List (List UInt8) → Except UsageError (Scan × Option (Level × List (List UInt8)))
  | [] => .ok (s, none)
  | w :: ws =>
      match if s.ended || s.isWaiting then none else inner? s.level w with
      | some level => .ok (s, some (level, ws))
      | none => do
          let s ← s.word w ws
          s.words ws

theorem words_nil (s : Scan) : s.words [] = .ok (s, none) := rfl

theorem words_cons {s : Scan} {w : List UInt8} {ws : List (List UInt8)}
    (h : inner? s.level w = none) : s.words (w :: ws) = s.word w ws >>= fun s => s.words ws := by
  simp [words, h]

end Words

section Closing

/-- Gives switches that were not given, as far as variables have values for them. -/
def fill (s : Scan) (env : Environment) : List Switch → Except UsageError Scan
  | [] => .ok s
  | sw :: sws =>
      match if s.given.has (.switch sw) then none else sw.variableName?.bind env.get? with
      | none => s.fill env sws
      | some raw => do
          let s ← s.add (.switch sw) .environment (readSwitch sw raw)
          s.fill env sws

/-- Deals with what is pending when the words have ended, and then with the variables. -/
def supply (s : Scan) (env : Environment) : Except UsageError Scan := do
  let s ← s.settle
  s.fill env s.level.switches

/-- The switches that have to be given: rotating a log needs its file. -/
def required (s : Scan) : List Item :=
  if s.given.has (.switch .logRotate) then [.switch .logFile] else []

/-- What has to be given and was not. -/
def missing (s : Scan) : List Item :=
  (s.required ++ (s.level.operand?.map Item.operand).toList).filter fun i => !s.given.has i

/-- Ends the level, and refuses it if something is missing. -/
def close (s : Scan) (env : Environment) : Except UsageError Scan := do
  let s ← s.supply env
  if s.missing.isEmpty then return s
  else
    let shown := s.given.items.filter isShown
    throw ⟨s.level, .missing s.missing, (s.required ++ shown ++ s.missing).eraseDups, []⟩

end Closing

end Scan
end CommandLine
end LineKeeper
