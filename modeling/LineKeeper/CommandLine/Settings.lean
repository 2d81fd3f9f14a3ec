import LineKeeper.CommandLine.UsageError
import LineKeeper.File.Path
import LineKeeper.RequestId

/-!
# What was given at a level

`Settings` lists what was given at one level, in the order in which it was read,
with its value and where that came from.

**Values.** A switch without a value is only present. A path is any bytes but
none; all other values are texts, and some of those have to be read further.

**Merging.** A switch may be given at both levels. The inner level counts, unless
it has its value from the environment and the outer one has it from the words.

**Results.**
* `merged_inner`: a word of the inner level counts.
* `merged_outer`: what only the outer level has counts.
-/

namespace LineKeeper
namespace CommandLine

/-- Where a value comes from. -/
inductive Source
  | environment
  | words
deriving DecidableEq, Repr

/-- A value that was read. -/
inductive Value
  | present
  | text (s : String)
  | seconds (n : UInt64)
  | path (p : Path)
  | lines (ls : List LineArg)
  | request (id : RequestId)
deriving DecidableEq

/-- Something that was given. -/
structure Entry where
  item : Item
  source : Source
  value : Value
deriving DecidableEq

/-- The text of a value. -/
def textOf (raw : List UInt8) : Except Fault String :=
  match Text.Utf8.decode? raw with
  | some s => .ok s
  | none => .error .notText

/-- Reads line arguments in order. -/
def readLines : List (List UInt8) → Except Fault (List LineArg)
  | [] => .ok []
  | raw :: raws => do
      let s ← textOf raw
      match LineArg.ofString s with
      | .error e => throw (.badValue (.operand .lines) s (.line e))
      | .ok line => do
          let lines ← readLines raws
          return line :: lines

/-- Reads the value of a switch. -/
def readSwitch (s : Switch) (raw : List UInt8) : Except Fault Value :=
  match s with
  | .logFile => if raw.isEmpty then .error (.noValue s) else .ok (.path raw)
  | .idleTimeout => do
      let text ← textOf raw
      match Text.Decimal.readUInt64 text with
      | .ok n => return .seconds n
      | .error e => throw (.badValue (.switch s) text (.number e))
  | _ => (textOf raw).map Value.text

/-- Reads the words of an operand. -/
def readOperand : Operand → List (List UInt8) → Except Fault Value
  | .lines, raws => (readLines raws).map Value.lines
  | .request, raws => do
      let text ← textOf raws.flatten
      match RequestId.ofString text with
      | .ok id => return .request id
      | .error e => throw (.badValue (.operand .request) text (.request e))

/-- What was given at one level. -/
structure Settings where
  entries : List Entry
deriving DecidableEq

namespace Settings

/-- Nothing was given. -/
def empty : Settings := ⟨[]⟩

/-- Adds an entry. -/
def add (g : Settings) (e : Entry) : Settings :=
  ⟨g.entries ++ [e]⟩

/-- The entry of an item. -/
def entry? (g : Settings) (i : Item) : Option Entry :=
  g.entries.find? (·.item = i)

/-- Was the item given? -/
def has (g : Settings) (i : Item) : Bool :=
  (g.entry? i).isSome

/-- The items that were given, each once. -/
def items (g : Settings) : List Item :=
  (g.entries.map (·.item)).eraseDups

/-- The lines that were given. -/
def lines (g : Settings) : List LineArg :=
  g.entries.flatMap fun e =>
    match e.value with
    | .lines ls => ls
    | _ => []

/-- The request that was given. -/
def request? (g : Settings) : Option RequestId :=
  match g.entry? (.operand .request) with
  | some ⟨_, _, .request id⟩ => some id
  | _ => none

/-- The value of a switch that was given at the outer or at the inner level. -/
def merged (outer inner : Settings) (s : Switch) : Option Value :=
  match outer.entry? (.switch s), inner.entry? (.switch s) with
  | none, none => none
  | some o, none => some o.value
  | none, some i => some i.value
  | some o, some i =>
      if o.source = .words ∧ i.source = .environment then some o.value else some i.value

theorem merged_inner {outer inner : Settings} {s : Switch} {i : Entry}
    (h : inner.entry? (.switch s) = some i) (hw : i.source = .words) :
    merged outer inner s = some i.value := by
  simp only [merged, h]
  cases outer.entry? (.switch s) <;> simp [hw]

theorem merged_outer {outer inner : Settings} {s : Switch} {o : Entry}
    (h : outer.entry? (.switch s) = some o) (hi : inner.entry? (.switch s) = none) :
    merged outer inner s = some o.value := by
  simp [merged, h, hi]

end Settings

end CommandLine
end LineKeeper
