import LineKeeper.LogEvent
import LineKeeper.Text.Quoted

/-!
# Which reports are written, and how

A `LogFilter` is a list of rules. A rule gives the least important level that is
written, for all reports or for those whose target begins with a name. The rule
with the longest name decides, and of two with one name the later one.

**Reading.** Rules stand between commas: a level, a name, or a name with a level
behind an equals sign. A name alone lets everything pass. A part in brackets in front
of or in place of a name concerns work that a server never does. Without any rule,
errors are written.

**Results.**
* `allows_upTo`: a filter for one level lets that level and the more important ones
  pass.
-/

namespace LineKeeper

/-- A rule: the reports it is about, by the beginning of their target, and the rank up to which
they are written. -/
structure LogRule where
  target : Option (List Char)
  rank : Nat
deriving DecidableEq, Repr

/-- Which reports are written. -/
structure LogFilter where
  rules : List LogRule
deriving DecidableEq, Repr

namespace LogFilter

/-- The variable of the environment that holds rules. -/
def variableName : String := "RUST_LOG"

/-- Writes all reports up to a level. -/
def upTo (level : LogLevel) : LogFilter :=
  ⟨[⟨none, level.rank⟩]⟩

section Choosing

/-- Is the rule about reports with this target? -/
def applies (target : List Char) (r : LogRule) : Bool :=
  match r.target with
  | none => true
  | some name => name.isPrefixOf target

/-- How long the name of a rule is; a rule for all reports has less than any. -/
def weight (r : LogRule) : Nat :=
  match r.target with
  | none => 0
  | some name => name.length + 1

/-- The rule that decides about a target: the heaviest one, and of those the last. -/
def deciding? (target : List Char) (rules : List LogRule) : Option LogRule :=
  (rules.filter (applies target)).foldl (fun best r =>
    match best with
    | none => some r
    | some b => if weight b ≤ weight r then some r else some b) none

/-- Is the report written? -/
def allows (f : LogFilter) (e : LogEvent) : Bool :=
  match deciding? e.target.toList f.rules with
  | none => false
  | some r => e.level.rank ≤ r.rank

theorem allows_upTo (level : LogLevel) (e : LogEvent) :
    (upTo level).allows e = decide (e.level.rank ≤ level.rank) := rfl

end Choosing

section Reading

/-- The parts of a text between commas; empty ones are left out. -/
def partsFrom (acc : List Char) : List Char → List (List Char)
  | [] => if acc.isEmpty then [] else [acc.reverse]
  | c :: cs =>
      if c = ',' then
        if acc.isEmpty then partsFrom [] cs else acc.reverse :: partsFrom [] cs
      else partsFrom (c :: acc) cs

/-- The rank that a level's name or number means. -/
def rank? (cs : List Char) : Option Nat :=
  match String.ofList (cs.map Char.toLower) with
  | "off" => some 0
  | "0" => some 0
  | "error" => some 1
  | "1" => some 1
  | "warn" => some 2
  | "2" => some 2
  | "info" => some 3
  | "3" => some 3
  | "debug" => some 4
  | "4" => some 4
  | "trace" => some 5
  | "5" => some 5
  | _ => none

/-- May the character stand in the name of a target? -/
def isNameChar (c : Char) : Bool :=
  c.isAlphanum || c = '_' || c = ':' || c = '-'

/-- The name of a target; it is not empty. -/
def name? (cs : List Char) : Option (List Char) :=
  if !cs.isEmpty && cs.all isNameChar then some cs else none

/-- Is this a part in brackets? -/
def isBracketed (cs : List Char) : Bool :=
  cs.head? = some '[' && cs.getLast? = some ']' && !(cs.dropLast.contains ']')

/-- Reads one rule. A part in brackets is a rule about nothing that happens here. -/
def rule? (cs : List Char) : Option (Option LogRule) :=
  match rank? cs with
  | some rank => some (some ⟨none, rank⟩)
  | none =>
      let front := cs.takeWhile (· ≠ '=')
      let rank :=
        match cs.dropWhile (· ≠ '=') with
        | [] => some 5
        | [_] => some 5
        | _ :: level => rank? level
      match rank with
      | none => none
      | some rank =>
          match name? front with
          | some name => some (some ⟨some name, rank⟩)
          | none =>
              let name := front.takeWhile (· ≠ '[')
              if isBracketed (front.dropWhile (· ≠ '[')) && (name.isEmpty || (name? name).isSome) then
                some none
              else none

/-- Reads rules in order; one that cannot be read spoils them all. -/
def rules? : List (List Char) → Option (List (Option LogRule))
  | [] => some []
  | part :: parts =>
      match rule? part, rules? parts with
      | some r, some rs => some (r :: rs)
      | _, _ => none

/-- Reads a filter. -/
def ofString? (s : String) : Option LogFilter :=
  match rules? (partsFrom [] s.toList) with
  | none => none
  | some [] => some (upTo .error)
  | some rules => some ⟨rules.filterMap id⟩

/-- The filter that a variable asks for, or else the one for a level. -/
def ofSetting (setting : Option String) (level : LogLevel) : LogFilter :=
  (setting.bind ofString?).getD (upTo level)

end Reading

end LogFilter

namespace FieldValue

/-- The value of a field in a line. -/
def inLine : FieldValue → String
  | number n => toString n
  | flag b => if b then "true" else "false"
  | text s => Text.Quoted.quote s
  | shown s => s

end FieldValue

namespace LogEvent

/-- The report as a line, with its target if that is wanted. The time is left out. -/
def line (withTarget : Bool) (e : LogEvent) : String :=
  e.level.name ++ (if withTarget then " " ++ e.target ++ ":" else "") ++ " " ++ e.message ++
    String.join (e.fields.map fun (name, value) => " " ++ name ++ "=" ++ value.inLine)

end LogEvent
end LineKeeper
