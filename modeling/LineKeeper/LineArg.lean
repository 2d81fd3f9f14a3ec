/-!
# Line identifiers on the command line

A line is given as an identifier, or as an identifier, an equals sign and the
level it is to be driven to. The first equals sign divides the two.

**Results.**
* `ofString_of_no_equals`: without an equals sign the whole text is the
  identifier.
-/

namespace LineKeeper

/-- A line identifier and, if one was given, a level. -/
structure LineArg where
  line : String
  level : Option Bool
deriving DecidableEq, Repr

/-- Why a text is no line argument. -/
inductive LineArgError
  | badValue (value : String)
  | badLine (arg : String)
deriving DecidableEq, Repr

namespace LineArgError

/-- The text of the error. -/
def message : LineArgError → String
  | badValue value => "invalid line value '" ++ value ++ "'"
  | badLine arg => "invalid line '" ++ arg ++ "'"

end LineArgError

namespace LineArg

/-- The level with a name. -/
def level? (s : String) : Option Bool :=
  if s = "0" ∨ s = "inactive" ∨ s = "off" ∨ s = "false" then some false
  else if s = "1" ∨ s = "active" ∨ s = "on" ∨ s = "true" then some true
  else none

/-- The text before the first equals sign, and the text after it if there is one. -/
def splitEquals (s : String) : String × Option String :=
  let cs := s.toList
  let front := String.ofList (cs.takeWhile (· ≠ '='))
  match cs.dropWhile (· ≠ '=') with
  | [] => (s, none)
  | _ :: rest => (front, some (String.ofList rest))

/-- Reads a line argument. A bad value is reported before a missing identifier. -/
def ofString (s : String) : Except LineArgError LineArg :=
  let (line, value) := splitEquals s
  match value with
  | none => if line = "" then .error (.badLine s) else .ok ⟨line, none⟩
  | some v =>
      match level? v with
      | none => .error (.badValue v)
      | some level => if line = "" then .error (.badLine s) else .ok ⟨line, some level⟩

theorem splitEquals_of_no_equals {s : String} (h : '=' ∉ s.toList) :
    splitEquals s = (s, none) := by
  have hall : ∀ c ∈ s.toList, decide (c ≠ '=') = true := by
    intro c hc
    have : c ≠ '=' := fun he => h (he ▸ hc)
    simpa using this
  have hd : s.toList.dropWhile (fun c => decide (c ≠ '=')) = [] := by
    have := @List.dropWhile_append_of_pos _ _ s.toList [] hall
    rwa [List.append_nil, List.dropWhile_nil] at this
  simp only [splitEquals, hd]

theorem ofString_of_no_equals {s : String} (h : '=' ∉ s.toList) (hne : s ≠ "") :
    ofString s = .ok ⟨s, none⟩ := by
  simp [ofString, splitEquals_of_no_equals h, hne]

end LineArg
end LineKeeper
