import LineKeeper.File.Path

/-!
# The environment of a process

Variables with their values, each at most once, and what they say about the home
directory of the user. A `Caller` is who runs the program, and from where.

**Results.**
* `get?_set`: a variable has the value it was set to.
* `get?_unset`: a variable that was unset has none.
-/

namespace LineKeeper

/-- Variables and their values. -/
structure Environment where
  bindings : List (String × List UInt8)
deriving DecidableEq, Repr

namespace Environment

/-- No variable is set. -/
def empty : Environment := ⟨[]⟩

/-- The value of a variable. -/
def get? (e : Environment) (name : String) : Option (List UInt8) :=
  (e.bindings.find? (·.1 = name)).map (·.2)

/-- Takes a variable away. -/
def unset (e : Environment) (name : String) : Environment :=
  ⟨e.bindings.filter (·.1 ≠ name)⟩

/-- Gives a variable a value. -/
def set (e : Environment) (name : String) (value : List UInt8) : Environment :=
  ⟨(name, value) :: (e.unset name).bindings⟩

/-- The variable that names the home directory. -/
def homeName : String := "HOME"

/-- The home directory: what the variable says, or, if that is nothing, where the list of users has
it. -/
def home? (e : Environment) (listed : Option Path) : Option Path :=
  match e.get? homeName with
  | some (b :: bs) => some (b :: bs)
  | _ => listed

theorem get?_set (e : Environment) (name : String) (value : List UInt8) :
    (e.set name value).get? name = some value := by
  simp [get?, set]

theorem get?_unset (e : Environment) (name : String) : (e.unset name).get? name = none := by
  simp [get?, unset]

end Environment

/-- Who runs the program: the environment, the working directory, the number of the user, and the
home directory that the list of users has. -/
structure Caller where
  environment : Environment
  directory : Path
  uid : UInt32
  listedHome : Option Path
deriving DecidableEq, Repr

namespace Caller

/-- The home directory of the caller. -/
def home? (c : Caller) : Option Path :=
  c.environment.home? c.listedHome

end Caller
end LineKeeper
