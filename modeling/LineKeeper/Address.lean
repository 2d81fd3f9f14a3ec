import LineKeeper.Failure
import LineKeeper.Text.Utf8

/-!
# Addresses of servers

A server listens on an abstract address, which has a name. A name is owned by at
most one server at a time. `Addresses` says which server, by its number, owns
which name.

**Results.**
* `owner?_bind`: the one who binds a name owns it.
* `bind_taken`: a name that is owned cannot be bound.
-/

namespace LineKeeper

/-- The names that are owned, and by which server. -/
structure Addresses where
  bound : List (String × Nat)
deriving DecidableEq, Repr

/-- Why a name cannot be bound. -/
inductive BindError
  | invalidName (f : Failure)
  | cannotBind (name : String) (errno : Errno)
deriving DecidableEq, Repr

namespace BindError

/-- The text of the error. -/
def message : BindError → String
  | invalidName f => "Invalid server socket name: " ++ f.message
  | cannotBind name errno =>
      "Failed to bind to the unix socket @" ++ name ++ ": " ++ errno.describe

/-- Is the name owned by another server? -/
def isInUse : BindError → Bool
  | cannotBind _ errno => errno = Errno.addressInUse
  | _ => false

end BindError

namespace Addresses

/-- Most bytes of a name. -/
def maxName : Nat := 107

/-- The name that a user's server has if no other is asked for. -/
def userName (uid : UInt32) : String :=
  "gpioctl-" ++ toString uid

/-- No name is owned. -/
def empty : Addresses := ⟨[]⟩

/-- Is the name short enough? -/
def check (name : String) : Except Failure Unit :=
  if (Text.Utf8.encode name).length ≤ maxName then .ok () else .error .socketNameTooLong

/-- The server that owns a name. -/
def owner? (a : Addresses) (name : String) : Option Nat :=
  (a.bound.find? (·.1 = name)).map (·.2)

/-- Looks for the server that owns a name. -/
def tryConnect (a : Addresses) (name : String) : Except Failure (Option Nat) := do
  check name
  return a.owner? name

/-- Makes a server the owner of a name. -/
def bind (a : Addresses) (name : String) (server : Nat) : Except BindError Addresses :=
  match check name with
  | .error f => .error (.invalidName f)
  | .ok () =>
      match a.owner? name with
      | some _ => .error (.cannotBind name Errno.addressInUse)
      | none => .ok ⟨a.bound ++ [(name, server)]⟩

/-- A server gives up what it owns. -/
def giveUp (a : Addresses) (server : Nat) : Addresses :=
  ⟨a.bound.filter (·.2 ≠ server)⟩

theorem bind_taken {a : Addresses} {name : String} {owner : Nat} (server : Nat)
    (hname : check name = .ok ()) (h : a.owner? name = some owner) :
    a.bind name server = .error (.cannotBind name Errno.addressInUse) := by
  simp [bind, hname, h]

theorem owner?_bind {a a' : Addresses} {name : String} {server : Nat}
    (h : a.bind name server = .ok a') : a'.owner? name = some server := by
  simp only [bind] at h
  split at h
  · cases h
  · split at h
    · cases h
    · next hnone =>
      cases h
      have hf : a.bound.find? (fun e => decide (e.1 = name)) = none := by
        cases hb : a.bound.find? (fun e => decide (e.1 = name)) with
        | none => rfl
        | some e => simp [owner?, hb] at hnone
      simp [owner?, List.find?_append, hf]

end Addresses
end LineKeeper
