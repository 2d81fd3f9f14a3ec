import LineKeeper.RequestId

/-!
# Held requests

`Requests η` keeps a record for every granted request, under the identifier that
was returned to the client. A record owns the handle, of type `η`, whose closing
gives the lines back. Identifiers come from a counter and are never used twice;
records are kept in the order of the bytes of their identifiers.

**Results.**
* `insert_fst`: the identifier of the `n`th request has the number `n`.
* `get?_remove_self`: a removed record is gone.
* `length_drain`: a drained registry is empty.
-/

namespace LineKeeper

/-- A held request: the handle that keeps its lines, and what it was made for. -/
structure Held (η : Type) where
  handle : η
  chipPath : String
  offsets : List UInt32
  owner : Int32
deriving DecidableEq, Repr

/-- The held requests, in the order of their identifiers, and how many were ever made. -/
structure Requests (η : Type) where
  records : List (RequestId × Held η)
  issued : UInt64
deriving DecidableEq

namespace Requests

variable {η : Type}

/-- No request, and none yet made. -/
def empty : Requests η :=
  ⟨[], 0⟩

/-- Puts a record into a list that is in the order of its identifiers. -/
def insertRecord (id : RequestId) (r : Held η) :
    List (RequestId × Held η) → List (RequestId × Held η)
  | [] => [(id, r)]
  | e :: es =>
      if id.before e.1 then (id, r) :: e :: es
      else if e.1 = id then (id, r) :: es
      else e :: insertRecord id r es

/-- Adds a record under a new identifier, which is returned. -/
def insert (s : Requests η) (r : Held η) : RequestId × Requests η :=
  let id := RequestId.numbered (s.issued + 1)
  (id, ⟨insertRecord id r s.records, s.issued + 1⟩)

/-- The record with an identifier. -/
def get? (s : Requests η) (id : RequestId) : Option (Held η) :=
  (s.records.find? (·.1 = id)).map (·.2)

/-- Removes a record. -/
def remove (s : Requests η) (id : RequestId) : Requests η :=
  { s with records := s.records.filter (·.1 ≠ id) }

/-- Removes every record; they come in the order of their identifiers. -/
def drain (s : Requests η) : List (RequestId × Held η) × Requests η :=
  (s.records, { s with records := [] })

/-- The number of records. -/
def length (s : Requests η) : Nat :=
  s.records.length

/-- Is there no record? -/
def isEmpty (s : Requests η) : Bool :=
  s.records.isEmpty

theorem insert_fst (s : Requests η) (r : Held η) :
    (s.insert r).1 = RequestId.numbered (s.issued + 1) := rfl

theorem get?_remove_self (s : Requests η) (id : RequestId) : (s.remove id).get? id = none := by
  simp [remove, get?, List.find?_eq_none]

@[simp] theorem length_drain (s : Requests η) : s.drain.2.length = 0 := rfl

@[simp] theorem issued_drain (s : Requests η) : s.drain.2.issued = s.issued := rfl

end Requests
end LineKeeper
