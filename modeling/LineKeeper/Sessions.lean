import LineKeeper.Receiver

/-!
# Client sessions

`Sessions σ` holds one value of type `σ` for each connected client, under the
identifier the client got when it was accepted. Identifiers come from a counter
and are listed in the order in which they were handed out.

**Results.**
* `get?_insert_self`, `get?_remove_self`: one equation per operation, seen
  through `get?`.
* `length_insert`: a new session adds one.
* `withdraw_insert`: what is left of a session that was taken back is that its
  identifier was used.
-/

namespace LineKeeper

/-- Who is at the other end of a connection. -/
structure Peer where
  pid : Int32
  uid : UInt32
  user : String
deriving DecidableEq, Repr

/-- The sessions, oldest first, and the identifier that the next one will get. -/
structure Sessions (σ : Type) where
  entries : List (ClientId × σ)
  next : ClientId
deriving DecidableEq, Repr

namespace Sessions

variable {σ : Type}

/-- No session, and none yet handed out. -/
def empty : Sessions σ :=
  ⟨[], ClientId.first⟩

/-- Adds a session and returns its identifier. -/
def insert (s : Sessions σ) (session : σ) : ClientId × Sessions σ :=
  (s.next, ⟨s.entries ++ [(s.next, session)], s.next.next⟩)

/-- The session with an identifier. -/
def get? (s : Sessions σ) (id : ClientId) : Option σ :=
  (s.entries.find? (·.1 = id)).map (·.2)

/-- Removes a session. -/
def remove (s : Sessions σ) (id : ClientId) : Sessions σ :=
  { s with entries := s.entries.filter (·.1 ≠ id) }

/-- Takes back the session that was added last. Its identifier is not handed out again. -/
def withdraw (s : Sessions σ) : Sessions σ :=
  { s with entries := s.entries.dropLast }

/-- The identifiers of the sessions, oldest first. -/
def ids (s : Sessions σ) : List ClientId :=
  s.entries.map (·.1)

/-- The number of sessions. -/
def length (s : Sessions σ) : Nat :=
  s.entries.length

/-- Is there no session? -/
def isEmpty (s : Sessions σ) : Bool :=
  s.entries.isEmpty

@[simp] theorem length_empty : (empty : Sessions σ).length = 0 := rfl

@[simp] theorem length_insert (s : Sessions σ) (session : σ) :
    (s.insert session).2.length = s.length + 1 := by
  simp [insert, length]

theorem ids_insert (s : Sessions σ) (session : σ) :
    (s.insert session).2.ids = s.ids ++ [s.next] := by
  simp [insert, ids]

theorem withdraw_insert (s : Sessions σ) (session : σ) :
    (s.insert session).2.withdraw = { s with next := s.next.next } := by
  simp [insert, withdraw]

theorem ids_remove (s : Sessions σ) (id : ClientId) :
    (s.remove id).ids = s.ids.filter (· ≠ id) := by
  simp [remove, ids, List.filter_map, Function.comp_def]

theorem get?_remove_self (s : Sessions σ) (id : ClientId) : (s.remove id).get? id = none := by
  simp [remove, get?, List.find?_eq_none]

theorem get?_insert_self {s : Sessions σ} (session : σ) (h : s.next ∉ s.ids) :
    (s.insert session).2.get? s.next = some session := by
  have hnone : s.entries.find? (fun e => decide (e.1 = s.next)) = none := by
    rw [List.find?_eq_none]
    intro e he heq
    exact h (List.mem_map.mpr ⟨e, he, by simpa using heq⟩)
  simp [insert, get?, List.find?_append, hnone]

end Sessions
end LineKeeper
