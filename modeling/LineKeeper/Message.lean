import LineKeeper.RequestId
import LineKeeper.LineSpec
import LineKeeper.Errno

/-!
# Messages

Client and server exchange messages of seven kinds. A kind has a tag, the word
a message begins with, and a name.

**Results.**
* `ofTag?_tag`, `tag_of_ofTag?`: tags and kinds determine each other.
-/

namespace LineKeeper

/-- The kinds of message. -/
inductive Kind
  | ok
  | error
  | ping
  | stop
  | request
  | reqOk
  | release
deriving DecidableEq, Repr

namespace Kind

/-- The word that a message of this kind begins with. -/
def tag : Kind → UInt32
  | ok => 0
  | error => 1
  | ping => 2
  | stop => 3
  | request => 4
  | reqOk => 5
  | release => 6

/-- The kind with a tag. -/
def ofTag? (tag : UInt32) : Option Kind :=
  if tag = 0 then some ok
  else if tag = 1 then some error
  else if tag = 2 then some ping
  else if tag = 3 then some stop
  else if tag = 4 then some request
  else if tag = 5 then some reqOk
  else if tag = 6 then some release
  else none

/-- The kind with a tag, or the reason why there is none. -/
def ofTag (tag : UInt32) : Except WireError Kind :=
  match ofTag? tag with
  | some kind => .ok kind
  | none => .error (.unknownKind tag)

/-- The name of a kind. -/
def name : Kind → String
  | ok => "OK"
  | error => "ERROR"
  | ping => "PING"
  | stop => "STOP"
  | request => "REQUEST"
  | reqOk => "REQ_OK"
  | release => "RELEASE"

theorem ofTag?_tag (kind : Kind) : ofTag? kind.tag = some kind := by
  cases kind <;> rfl

theorem tag_of_ofTag? {tag : UInt32} {kind : Kind} (h : ofTag? tag = some kind) :
    kind.tag = tag := by
  unfold ofTag? at h
  repeat' (split at h; · next ht => cases h; exact ht.symm)
  cases h

end Kind

/-- A message. -/
inductive Message
  | ok
  | error (errno : Errno)
  | ping
  | stop
  | request (spec : LineSpec)
  | reqOk (id : RequestId)
  | release (id : RequestId)
deriving DecidableEq

namespace Message

/-- The kind of a message. -/
def kind : Message → Kind
  | ok => .ok
  | error _ => .error
  | ping => .ping
  | stop => .stop
  | request _ => .request
  | reqOk _ => .reqOk
  | release _ => .release

end Message
end LineKeeper
