/-!
# What the server waits on

Everything the server waits on has a token, a word of 64 bits. The listening
socket, the signals and the idle timer have the first three; clients have those
from 16 on; the tokens between belong to nobody.

**Results.**
* `ofToken?_token`: a token leads back to its receiver.
* `ofToken?_eq_none_iff`: which tokens belong to nobody.
-/

namespace LineKeeper

/-- The identifier of a client session. -/
structure ClientId where
  number : UInt64
deriving DecidableEq, Repr

namespace ClientId

/-- The first identifier handed out. -/
def first : ClientId := ⟨0⟩

/-- The identifier handed out after this one. -/
def next (id : ClientId) : ClientId := ⟨id.number + 1⟩

/-- How the identifier is shown. -/
def display (id : ClientId) : String :=
  "client-" ++ toString id.number

/-- The identifier handed out `n` times after this one. -/
def nextBy (id : ClientId) : Nat → ClientId
  | 0 => id
  | n + 1 => id.next.nextBy n

end ClientId

/-- Something the server waits on. -/
inductive Receiver
  | listener
  | signals
  | idleTimer
  | client (id : ClientId)
deriving DecidableEq, Repr

namespace Receiver

/-- The token of the first client. -/
def firstClientToken : UInt64 := 16

/-- The token of a receiver. -/
def token : Receiver → UInt64
  | listener => 0
  | signals => 1
  | idleTimer => 2
  | client id => firstClientToken + id.number

/-- The receiver with a token. -/
def ofToken? (t : UInt64) : Option Receiver :=
  if t = 0 then some listener
  else if t = 1 then some signals
  else if t = 2 then some idleTimer
  else if firstClientToken ≤ t then some (client ⟨t - firstClientToken⟩)
  else none

/-- How the receiver is shown. -/
def display : Receiver → String
  | listener => "listener"
  | signals => "signals"
  | idleTimer => "idle-timer"
  | client id => id.display

theorem ofToken?_token {r : Receiver}
    (h : ∀ id, r = client id → id.number.toNat < UInt64.size - 16) :
    ofToken? r.token = some r := by
  cases r with
  | listener => rfl
  | signals => rfl
  | idleTimer => rfl
  | client id =>
      have hn := h id rfl
      simp only [UInt64.size] at hn
      have hsum : (firstClientToken + id.number).toNat = 16 + id.number.toNat := by
        rw [UInt64.toNat_add]
        simp only [firstClientToken, UInt64.reduceToNat]
        omega
      have ne (k : UInt64) (hk : k.toNat < 16) : firstClientToken + id.number ≠ k := by
        intro he
        have := congrArg UInt64.toNat he
        omega
      have hle : firstClientToken ≤ firstClientToken + id.number := by
        rw [UInt64.le_iff_toNat_le, hsum]
        simp only [firstClientToken, UInt64.reduceToNat]
        omega
      simp only [token, ofToken?, ne 0 (by decide), ne 1 (by decide), ne 2 (by decide), hle,
        if_true, if_false]
      congr 3
      apply UInt64.toNat_inj.mp
      rw [UInt64.toNat_sub_of_le _ _ hle, hsum]
      simp only [firstClientToken, UInt64.reduceToNat]
      omega

theorem ofToken?_eq_none_iff {t : UInt64} :
    ofToken? t = none ↔ 3 ≤ t.toNat ∧ t.toNat < 16 := by
  have eq (k : UInt64) : t = k ↔ t.toNat = k.toNat := UInt64.toNat_inj.symm
  simp only [ofToken?, eq, UInt64.le_iff_toNat_le, firstClientToken, UInt64.reduceToNat]
  repeat' split
  all_goals simp
  all_goals omega

end Receiver
end LineKeeper
