import LineKeeper.Errno

/-!
# The idle timer

A server that nobody uses ends after a grace period. The timer counts the period
down once: it is armed when the use-count drops to zero and disarmed when it
rises again. Times and periods are in nanoseconds.

**The clock.** Setting the timer clears an expiry that nobody has taken notice
of. The system takes the whole seconds of a period as a signed word of 64 bits
and refuses negative ones.

**Results.**
* `isArmed_update`: after an update the timer is armed exactly if the count is
  zero.
* `deadline_update_zero_of_armed`: an armed timer keeps its deadline.
* `acknowledge_fst_iff`: an expiry is reported exactly if a deadline has passed.
-/

namespace LineKeeper

/-- What an update did to the timer. -/
inductive Transition
  | armed
  | disarmed
  | unchanged
deriving DecidableEq, Repr

namespace Transition

/-- What has to be done at this use-count. -/
def next : Bool → Nat → Transition
  | false, 0 => armed
  | true, _ + 1 => disarmed
  | _, _ => unchanged

/-- The name of a transition. -/
def name : Transition → String
  | armed => "armed"
  | disarmed => "disarmed"
  | unchanged => "unchanged"

end Transition

/-- Nanoseconds in a second. -/
def nanosPerSecond : Nat := 1000000000

/-- Nanoseconds in a millisecond. -/
def nanosPerMilli : Nat := 1000000

/-- A timer that counts its period down once. The deadline is there from arming until the expiry
is acknowledged or the timer disarmed. -/
structure IdleTimer where
  period : Nat
  isArmed : Bool
  deadline : Option Nat
deriving DecidableEq, Repr

namespace IdleTimer

/-- A disarmed timer. The shortest period is a millisecond. -/
def ofPeriod (period : Nat) : IdleTimer :=
  ⟨max period nanosPerMilli, false, none⟩

/-- Can the system count this period down? -/
def canSet (period : Nat) : Bool :=
  decide (0 ≤ (Int64.ofNat (period / nanosPerSecond)).toInt)

/-- Arms or disarms the timer for this use-count. -/
def update (t : IdleTimer) (now useCount : Nat) : Except Errno (Transition × IdleTimer) :=
  match Transition.next t.isArmed useCount with
  | .armed =>
      if canSet t.period then
        .ok (.armed, { t with isArmed := true, deadline := some (now + t.period) })
      else .error Errno.invalidArgument
  | .disarmed => .ok (.disarmed, { t with isArmed := false, deadline := none })
  | .unchanged => .ok (.unchanged, t)

/-- Has the timer expired, without anyone having taken notice? -/
def hasExpired (t : IdleTimer) (now : Nat) : Bool :=
  t.deadline.any fun d => decide (d ≤ now)

/-- Takes notice of an expiry, if there is one. -/
def acknowledge (t : IdleTimer) (now : Nat) : Bool × IdleTimer :=
  if t.hasExpired now then (true, { t with isArmed := false, deadline := none })
  else (false, t)

theorem isArmed_update {t t' : IdleTimer} {now n : Nat} {tr : Transition}
    (h : t.update now n = .ok (tr, t')) : t'.isArmed = decide (n = 0) := by
  simp only [update] at h
  rcases hb : t.isArmed with _ | _ <;> rcases n with _ | n <;>
    simp only [hb, Transition.next] at h
  · split at h
    · cases h; rfl
    · cases h
  · cases h; simp [hb]
  · cases h; simp [hb]
  · cases h; simp

theorem deadline_update_zero_of_armed {t : IdleTimer} (now : Nat) (h : t.isArmed = true) :
    t.update now 0 = .ok (.unchanged, t) := by
  simp [update, h, Transition.next]

theorem acknowledge_fst_iff {t : IdleTimer} {now : Nat} :
    (t.acknowledge now).1 = true ↔ ∃ d, t.deadline = some d ∧ d ≤ now := by
  cases hd : t.deadline with
  | none => simp [acknowledge, hasExpired, hd]
  | some d => by_cases h : d ≤ now <;> simp [acknowledge, hasExpired, hd, h]

end IdleTimer
end LineKeeper
