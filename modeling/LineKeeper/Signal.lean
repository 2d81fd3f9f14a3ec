/-!
# Signals

Three signals ask the server to end: SIGINT, SIGQUIT and SIGTERM. They wait, each
at most once, until the server looks for them, and are then taken in the order of
their numbers. Other signals mean nothing to it.

**Results.**
* `raise_of_not_terminating`: a signal that does not end the server does not wait.
* `take_snd`: looking for signals leaves none behind.
-/

namespace LineKeeper

/-- A signal, by its number. -/
structure Signal where
  number : Nat
  positive : 1 ≤ number
  atMost : number ≤ 31
deriving DecidableEq, Repr

namespace Signal

/-- The names of the signals, from number one on. -/
def names : List String :=
  ["SIGHUP", "SIGINT", "SIGQUIT", "SIGILL", "SIGTRAP", "SIGABRT", "SIGBUS", "SIGFPE",
    "SIGKILL", "SIGUSR1", "SIGSEGV", "SIGUSR2", "SIGPIPE", "SIGALRM", "SIGTERM", "SIGSTKFLT",
    "SIGCHLD", "SIGCONT", "SIGSTOP", "SIGTSTP", "SIGTTIN", "SIGTTOU", "SIGURG", "SIGXCPU",
    "SIGXFSZ", "SIGVTALRM", "SIGPROF", "SIGWINCH", "SIGIO", "SIGPWR", "SIGSYS"]

/-- The signal with a number. -/
def ofNumber? (n : Int) : Option Signal :=
  if h : 1 ≤ n.toNat ∧ n.toNat ≤ 31 then some ⟨n.toNat, h.1, h.2⟩ else none

/-- The name of a signal. -/
def name (s : Signal) : String :=
  names.get ⟨s.number - 1, by have := s.positive; have := s.atMost; simp [names]; omega⟩

/-- The signal with a name. -/
def ofName? (name : String) : Option Signal :=
  match names.findIdx? (· == name) with
  | some i => ofNumber? (Int.ofNat (i + 1))
  | none => none

/-- The interrupt from the keyboard. -/
def interrupt : Signal := ⟨2, by decide, by decide⟩

/-- The quit from the keyboard. -/
def quit : Signal := ⟨3, by decide, by decide⟩

/-- The request to terminate. -/
def terminate : Signal := ⟨15, by decide, by decide⟩

/-- The signal that suspends a process. -/
def suspend : Signal := ⟨19, by decide, by decide⟩

/-- The signal that lets a suspended process go on. -/
def resume : Signal := ⟨18, by decide, by decide⟩

/-- The signals that end the server, in the order of their numbers. -/
def terminating : List Signal :=
  [interrupt, quit, terminate]

/-- Does the signal end the server? -/
def isTerminating (s : Signal) : Bool :=
  terminating.contains s

end Signal

/-- The terminating signals that wait. -/
structure PendingSignals where
  waiting : List Signal
deriving DecidableEq, Repr

namespace PendingSignals

/-- No signal waits. -/
def empty : PendingSignals := ⟨[]⟩

/-- A signal arrives. It waits if it is a terminating one, and only once. -/
def raise (p : PendingSignals) (s : Signal) : PendingSignals :=
  if s.isTerminating && !p.waiting.contains s then ⟨p.waiting ++ [s]⟩ else p

/-- Does a signal wait? -/
def isReady (p : PendingSignals) : Bool :=
  !p.waiting.isEmpty

/-- Takes all that wait, and returns the one with the lowest number. -/
def take (p : PendingSignals) : Option Signal × PendingSignals :=
  (Signal.terminating.find? p.waiting.contains, empty)

theorem raise_of_not_terminating {p : PendingSignals} {s : Signal}
    (h : s.isTerminating = false) : p.raise s = p := by
  simp [raise, h]

@[simp] theorem take_snd (p : PendingSignals) : p.take.2 = empty := rfl

end PendingSignals

/-- Why a server ended. -/
inductive ShutdownReason
  | stopRequested
  | signal (s : Signal)
  | idleTimeout
deriving DecidableEq, Repr

namespace ShutdownReason

/-- How the reason is shown. -/
def display : ShutdownReason → String
  | stopRequested => "stop requested by client"
  | signal s => "signal " ++ s.name
  | idleTimeout => "idle timer expired"

end ShutdownReason
end LineKeeper
