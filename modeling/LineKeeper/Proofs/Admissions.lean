import LineKeeper.Proofs.Acceptance
import LineKeeper.Proofs.Steps

/-!
# Which connections the steps of the loop accept

A step that handles the event of the listening socket accepts the connection at the head
of the line, or tries to (`Loop.accepts?`).  Where that begins a session, an identifier is
used up (`Loop.draws?`), and where the session lasts, its client is admitted
(`Loop.seats?`).

**Results.**
* `accept_of_accepts?`: what such a step does.
* `draws?_of_seats?`: whoever is admitted gets an identifier of its own.
* `received`: what becomes of the connection, case by case.
-/

namespace LineKeeper

namespace Origin

/-- The next attempt to accept the connection begins a session that lasts. -/
def isAdmitted (o : Origin) : Bool :=
  o.failures.isEmpty && o.admission = .admitted

/-- The next attempt to accept the connection uses up an identifier. -/
def isNumbered (o : Origin) : Bool :=
  o.failures.isEmpty &&
    match o.admission with
    | .admitted => true
    | .unregistered _ => true
    | _ => false

variable {o : Origin}

theorem isAdmitted_iff : o.isAdmitted = true ↔ o.failures = [] ∧ o.admission = .admitted := by
  simp [isAdmitted]

theorem isNumbered_of_isAdmitted (h : o.isAdmitted = true) : o.isNumbered = true := by
  obtain ⟨hlast, hadmission⟩ := isAdmitted_iff.mp h
  simp [isNumbered, hlast, hadmission]

end Origin

namespace Loop

open Server

variable {l : Loop} {id : ClientId} {k : Nat} {ks : List Nat}

section Accepting

/-- The connection that the next step accepts, or tries to. -/
def accepts? (l : Loop) : Option Nat :=
  match l.ending, l.job, l.server.stop, l.phase with
  | none, none, none, .handling (e :: _) =>
      match Receiver.ofToken? e.token with
      | some .listener => l.server.net.waiting.head?
      | _ => none
  | _, _, _, _ => none

/-- Who gets an identifier in the next step, and the number of the link. -/
def draws? (l : Loop) : Option (ClientId × Nat) :=
  match l.accepts? with
  | some k =>
      if (l.server.net.originOf k).isNumbered then some (l.server.sessions.next, k) else none
  | none => none

/-- Who is admitted in the next step, and the number of the link. -/
def seats? (l : Loop) : Option (ClientId × Nat) :=
  match l.accepts? with
  | some k =>
      if (l.server.net.originOf k).isAdmitted then some (l.server.sessions.next, k) else none
  | none => none

theorem eq_of_accepts? (h : l.accepts? = some k) :
    l.ending = none ∧ l.job = none ∧ l.server.stop = none ∧ ∃ e es ks,
      l.phase = .handling (e :: es) ∧ Receiver.ofToken? e.token = some .listener ∧
      l.server.net.waiting = k :: ks := by
  unfold accepts? at h
  split at h
  · next e es hend hjob hstop hphase =>
    split at h
    · next htoken =>
      obtain ⟨ks, hwaiting⟩ := List.head?_eq_some_iff.mp h
      exact ⟨hend, hjob, hstop, e, es, ks, hphase, htoken, hwaiting⟩
    · cases h
  · cases h

theorem accepts?_of_token {e : Readiness} {es : List Readiness} (hend : l.ending = none)
    (hjob : l.job = none) (hstop : l.server.stop = none) (hphase : l.phase = .handling (e :: es))
    (htoken : Receiver.ofToken? e.token = some .listener) :
    l.accepts? = l.server.net.waiting.head? := by
  simp only [accepts?, hend, hjob, hstop, hphase, htoken]

/-- If nobody waits in line, the event of the listener changes nothing. -/
theorem accept_of_nobody {e : Readiness} {es : List Readiness} (hend : l.ending = none)
    (hjob : l.job = none) (hstop : l.server.stop = none) (hphase : l.phase = .handling (e :: es))
    (htoken : Receiver.ofToken? e.token = some .listener) (h : l.accepts? = none) :
    l.server.accept = l.server := by
  rw [accepts?_of_token hend hjob hstop hphase htoken, List.head?_eq_none_iff] at h
  simp only [accept, h]

/-- The step that accepts a connection does nothing else. -/
theorem accept_of_accepts? (h : l.accepts? = some k) :
    l.step.ending = none ∧ l.step.job = none ∧ l.step.server = l.server.accept := by
  obtain ⟨hend, hjob, hstop, e, es, ks, hphase, htoken, -⟩ := eq_of_accepts? h
  have hstep : l.step = ({ l with phase := .handling es, job := none }).withServer
      l.server.accept := by
    simp only [step, hend, hjob, hphase, hstop, begin, htoken, Option.isSome_none,
      Bool.false_eq_true, if_false]
  rw [hstep]
  exact ⟨hend, rfl, rfl⟩

theorem eq_of_draws? (h : l.draws? = some (id, k)) :
    l.accepts? = some k ∧ id = l.server.sessions.next ∧
      (l.server.net.originOf k).isNumbered = true := by
  unfold draws? at h
  split at h
  · next haccepts =>
    split at h
    · next hnumbered =>
      obtain ⟨rfl, rfl⟩ := Prod.mk.inj (Option.some.inj h)
      exact ⟨haccepts, rfl, hnumbered⟩
    · cases h
  · cases h

theorem eq_of_seats? (h : l.seats? = some (id, k)) :
    l.accepts? = some k ∧ id = l.server.sessions.next ∧
      (l.server.net.originOf k).isAdmitted = true := by
  unfold seats? at h
  split at h
  · next haccepts =>
    split at h
    · next hadmitted =>
      obtain ⟨rfl, rfl⟩ := Prod.mk.inj (Option.some.inj h)
      exact ⟨haccepts, rfl, hadmitted⟩
    · cases h
  · cases h

theorem draws?_of_numbered (haccepts : l.accepts? = some k)
    (hnumbered : (l.server.net.originOf k).isNumbered = true) :
    l.draws? = some (l.server.sessions.next, k) := by
  simp only [draws?, haccepts, hnumbered, if_true]

theorem draws?_of_none (h : l.accepts? = none) : l.draws? = none := by
  simp only [draws?, h]

/-- Whoever is admitted gets an identifier. -/
theorem draws?_of_seats? (h : l.seats? = some (id, k)) : l.draws? = some (id, k) := by
  obtain ⟨haccepts, rfl, hadmitted⟩ := eq_of_seats? h
  simp only [draws?, haccepts, Origin.isNumbered_of_isAdmitted hadmitted, if_true]

/-- Nothing is accepted in a step that handles no event. -/
theorem accepts?_of_phase (h : ∀ e es, l.phase ≠ .handling (e :: es)) : l.accepts? = none := by
  rw [Option.eq_none_iff_forall_ne_some]
  intro k hk
  obtain ⟨-, -, -, e, es, -, hphase, -⟩ := eq_of_accepts? hk
  exact h e es hphase

end Accepting

section Receiving

/-- What becomes of the connection that a step accepts, or tries to. -/
inductive Received (l : Loop) (k : Nat) : Prop
  | failed (ks : List Nat) (errno : Errno) (hwaiting : l.server.net.waiting = k :: ks)
      (hdraws : l.draws? = none) (hseats : l.seats? = none)
      (hfails : (l.server.net.originOf k).failures.head? = some errno)
      (hserver : l.step.server = { l.server.log (.acceptFailed errno) with
        net := l.server.net.modify k Link.retried })
  | turnedAway (ks : List Nat) (report : LogEvent) (hwaiting : l.server.net.waiting = k :: ks)
      (hdraws : l.draws? = none) (hseats : l.seats? = none)
      (hserver : l.step.server = l.server.turnAway k ks report)
  | seatedBriefly (ks : List Nat) (errno : Errno) (hwaiting : l.server.net.waiting = k :: ks)
      (hdraws : l.draws? = some (l.server.sessions.next, k)) (hseats : l.seats? = none)
      (hserver : l.step.server =
        l.server.seatBriefly ⟨k, (l.server.net.originOf k).peer⟩ ks errno)
  | seated (ks : List Nat) (hwaiting : l.server.net.waiting = k :: ks)
      (hdraws : l.draws? = some (l.server.sessions.next, k))
      (hseats : l.seats? = some (l.server.sessions.next, k))
      (hserver : l.step.server = l.server.seat ⟨k, (l.server.net.originOf k).peer⟩ ks)

theorem received (h : l.accepts? = some k) : Received l k := by
  obtain ⟨-, -, -, -, -, ks, -, -, hwaiting⟩ := eq_of_accepts? h
  obtain ⟨-, -, hserver⟩ := accept_of_accepts? h
  have haccepts := l.server.accepts
  have hhead : ∀ {j : Nat} {js : List Nat}, l.server.net.waiting = j :: js → j = k ∧ js = ks := by
    intro j js hj
    exact List.cons.inj (hj.symm.trans hwaiting)
  rw [← hserver] at haccepts
  generalize ht : l.step.server = t at haccepts
  cases haccepts with
  | nobody hnone => cases hnone.symm.trans hwaiting
  | failed j js errno hj hfails =>
      obtain ⟨rfl, rfl⟩ := hhead hj
      have hfailing : (l.server.net.originOf j).failures.isEmpty = false := by
        obtain ⟨es, hes⟩ := List.head?_eq_some_iff.mp hfails
        rw [hes]
        rfl
      refine .failed js errno hj ?_ ?_ hfails ht
      · simp [draws?, h, Origin.isNumbered, hfailing]
      · simp [seats?, h, Origin.isAdmitted, hfailing]
  | turnedAway j js report hj hlast hreport =>
      obtain ⟨rfl, rfl⟩ := hhead hj
      refine .turnedAway js report hj ?_ ?_ ht
      · rcases hreport with ⟨_, -, hadmission⟩ | ⟨_, -, hadmission⟩ <;>
          simp [draws?, h, Origin.isNumbered, hadmission]
      · rcases hreport with ⟨_, -, hadmission⟩ | ⟨_, -, hadmission⟩ <;>
          simp [seats?, h, Origin.isAdmitted, hadmission]
  | seatedBriefly j js errno hj hlast hadmission =>
      obtain ⟨rfl, rfl⟩ := hhead hj
      refine .seatedBriefly js errno hj ?_ ?_ ht
      · simp [draws?, h, Origin.isNumbered, hlast, hadmission]
      · simp [seats?, h, Origin.isAdmitted, hadmission]
  | seated j js hj hlast hadmission =>
      obtain ⟨rfl, rfl⟩ := hhead hj
      refine .seated js hj ?_ ?_ ht
      · simp [draws?, h, Origin.isNumbered, hlast, hadmission]
      · simp [seats?, h, Origin.isAdmitted, hlast, hadmission]

/-- Who is admitted has a session, and its link is not touched. -/
theorem seat_of_seats? (h : l.seats? = some (id, k)) :
    id = l.server.sessions.next ∧ ∃ ks, l.server.net.waiting = k :: ks ∧
      l.step.server = l.server.seat ⟨k, (l.server.net.originOf k).peer⟩ ks := by
  obtain ⟨haccepts, hid, -⟩ := eq_of_seats? h
  refine ⟨hid, ?_⟩
  cases received haccepts with
  | seated ks hwaiting _ _ hserver => exact ⟨ks, hwaiting, hserver⟩
  | failed _ _ _ _ hseats _ _ => cases hseats.symm.trans h
  | turnedAway _ _ _ _ hseats _ => cases hseats.symm.trans h
  | seatedBriefly _ _ _ _ hseats _ => cases hseats.symm.trans h

end Receiving

end Loop
end LineKeeper
