import LineKeeper.Proofs.Fairness
import LineKeeper.Proofs.LineOrders
import LineKeeper.Proofs.WaitingClients

/-!
# Why a server stops

There are three reasons for a server to stop, and each is met in an event that it handles
(`MeetsNext`): a STOP that it reads, a terminating signal that waits, and the expiry of its
timer while nobody uses it.  If several signals wait, the one with the lowest number counts.

**Invariant.** Only terminating signals wait (`Played.terminating`), and each of them waits
until the event of the signals is handled (`signals_step`).

**Results.**
* `Played.stop_step_iff`: a server that has no reason to stop gets one exactly if its next step
  meets it.
* `Fair.heeds`: a server that has its turn again and again does not pass over a signal.
* `stopRule`: so the first reason that is met is the one for which the server ends, whatever
  happens then.
-/

namespace LineKeeper

namespace PendingSignals

variable {p : PendingSignals} {s other : Signal}

section Taking

theorem mem_raise_self (hs : s.isTerminating = true) : s ∈ (p.raise s).waiting := by
  unfold raise
  split
  · exact List.mem_append_right _ List.mem_cons_self
  · next hknown =>
    rw [hs, Bool.true_and, Bool.not_eq_true, Bool.not_eq_false'] at hknown
    exact List.contains_iff_mem.mp hknown

theorem mem_raise_of_mem (h : other ∈ p.waiting) : other ∈ (p.raise s).waiting := by
  unfold raise
  split
  · exact List.mem_append_left _ h
  · exact h

theorem mem_of_mem_raise (h : other ∈ (p.raise s).waiting) :
    other ∈ p.waiting ∨ other.isTerminating = true := by
  unfold raise at h
  split at h
  · next hnew =>
    rcases List.mem_append.mp h with hold | hlast
    · exact .inl hold
    · rw [List.mem_singleton.mp hlast]
      exact .inr (Bool.and_eq_true_iff.mp hnew).1
  · exact .inl h

/-- A signal is its number. -/
theorem signal_eq_of_number (h : s.number = other.number) : s = other := by
  cases s
  cases other
  cases h
  rfl

/-- The signal that is taken waits, and no signal with a lower number does. -/
theorem least_of_take (hp : ∀ s ∈ p.waiting, s.isTerminating = true) (h : p.take.1 = some s) :
    s ∈ p.waiting ∧ ∀ other ∈ p.waiting, s.number ≤ other.number := by
  have hsorted : Signal.terminating.Pairwise fun a b => a.number ≤ b.number := by decide
  obtain ⟨hs, as, bs, hsplit, hbefore⟩ := List.find?_eq_some_iff_append.mp h
  refine ⟨List.contains_iff_mem.mp hs, fun other hother => ?_⟩
  have hmem : other ∈ Signal.terminating := List.contains_iff_mem.mp (hp other hother)
  rw [hsplit] at hmem hsorted
  rcases List.mem_append.mp hmem with hearlier | hlater
  · have hno := hbefore other hearlier
    rw [List.contains_iff_mem.mpr hother] at hno
    cases hno
  · rcases List.mem_cons.mp hlater with rfl | hlater
    · exact Nat.le_refl _
    · exact List.rel_of_pairwise_cons (List.pairwise_append.mp hsorted).2.1 hlater

theorem exists_take_of_mem (hp : ∀ s ∈ p.waiting, s.isTerminating = true) (hs : s ∈ p.waiting) :
    ∃ first, p.take.1 = some first := by
  have hsome : (Signal.terminating.find? p.waiting.contains).isSome = true :=
    List.find?_isSome.mpr ⟨s, List.contains_iff_mem.mp (hp s hs), List.contains_iff_mem.mpr hs⟩
  exact Option.isSome_iff_exists.mp hsome

theorem take_of_least (hp : ∀ s ∈ p.waiting, s.isTerminating = true) (hs : s ∈ p.waiting)
    (hleast : ∀ other ∈ p.waiting, s.number ≤ other.number) : p.take.1 = some s := by
  obtain ⟨first, htake⟩ := exists_take_of_mem hp hs
  obtain ⟨hfirst, hlower⟩ := least_of_take hp htake
  rw [htake, signal_eq_of_number (Nat.le_antisymm (hlower s hs) (hleast first hfirst))]

end Taking

end PendingSignals

namespace Server

variable {s t : Server} {e : Readiness} {job : Option Job} {signal : Signal}

section Signals

theorem takeSignals_eq (s : Server) :
    s.takeSignals.signals = PendingSignals.empty ∧
      s.takeSignals.stop = match s.signals.take.1 with
        | none => s.stop
        | some signal => some (.signal signal) := by
  unfold takeSignals
  split
  · next h =>
    rw [h]
    exact ⟨congrArg Prod.snd h.symm, rfl⟩
  · next h =>
    rw [h]
    exact ⟨congrArg Prod.snd h.symm, rfl⟩

/-- Only the event of the signals takes signals. -/
theorem Begins.signals (h : Begins s e t job)
    (htoken : Receiver.ofToken? e.token ≠ some .signals) : t.signals = s.signals := by
  cases h with
  | accepted _ => exact s.reception.signals
  | signalled hsignals => exact absurd hsignals htoken
  | timed _ => exact signals_takeExpiry s
  | @heard id session r hs _ =>
      exact ((confined_afterReading hs r).trans (hearing _ id session.peer r).confined).signals
  | left report _ _ hs _ _ => exact (confined_afterLeaving hs report).signals
  | nothing _ _ => rfl
  | stray _ => rfl

end Signals

end Server

namespace Loop

open Server

variable {l : Loop} {chips : Chips} {period : Nat} {a : Action} {why : Stop} {s : Signal}
  {client : ClientId} {bs : List Action}

section Waiting

/-- The next step handles the event of the signals. -/
structure TakesNext (l : Loop) : Prop where
  ending : l.ending = none
  job : l.job = none
  stop : l.server.stop = none
  batch : ∃ e es, l.phase = .handling (e :: es) ∧ Receiver.ofToken? e.token = some .signals

theorem TakesNext.takes (h : TakesNext l) :
    l.step.ending = none ∧ l.step.server = l.server.takeSignals := by
  obtain ⟨e, es, hphase, htoken⟩ := h.batch
  have hstep : l.step =
      ({ l with phase := .handling es, job := none }).withServer l.server.takeSignals := by
    simp only [Loop.step, h.ending, h.job, hphase, h.stop, begin, htoken, Option.isSome_none,
      Bool.false_eq_true, if_false]
  rw [hstep]
  exact ⟨h.ending, rfl⟩

/-- What waits does so until the event of the signals is handled, or the server ends. -/
theorem signals_step (hend : l.step.ending = none) :
    l.step.server.signals = l.server.signals ∨ TakesNext l := by
  obtain ⟨hm, -⟩ | ⟨job, -, -, -, hm⟩ | ⟨-, -, -, hm⟩ | ⟨e, es, -, -, -, -, hm⟩ |
      ⟨e, es, hend', hjob, hphase, hstop, hbegins, -⟩ | ⟨why, -, -, -, -, hm⟩ |
      ⟨s, -, -, -, -, hupdate, hm⟩ | ⟨e, -, -, -, -, -, hm⟩ := l.steps
  · exact .inl (by rw [hm])
  · rw [hm]
    exact .inl (confined_finish l.server job).signals
  · exact .inl (by rw [hm]; rfl)
  · exact .inl (by rw [hm])
  · by_cases htoken : Receiver.ofToken? e.token = some .signals
    · exact .inr ⟨hend', hjob, hstop, e, es, hphase, htoken⟩
    · exact .inl (hbegins.signals htoken)
  · rw [hm] at hend
    cases hend
  · rw [hm]
    exact .inl (sameClients_updateIdle hupdate).signals
  · rw [hm] at hend
    cases hend

/-- Only terminating signals wait. -/
theorem Played.terminating (h : Played chips period l) (hend : l.ending = none) :
    ∀ s ∈ l.server.signals.waiting, s.isTerminating = true := by
  revert hend
  refine h.induction (P := fun l => l.ending = none →
    ∀ s ∈ l.server.signals.waiting, s.isTerminating = true) (by rintro - s ⟨⟩) ?_
  intro l a _ ih hend s hs
  by_cases ha : a = .serve
  · subst ha
    change s ∈ l.step.server.signals.waiting at hs
    rcases signals_step hend with hsame | htakes
    · rw [hsame] at hs
      refine ih ?_ s hs
      rw [← Option.not_isSome_iff_eq_none]
      intro hended
      rw [show l.act .serve = l.step from rfl, step_of_ending hended] at hend
      rw [hend] at hended
      cases hended
    · rw [htakes.takes.2, l.server.takeSignals_eq.1] at hs
      cases hs
  · have hbefore := ih ((around_act l ha).ending.symm.trans hend)
    by_cases hraise : ∃ signal, a = .raise signal
    · obtain ⟨signal, rfl⟩ := hraise
      exact (PendingSignals.mem_of_mem_raise hs).elim (hbefore s) id
    · rw [signals_act l ha fun signal h => hraise ⟨signal, h⟩] at hs
      exact hbefore s hs

end Waiting

section Meeting

/-- The reason to stop that the next step meets, in the event that it handles. -/
inductive MeetsNext (l : Loop) : Stop → Prop
  | requested (client : ClientId) (hheard : l.hears? = some (client, .ok .stop)) :
      MeetsNext l (.requested client)
  | signal (s : Signal) (htakes : TakesNext l) (hwaits : s ∈ l.server.signals.waiting)
      (hleast : ∀ other ∈ l.server.signals.waiting, s.number ≤ other.number) :
      MeetsNext l (.signal s)
  | idle (h : IdlesNext l) : MeetsNext l .idle

theorem TakesNext.meets (h : TakesNext l) (hl : Played chips period l)
    (hstop : l.step.server.stop = some why) : MeetsNext l why := by
  rw [h.takes.2, l.server.takeSignals_eq.2] at hstop
  cases htake : l.server.signals.take.1 with
  | none =>
      rw [htake, h.stop] at hstop
      cases hstop
  | some s =>
      rw [htake] at hstop
      obtain rfl := Option.some.inj hstop
      obtain ⟨hwaits, hleast⟩ := PendingSignals.least_of_take (hl.terminating h.ending) htake
      exact .signal s h hwaits hleast

/-- A signal that waits as the event of the signals is handled is met, or one that counts more. -/
theorem TakesNext.meets_first (h : TakesNext l) (hl : Played chips period l)
    (hs : s ∈ l.server.signals.waiting) : ∃ first, MeetsNext l (.signal first) := by
  have hterminating := hl.terminating h.ending
  obtain ⟨first, htake⟩ := PendingSignals.exists_take_of_mem hterminating hs
  obtain ⟨hwaits, hleast⟩ := PendingSignals.least_of_take hterminating htake
  exact ⟨first, .signal first h hwaits hleast⟩

theorem MeetsNext.stops (h : MeetsNext l why) (hl : Played chips period l) :
    l.step.ending = none ∧ l.step.server.stop = some why := by
  cases h with
  | requested client hheard =>
      obtain ⟨hend, -, -, e, es, session, -, -, -, hstep⟩ := eq_of_hears? hheard
      rw [hstep]
      exact ⟨hend, rfl⟩
  | signal s htakes hwaits hleast =>
      have htake := PendingSignals.take_of_least (hl.terminating htakes.ending) hwaits hleast
      obtain ⟨hend, hserver⟩ := htakes.takes
      refine ⟨hend, ?_⟩
      rw [hserver, l.server.takeSignals_eq.2, htake]
  | idle h => exact h.stops

/-- A server that has no reason to stop gets one exactly if its next step meets it. -/
theorem Played.stop_step_iff (hl : Played chips period l) (hstop : l.server.stop = none) :
    l.step.server.stop = some why ↔ MeetsNext l why := by
  refine ⟨fun hwhy => ?_, fun h => (h.stops hl).2⟩
  obtain ⟨e, es, hend, hjob, hphase, hbegins⟩ := exists_begins_of_stop hstop hwhy
  generalize ht : l.step.server = t at hbegins
  generalize l.step.job = job at hbegins
  have hkept : t.stop ≠ l.server.stop := by
    rw [← ht, hwhy, hstop]
    rintro ⟨⟩
  cases hbegins with
  | accepted _ => exact absurd l.server.reception.stop hkept
  | signalled htoken => exact TakesNext.meets ⟨hend, hjob, hstop, e, es, hphase, htoken⟩ hl hwhy
  | timed _ =>
      rcases l.server.takeExpiry_cases.1 with hsame | ⟨hidle, -⟩
      · exact absurd hsame hkept
      · obtain rfl : .idle = why := by
          rw [ht, hidle] at hwhy
          exact Option.some.inj hwhy
        exact .idle ((idlesNext_iff hend hstop).mp hwhy)
  | @heard id session r hs hr =>
      by_cases hread : r = .ok .stop
      · subst hread
        obtain rfl : .requested id = why := by
          rw [ht] at hwhy
          exact Option.some.inj hwhy
        exact .requested id (by simp only [hears?, hend, hjob, hstop, hphase, hr])
      · exact absurd (causes_dispatch _ id session.peer hread).2 hkept
  | left _ _ _ _ _ _ => exact absurd (stop_dropClient _ _) hkept
  | nothing _ _ => exact absurd rfl hkept
  | stray _ => exact absurd rfl hkept

/-- A signal that waits does so until a step meets a signal, or the server ends. -/
theorem Played.waits (hl : Played chips period l) (hs : s ∈ l.server.signals.waiting)
    (a : Action) (hend : (l.act a).ending = none) :
    s ∈ (l.act a).server.signals.waiting ∨ a = .serve ∧ ∃ first, MeetsNext l (.signal first) := by
  by_cases ha : a = .serve
  · subst ha
    show s ∈ l.step.server.signals.waiting ∨ _
    rcases signals_step hend with hsame | htakes
    · exact .inl (hsame ▸ hs)
    · exact .inr ⟨rfl, htakes.meets_first hl hs⟩
  · left
    by_cases hraise : ∃ signal, a = .raise signal
    · obtain ⟨signal, rfl⟩ := hraise
      exact PendingSignals.mem_raise_of_mem hs
    · rw [signals_act l ha fun signal h => hraise ⟨signal, h⟩]
      exact hs

end Meeting

section Heeding

variable {σ : Nat → Action}

/-- A server that has its turn again and again meets a signal that waits, if it has not met another
reason to stop or ended before. -/
theorem Fair.heeds (h : Fair l σ) (hl : Played chips period l)
    (hs : s ∈ l.server.signals.waiting)
    (hbound : ∀ n, (l.playFor σ n).server.net.links.length < 2 ^ 64 - 16) :
    ∃ n, (l.playFor σ n).server.stop.isSome = true ∨ (l.playFor σ n).ending.isSome = true := by
  by_contra hnever
  have hplayed : ∀ n, Played chips period (l.playFor σ n) := fun n => hl.play _
  have hruns : ∀ n, (l.playFor σ n).server.stop = none ∧ (l.playFor σ n).ending = none := by
    intro n
    rw [← Option.not_isSome_iff_eq_none, ← Option.not_isSome_iff_eq_none, ← not_or]
    exact fun hn => hnever ⟨n, hn⟩
  have hunmet : ∀ n why, σ n = .serve → ¬ MeetsNext (l.playFor σ n) why := by
    intro n why hserves hmeets
    have hstop := (hmeets.stops (hplayed n)).2
    have hnone := (hruns (n + 1)).1
    rw [playFor_succ, hserves] at hnone
    cases hnone.symm.trans hstop
  have hwaits : ∀ n, s ∈ (l.playFor σ n).server.signals.waiting := by
    intro n
    induction n with
    | zero => exact hs
    | succ n ih =>
        have hend := (hruns (n + 1)).2
        rw [playFor_succ] at hend ⊢
        refine ((hplayed n).waits ih (σ n) hend).resolve_right ?_
        rintro ⟨hserves, first, hmeets⟩
        exact hunmet n _ hserves hmeets
  have hawaits : ∀ n, Awaits (l.playFor σ n) Receiver.signals.token := by
    intro n
    obtain ⟨hstop, hend⟩ := hruns n
    obtain ⟨_, hatt⟩ := ((hplayed n).sound (Nat.le_of_lt (hbound n))).attentive hend
    have hwatched : Receiver.signals.token ∈ (l.playFor σ n).server.watched := by
      rw [((hplayed n).registered (hbound n)).1.watched]
      exact List.mem_map_of_mem (List.mem_append_right _ List.mem_cons_self)
    have hready : isReady (l.playFor σ n).server Receiver.signals.token = true := by
      have hnonempty := List.isEmpty_eq_false_iff.mpr (List.ne_nil_of_mem (hwaits n))
      show (!(l.playFor σ n).server.signals.waiting.isEmpty) = true
      rw [hnonempty]
      rfl
    exact ⟨hend, hstop, hwatched, hready, hatt.lists _ hwatched hready⟩
  obtain ⟨n, -, hserves, hjob, e, es, hphase, he⟩ := h.reaches fun n (_ : 0 ≤ n) => hawaits n
  obtain ⟨hstop, hend⟩ := hruns n
  have htakes : TakesNext (l.playFor σ n) := ⟨hend, hjob, hstop, e, es, hphase, he ▸ rfl⟩
  obtain ⟨first, hmeets⟩ := htakes.meets_first (hplayed n) (hwaits n)
  exact hunmet n _ hserves hmeets

end Heeding

section Rule

/-- Why a server stops, and how it ends. -/
structure StopRule (chips : Chips) (period : Nat) : Prop where
  /-- A server that has no reason to stop gets one exactly if its next step meets it. -/
  meets : ∀ l, Played chips period l → l.server.stop = none → ∀ why,
    l.step.server.stop = some why ↔ MeetsNext l why
  /-- A STOP that a client has written is met when the event of the client is handled. -/
  written : ∀ (l : Loop) (client : ClientId), l.Brings client .stop →
    MeetsNext l (.requested client)
  /-- A terminating signal that arrives waits. -/
  arrives : ∀ (l : Loop) (s : Signal), s.isTerminating = true →
    s ∈ (l.act (.raise s)).server.signals.waiting
  /-- It does so until a step meets a signal, or the server ends. -/
  waits : ∀ l, Played chips period l → ∀ s ∈ l.server.signals.waiting, ∀ a,
    (l.act a).ending = none → s ∈ (l.act a).server.signals.waiting ∨
      a = .serve ∧ ∃ first, MeetsNext l (.signal first)
  /-- A server that has its turn again and again, and fewer connections than there are tokens, does
  not pass over it, so it stops for it or for another reason or has ended. -/
  heeds : ∀ l, Played chips period l → ∀ s ∈ l.server.signals.waiting, ∀ σ, Fair l σ →
    (∀ n, (l.playFor σ n).server.net.links.length < 2 ^ 64 - 16) →
      ∃ n, (l.playFor σ n).server.stop.isSome = true ∨ (l.playFor σ n).ending.isSome = true
  /-- A server that meets a reason shows it and ends for it, whatever happens then. -/
  ends : ∀ l, Played chips period l → ∀ why, MeetsNext l why → ∀ bs,
    l.step.server.causes = [why] ∧ EndsFor why l.step bs
  /-- What a server shows is the one reason that it has met, if any, and it ends for it. -/
  shows : ∀ l, Played chips period l → l.server.causes = l.server.stop.toList ∧
    (l.ending = none → ∀ why ∈ l.server.causes, ∀ bs, EndsFor why l bs)

theorem stopRule (chips : Chips) (period : Nat) : StopRule chips period where
  meets := fun _ hl hstop _ => hl.stop_step_iff hstop
  written := fun _ client h => .requested client h.hears?
  arrives := fun _ _ => PendingSignals.mem_raise_self
  waits := fun _ hl _ hs a => hl.waits hs a
  heeds := fun _ hl _ hs _ hfair hbound => hfair.heeds hl hs hbound
  ends := by
    intro l hl why h bs
    obtain ⟨hend, hstop⟩ := h.stops hl
    refine ⟨?_, finishes_of_stop hl.step hstop hend bs⟩
    rw [hl.step.causes, hstop]
    rfl
  shows := fun _ hl => ⟨hl.causes, fun hend _ hwhy bs => hl.shuts_down hwhy hend bs⟩

/-- A client has sent a STOP as a signal arrives, and both are reported. -/
def stopping : Loop :=
  (start Chips.twoLines 0).play [.serve, .connect (.usual ⟨0, 0, ""⟩), .serve, .serve, .serve,
    .send 0 Message.stop.encode, .raise Signal.terminate, .serve]

/-- Two signals have arrived at a server that nobody uses. -/
def signalled : Loop :=
  (start Chips.twoLines 0).play
    [.serve, .raise Signal.terminate, .raise Signal.interrupt, .serve]

/-- The STOP is handled first, so the signal is not.  Of two signals the one with the lower number
counts. -/
theorem stopping_signalled_stopRule :
    MeetsNext stopping (.requested ⟨0⟩) ∧
      stopping.phase = .handling [⟨16, false⟩, ⟨Receiver.signals.token, false⟩] ∧
      (∃ as cs, [.serve, .serve] = as ++ .serve :: cs ∧ as.count .serve ≤ 1 ∧
        Halted stopping.step (stopping.step.play as) ∧
        Finished (.requested ⟨0⟩) (stopping.step.play as) (stopping.step.play [.serve, .serve])) ∧
      MeetsNext signalled (.signal Signal.interrupt) ∧
      signalled.step.server.causes = [.signal Signal.interrupt] ∧
      EndsFor (.signal Signal.interrupt) signalled.step [.serve] := by
  have hrule : StopRule Chips.twoLines 0 := stopRule Chips.twoLines 0
  have hstopping : Played Chips.twoLines 0 stopping := ⟨_, rfl⟩
  have hsignalled : Played Chips.twoLines 0 signalled := ⟨_, rfl⟩
  have hrequested : MeetsNext stopping (.requested ⟨0⟩) :=
    (hrule.meets stopping hstopping (by decide +kernel) _).mp (by decide +kernel)
  have hsignal : MeetsNext signalled (.signal Signal.interrupt) :=
    (hrule.meets signalled hsignalled (by decide +kernel) _).mp (by decide +kernel)
  obtain ⟨hcauses, hends⟩ := hrule.ends signalled hsignalled _ hsignal [.serve]
  refine ⟨hrequested, by decide +kernel, ?_, hsignal, hcauses, hends⟩
  rcases (hrule.ends stopping hstopping _ hrequested [.serve, .serve]).2 with ⟨hcount, -⟩ | h
  · exact absurd hcount (by decide)
  · exact h

end Rule

end Loop
end LineKeeper
