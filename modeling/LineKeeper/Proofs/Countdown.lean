import LineKeeper.Proofs.TimerSteps

/-!
# The countdown of a server that nobody uses

The timer is brought up to date between batches, while the use-count changes within them.
That is enough, because a batch that begins without a client has no event of a client:  whoever
is admitted in it stays until the next turn, and that turn disarms the timer.

**Invariant.** `Counting`: as long as a deadline is set and the use-count is zero, a turn has set
it for a full period, and nobody has used the server since (`counting`).
-/

namespace LineKeeper

namespace Loop

open Server

variable {l m : Loop} {chips : Chips} {period P : Nat} {since since' : Nat → Prop}
  {as bs : List Action} {a : Action}

section Clock

/-- The server's steps take no time. -/
theorem now_step (l : Loop) : l.step.server.now = l.server.now := by
  obtain ⟨hm, -⟩ | ⟨job, -, -, -, hm⟩ | ⟨-, -, -, hm⟩ | ⟨e, es, -, -, -, -, hm⟩ |
      ⟨e, es, -, -, -, -, hbegins, -⟩ | ⟨why, -, -, -, -, hm⟩ | ⟨s, -, -, -, -, hupdate, hm⟩ |
      ⟨e, -, -, -, -, -, hm⟩ := l.steps
  · rw [hm]
  · rw [hm]
    exact (sameTimer_finish _ job).now
  · rw [hm]
    rfl
  · rw [hm]
  · exact hbegins.now
  · rw [hm]
    exact (sameTimer_drain _ why).now
  · rw [hm]
    exact (retimes hupdate).2
  · rw [hm]
    rfl

/-- The clock never goes back. -/
theorem now_le_act (l : Loop) (a : Action) : l.server.now ≤ (l.act a).server.now := by
  cases a with
  | serve => exact Nat.le_of_eq (now_step l).symm
  | pass nanos => exact Nat.le_add_right _ _
  | reorder ready =>
      simp only [act]
      split <;> exact Nat.le_refl _
  | _ => exact Nat.le_refl _

/-- Something happens around the server, also when it has ended, or the server takes a step. -/
theorem serve_or_around (l : Loop) (a : Action) :
    a = .serve ∧ l.ending = none ∨ Around l (l.act a) := by
  by_cases ha : a = .serve
  · subst ha
    cases hend : l.ending with
    | none => exact .inl ⟨rfl, rfl⟩
    | some e =>
        right
        show Around l l.step
        rw [step_of_ending (by rw [hend]; rfl)]
        exact Around.refl l
  · exact .inr (around_act l ha)

end Clock

section Spells

/-- The next step begins a turn. -/
structure TurnsNext (l : Loop) : Prop where
  ending : l.ending = none
  job : l.job = none
  phase : l.phase = .handling []
  stop : l.server.stop = none

theorem TurnsNext.step_eq (h : TurnsNext l) : l.step = l.beginTurn := by
  simp only [step, h.ending, h.job, h.phase, Option.isSome_none, Bool.false_eq_true, if_false]

theorem TurnsNext.step_of_ok {s : Server} (h : TurnsNext l) (hupdate : l.server.updateIdle = .ok s) :
    l.step = ({ l with phase := .waiting }).withServer s := by
  simp only [h.step_eq, beginTurn, h.stop, hupdate]

/-- Beginning a turn changes no use. -/
theorem TurnsNext.useCount (h : TurnsNext l) : l.step.server.useCount = l.server.useCount := by
  cases hupdate : l.server.updateIdle with
  | ok s =>
      rw [h.step_of_ok hupdate]
      exact useCount_congr (sameClients_updateIdle hupdate).sessions
        (quiet_updateIdle hupdate).requests
  | error e =>
      simp only [h.step_eq, beginTurn, h.stop, hupdate]
      rfl

/-- The next step begins a turn, finds that nobody uses the server, and sets its timer for a full
period. -/
structure Restarts (P : Nat) (l : Loop) : Prop where
  turns : TurnsNext l
  unused : l.server.Unused
  sets : l.step.server.idle.deadline = some (l.server.now + P)

/-- In the run from `l` a turn has set the timer for a period at a time, and nobody has used the
server since. -/
def UnusedSince (P : Nat) (l : Loop) (as : List Action) (t : Nat) : Prop :=
  ∃ bs cs, as = bs ++ .serve :: cs ∧ (l.play bs).server.now = t ∧ Restarts P (l.play bs) ∧
    ∀ ds, ds <+: cs → (l.play (bs ++ .serve :: ds)).server.Unused

theorem TurnsNext.unusedSince (h : TurnsNext (l.play as))
    (hsets : (l.play as).step.server.idle.deadline = some ((l.play as).step.server.now + P))
    (hzero : (l.play as).step.server.useCount = 0) :
    UnusedSince P l (as ++ [.serve]) (l.play as).step.server.now := by
  rw [now_step] at hsets ⊢
  refine ⟨as, [], rfl, rfl, ⟨h, unused_iff.mpr (h.useCount ▸ hzero), hsets⟩, ?_⟩
  intro ds hds
  rw [List.prefix_nil.mp hds, play_concat]
  exact unused_iff.mpr hzero

theorem UnusedSince.concat {t : Nat} (h : UnusedSince P l as t)
    (hlast : (l.play (as ++ [a])).server.Unused) : UnusedSince P l (as ++ [a]) t := by
  obtain ⟨bs, cs, rfl, ht, hrestarts, hunused⟩ := h
  refine ⟨bs, cs ++ [a], List.append_assoc bs (.serve :: cs) [a], ht, hrestarts, ?_⟩
  intro ds hds
  rcases List.prefix_concat_iff.mp hds with rfl | hds
  · rw [List.append_assoc] at hlast
    exact hlast
  · exact hunused ds hds

/-- A server that was in use is unused only since later. -/
theorem UnusedSince.later {t : Nat} (h : UnusedSince P l (as ++ bs) t)
    (hused : ¬ (l.play as).server.Unused) : UnusedSince P (l.play as) bs t := by
  obtain ⟨xs, ys, hsplit, ht, hrestarts, hunused⟩ := h
  rcases List.append_eq_append_iff.mp hsplit with ⟨zs, rfl, rfl⟩ | ⟨zs, rfl, hzs⟩
  · refine ⟨zs, ys, rfl, play_append l as zs ▸ ht, play_append l as zs ▸ hrestarts, ?_⟩
    intro ds hds
    rw [← play_append, ← List.append_assoc]
    exact hunused ds hds
  · exfalso
    cases zs with
    | nil =>
        rw [List.append_nil] at hused
        exact hused hrestarts.unused
    | cons z zs =>
        obtain ⟨rfl, rfl⟩ := List.cons.inj hzs
        exact hused (hunused zs (List.prefix_append zs bs))

end Spells

section Counting

/-- The server has not begun its first turn. -/
structure Unbegun (l : Loop) : Prop where
  phase : l.phase = .handling []
  job : l.job = none
  count : l.server.useCount = 0
  armed : l.server.idle.isArmed = false

/-- How the timer of a running server stands, where `since t` says that nobody has used the server
since `t`.  While a deadline is set nothing of a client is left to be handled (`alone`), so the
use-count cannot fall to zero within a batch and leave an old deadline in force. -/
structure Counting (P : Nat) (since : Nat → Prop) (l : Loop) : Prop where
  period : l.server.idle.period = P
  armed : l.server.idle.isArmed = l.server.idle.deadline.isSome
  near : ∀ d, l.server.idle.deadline = some d → d ≤ l.server.now + P
  begun : IdleTimer.canSet P = true ∨ Unbegun l
  busy : ∀ job, l.job = some job → ∃ es, l.phase = .handling es
  waits : l.phase = .waiting → (l.server.idle.deadline.isSome = true ↔ l.server.useCount = 0)
  alone : l.server.stop = none → ∀ d, l.server.idle.deadline = some d →
    l.job = none ∧ ∀ e ∈ l.pending, ∀ id, Receiver.ofToken? e.token ≠ some (.client id)
  counts : l.server.stop = none → ∀ d, l.server.idle.deadline = some d →
    l.server.useCount = 0 → ∃ t, since t ∧ t + P ≤ d
  stops : l.server.stop = some .idle → l.server.useCount = 0 ∧ ∃ t, since t ∧ t + P ≤ l.server.now

theorem counting_start (chips : Chips) (period : Nat) (since : Nat → Prop) :
    Counting (IdleTimer.ofPeriod period).period since (start chips period) where
  period := rfl
  armed := rfl
  near := by rintro d ⟨⟩
  begun := .inr ⟨rfl, rfl, rfl, rfl⟩
  busy := by rintro job ⟨⟩
  waits := by rintro ⟨⟩
  alone := by rintro - d ⟨⟩
  counts := by rintro - d ⟨⟩
  stops := by rintro ⟨⟩

/-- A timer can be set once the first turn has begun. -/
theorem Counting.settable {e : Readiness} {es : List Readiness} (h : Counting P since l)
    (hphase : l.phase = .handling (e :: es)) : IdleTimer.canSet P = true := by
  rcases h.begun with hset | hunbegun
  · exact hset
  · have hempty := hunbegun.phase
    rw [hphase] at hempty
    cases hempty

theorem Counting.settable_of_job {job : Job} (h : Counting P since l) (hjob : l.job = some job) :
    IdleTimer.canSet P = true := by
  rcases h.begun with hset | hunbegun
  · exact hset
  · have hnone := hunbegun.job
    rw [hjob] at hnone
    cases hnone

theorem Counting.around (h : Counting P since l) (ha : Around l m)
    (hnow : l.server.now ≤ m.server.now)
    (hsince : ∀ t, since t → m.server.useCount = 0 → since' t) : Counting P since' m := by
  have hcount : m.server.useCount = l.server.useCount := useCount_congr ha.sessions ha.requests
  have hpending : m.pending = l.pending := by rw [pending, ha.phase, pending]
  constructor
  case period =>
    rw [ha.idle]
    exact h.period
  case armed =>
    rw [ha.idle]
    exact h.armed
  case near =>
    intro d hd
    rw [ha.idle] at hd
    exact Nat.le_trans (h.near d hd) (Nat.add_le_add_right hnow P)
  case begun =>
    rcases h.begun with hset | hunbegun
    · exact .inl hset
    · exact .inr ⟨ha.phase.trans hunbegun.phase, ha.job.trans hunbegun.job,
        hcount.trans hunbegun.count, by rw [ha.idle]; exact hunbegun.armed⟩
  case busy =>
    rw [ha.job, ha.phase]
    exact h.busy
  case waits =>
    rw [ha.phase, ha.idle, hcount]
    exact h.waits
  case alone =>
    rw [ha.stop, ha.idle, ha.job, hpending]
    exact h.alone
  case counts =>
    intro hstop d hd hzero
    rw [ha.stop] at hstop
    rw [ha.idle] at hd
    obtain ⟨t, ht, hle⟩ := h.counts hstop d hd (hcount ▸ hzero)
    exact ⟨t, hsince t ht hzero, hle⟩
  case stops =>
    intro hstop
    rw [ha.stop] at hstop
    obtain ⟨hzero, t, ht, hle⟩ := h.stops hstop
    exact ⟨hcount ▸ hzero, t, hsince t ht (hcount ▸ hzero), Nat.le_trans hle hnow⟩

/-- What has to be known of a server at which no deadline is set, while events are handled. -/
theorem counting_of_no_deadline {es : List Readiness} (hset : IdleTimer.canSet P = true)
    (hperiod : m.server.idle.period = P) (harmed : m.server.idle.isArmed = false)
    (hdeadline : m.server.idle.deadline = none) (hphase : m.phase = .handling es)
    (hstops : m.server.stop = some .idle →
      m.server.useCount = 0 ∧ ∃ t, since t ∧ t + P ≤ m.server.now) : Counting P since m where
  period := hperiod
  armed := by
    rw [harmed, hdeadline]
    rfl
  near := by
    rw [hdeadline]
    rintro d ⟨⟩
  begun := .inl hset
  busy := fun _ _ => ⟨es, hphase⟩
  waits := by
    rw [hphase]
    rintro ⟨⟩
  alone := by
    rw [hdeadline]
    rintro - d ⟨⟩
  counts := by
    rw [hdeadline]
    rintro - d ⟨⟩
  stops := hstops

/-- While no deadline is set, events are handled without regard to the timer. -/
theorem Counting.handled {es : List Readiness} (h : Counting P since l)
    (hset : IdleTimer.canSet P = true) (htimer : SameTimer l.server m.server)
    (hphase : m.phase = .handling es) (hnone : l.server.idle.deadline = none)
    (hstop : m.server.stop ≠ some .idle) : Counting P since' m := by
  have hdisarmed : l.server.idle.isArmed = false := by
    rw [h.armed, hnone]
    rfl
  refine counting_of_no_deadline hset ?_ ?_ ?_ hphase fun hidle => absurd hidle hstop
  · rw [htimer.idle, h.period]
  · rw [htimer.idle, hdisarmed]
  · rw [htimer.idle, hnone]

/-- An event that is not about a client leaves the timer, and it does not make the server unused. -/
theorem Counting.passed {es : List Readiness} (h : Counting P since l)
    (hset : IdleTimer.canSet P = true) (htimer : SameTimer l.server m.server)
    (hphase : m.phase = .handling es) (hpending : es ⊆ l.pending) (hjob : m.job = none)
    (hrunning : l.server.stop = none) (hstop : m.server.stop ≠ some .idle)
    (hcount : m.server.useCount = 0 → l.server.useCount = 0)
    (hsince : ∀ t, since t → m.server.useCount = 0 → since' t) : Counting P since' m := by
  have hidle := htimer.idle
  have hpending' : m.pending = es := by rw [pending, hphase]
  constructor
  case period =>
    rw [hidle]
    exact h.period
  case armed =>
    rw [hidle]
    exact h.armed
  case near =>
    rw [hidle, htimer.now]
    exact h.near
  case begun => exact .inl hset
  case busy => exact fun _ _ => ⟨es, hphase⟩
  case waits =>
    rw [hphase]
    rintro ⟨⟩
  case alone =>
    intro _ d hd
    rw [hidle] at hd
    refine ⟨hjob, ?_⟩
    rw [hpending']
    exact fun e he => (h.alone hrunning d hd).2 e (hpending he)
  case counts =>
    intro _ d hd hzero
    rw [hidle] at hd
    obtain ⟨t, ht, hle⟩ := h.counts hrunning d hd (hcount hzero)
    exact ⟨t, hsince t ht hzero, hle⟩
  case stops => exact fun hidle => absurd hidle hstop

/-- The timer's own event. -/
theorem Counting.timed {es : List Readiness} (h : Counting P since l)
    (hset : IdleTimer.canSet P = true) (hserver : m.server = l.server.takeExpiry)
    (hphase : m.phase = .handling es) (hpending : es ⊆ l.pending) (hjob : m.job = none)
    (hrunning : l.server.stop = none)
    (hsince : ∀ t, since t → m.server.useCount = 0 → since' t) : Counting P since' m := by
  cases l.server.expires with
  | early _ ht =>
      rw [ht] at hserver
      refine h.passed hset ?_ hphase hpending hjob hrunning ?_ ?_ hsince
      · rw [hserver]
        exact SameTimer.refl _
      · rw [hserver, hrunning]
        rintro ⟨⟩
      · rw [hserver]
        exact id
  | expired d hd hle hidle hnow hcount hstop =>
      rw [← hserver] at hidle hnow hcount hstop
      refine counting_of_no_deadline hset ?_ ?_ ?_ hphase ?_
      · rw [hidle]
        exact h.period
      · rw [hidle]
      · rw [hidle]
      · -- a reason to stop only if the use-count is zero, and then the deadline counts
        intro hidle
        rw [hstop] at hidle
        split at hidle
        · next hzero =>
          obtain ⟨t, ht, ht'⟩ := h.counts hrunning d hd hzero
          have hzero' := hcount.trans hzero
          exact ⟨hzero', t, hsince t ht hzero', hnow ▸ Nat.le_trans ht' hle⟩
        · rw [hrunning] at hidle
          cases hidle

/-- No deadline is set while an event of a client, or a line request, is to be handled. -/
theorem Counting.no_deadline {e : Readiness} {id : ClientId} (h : Counting P since l)
    (hrunning : l.server.stop = none) (he : e ∈ l.pending)
    (htoken : Receiver.ofToken? e.token = some (.client id)) : l.server.idle.deadline = none := by
  cases hd : l.server.idle.deadline with
  | none => rfl
  | some d => exact absurd htoken ((h.alone hrunning d hd).2 e he id)

theorem Counting.no_deadline_of_job {job : Job} (h : Counting P since l)
    (hrunning : l.server.stop = none) (hjob : l.job = some job) :
    l.server.idle.deadline = none := by
  cases hd : l.server.idle.deadline with
  | none => rfl
  | some d =>
      have hnone := (h.alone hrunning d hd).1
      rw [hjob] at hnone
      cases hnone

theorem Counting.begins {e : Readiness} {es : List Readiness} (h : Counting P since l)
    (hphase : l.phase = .handling (e :: es)) (hrunning : l.server.stop = none)
    (hbegins : Begins l.server e m.server m.job) (hphase' : m.phase = .handling es)
    (hsince : ∀ t, since t → m.server.useCount = 0 → since' t) : Counting P since' m := by
  have hset := h.settable hphase
  have hpending : l.pending = e :: es := by rw [pending, hphase]
  have hmem : e ∈ l.pending := hpending ▸ List.mem_cons_self
  have hrest : es ⊆ l.pending := hpending ▸ List.subset_cons_self e es
  obtain ⟨t, ht⟩ : ∃ t, m.server = t := ⟨_, rfl⟩
  obtain ⟨job, hj⟩ : ∃ job, m.job = job := ⟨_, rfl⟩
  have htimer : Receiver.ofToken? e.token ≠ some .idleTimer → SameTimer l.server m.server :=
    hbegins.sameTimer
  rw [ht, hj] at hbegins
  cases hbegins with
  | accepted htoken =>
      refine h.passed hset (htimer (by rw [htoken]; rintro ⟨⟩)) hphase' hrest hj hrunning ?_ ?_
        hsince
      · rw [ht, l.server.reception.stop, hrunning]
        rintro ⟨⟩
      · rw [ht]
        exact useCount_of_accept
  | signalled htoken =>
      obtain ⟨hreason, hsessions, -, -, -⟩ := l.server.takeSignals_cases
      refine h.passed hset (htimer (by rw [htoken]; rintro ⟨⟩)) hphase' hrest hj hrunning ?_ ?_
        hsince
      · rw [ht]
        rcases hreason with hsame | ⟨signal, hsignal⟩
        · rw [hsame, hrunning]
          rintro ⟨⟩
        · rw [hsignal]
          rintro ⟨⟩
      · rw [ht, useCount_congr hsessions (quiet_takeSignals l.server).requests]
        exact id
  | timed _ => exact h.timed hset ht hphase' hrest hj hrunning hsince
  | @heard id session r hs hr =>
      have htoken := (Server.eq_of_hears? hr).1
      refine h.handled hset (htimer (by rw [htoken]; rintro ⟨⟩)) hphase'
        (h.no_deadline hrunning hmem htoken) ?_
      rw [ht]
      exact (hearing _ id session.peer r).stop_ne_idle hrunning
  | left report _ htoken _ _ _ =>
      refine h.handled hset (htimer (by rw [htoken]; rintro ⟨⟩)) hphase'
        (h.no_deadline hrunning hmem htoken) ?_
      rw [ht, afterLeaving, stop_dropClient]
      show l.server.stop ≠ _
      rw [hrunning]
      rintro ⟨⟩
  | nothing htoken _ =>
      refine h.passed hset (htimer (by rw [htoken]; rintro ⟨⟩)) hphase' hrest hj hrunning ?_ ?_
        hsince
      · rw [ht, hrunning]
        rintro ⟨⟩
      · rw [ht]
        exact id
  | stray htoken =>
      refine h.passed hset (htimer (by rw [htoken]; rintro ⟨⟩)) hphase' hrest hj hrunning ?_ ?_
        hsince
      · rw [ht]
        show l.server.stop ≠ _
        rw [hrunning]
        rintro ⟨⟩
      · rw [ht]
        exact id

theorem isReady_of_mem_wait {e : Readiness} (h : e ∈ l.wait.pending) :
    isReady l.server e.token = true := by
  rw [pending_wait] at h
  obtain ⟨t, ht, rfl⟩ := List.mem_map.mp h
  exact (report_fst _ _ _ ht).2

/-- A wait for a server that nobody uses reports no client. -/
theorem Counting.waited (h : Counting P since l) (hjob : l.job = none) (hphase : l.phase = .waiting)
    (hrunning : l.server.stop = none)
    (hsince : ∀ t, since t → l.server.useCount = 0 → since' t) : Counting P since' l.wait := by
  constructor
  case period => exact h.period
  case armed => exact h.armed
  case near => exact h.near
  case begun =>
    refine h.begun.imp id fun hunbegun => ?_
    have hempty := hunbegun.phase
    rw [hphase] at hempty
    cases hempty
  case busy =>
    intro job hjob'
    have hnone : l.wait.job = none := hjob
    rw [hnone] at hjob'
    cases hjob'
  case waits => exact fun _ => h.waits hphase
  case alone =>
    intro _ d hd
    have hsome : l.server.idle.deadline.isSome = true := Option.isSome_iff_exists.mpr ⟨d, hd⟩
    refine ⟨hjob, fun e he id => ?_⟩
    exact not_client_of_isReady ((h.waits hphase).mp hsome) (isReady_of_mem_wait he)
  case counts =>
    intro _ d hd hzero
    obtain ⟨t, ht, hle⟩ := h.counts hrunning d hd hzero
    exact ⟨t, hsince t ht hzero, hle⟩
  case stops =>
    intro hidle
    have hidle' : l.server.stop = some .idle := hidle
    rw [hrunning] at hidle'
    cases hidle'

/-- What has to be known of a server that waits, after its turn has begun. -/
theorem counting_of_waiting (hphase : m.phase = .waiting) (hjob : m.job = none)
    (hstop : m.server.stop = none) (hperiod : m.server.idle.period = P)
    (harmed : m.server.idle.isArmed = m.server.idle.deadline.isSome)
    (hset : IdleTimer.canSet P = true)
    (hwaits : m.server.idle.deadline.isSome = true ↔ m.server.useCount = 0)
    (hnear : ∀ d, m.server.idle.deadline = some d → d ≤ m.server.now + P)
    (hcounts : ∀ d, m.server.idle.deadline = some d → m.server.useCount = 0 →
      ∃ t, since t ∧ t + P ≤ d) : Counting P since m where
  period := hperiod
  armed := harmed
  near := hnear
  begun := .inl hset
  busy := by
    rw [hjob]
    rintro job ⟨⟩
  waits := fun _ => hwaits
  alone := by
    have hpending : m.pending = [] := by rw [pending, hphase]
    rw [hpending]
    exact fun _ d _ => ⟨hjob, fun e he => absurd he List.not_mem_nil⟩
  counts := fun _ => hcounts
  stops := by
    rw [hstop]
    rintro ⟨⟩

/-- As a turn begins, a full period is set on the timer of a server that has come out of use. -/
theorem Counting.updated {s : Server} (h : Counting P since l) (hrunning : l.server.stop = none)
    (hupdate : l.server.updateIdle = .ok s) (hserver : m.server = s) (hjob : m.job = none)
    (hphase : m.phase = .waiting) (hsince : ∀ t, since t → m.server.useCount = 0 → since' t)
    (hnew : m.server.idle.deadline = some (m.server.now + P) → m.server.useCount = 0 →
      since' m.server.now) : Counting P since' m := by
  obtain ⟨hretimes, hnow⟩ := retimes hupdate
  have hsame := sameClients_updateIdle hupdate
  have hcount := useCount_congr hsame.sessions (quiet_updateIdle hupdate).requests
  subst hserver
  have hstop := hsame.stop.trans hrunning
  cases hretimes with
  | armed _ hzero hset hidle =>
      rw [h.period] at hset hidle
      refine counting_of_waiting hphase hjob hstop (by rw [hidle]; exact h.period)
        (by rw [hidle]; rfl) hset ?_ ?_ ?_
      · rw [hidle, hcount, hzero]
        exact ⟨fun _ => rfl, fun _ => rfl⟩
      · intro d hd
        rw [hidle] at hd
        cases hd
        exact Nat.le_of_eq (by rw [hnow])
      · intro d hd hzero'
        rw [hidle] at hd
        cases hd
        exact ⟨_, hnew (by rw [hidle, hnow]) hzero', Nat.le_of_eq (by rw [hnow])⟩
  | disarmed _ hused hidle =>
      have hset := h.begun.resolve_right fun hunbegun => hused hunbegun.count
      have hdeadline : m.server.idle.deadline = none := by rw [hidle]
      refine counting_of_waiting hphase hjob hstop (by rw [hidle]; exact h.period)
        (by rw [hidle]; rfl) hset ?_ ?_ ?_
      · rw [hdeadline, hcount]
        refine ⟨?_, fun hzero => absurd hzero hused⟩
        rintro ⟨⟩
      · rw [hdeadline]
        rintro d ⟨⟩
      · rw [hdeadline]
        rintro d ⟨⟩
  | kept hidle harmed =>
      have hset := h.begun.resolve_right fun hunbegun => by
        rw [hunbegun.armed, hunbegun.count] at harmed
        cases harmed
      refine counting_of_waiting hphase hjob hstop (by rw [hidle]; exact h.period)
        (by rw [hidle]; exact h.armed) hset ?_ ?_ ?_
      · rw [hidle, ← h.armed, harmed, hcount, decide_eq_true_eq]
      · rw [hidle, hnow]
        exact h.near
      · intro d hd hzero
        rw [hidle] at hd
        obtain ⟨t, ht, hle⟩ := h.counts hrunning d hd (hcount ▸ hzero)
        exact ⟨t, hsince t ht hzero, hle⟩

/-- A line request is only there while the server is in use. -/
theorem Counting.finished {job : Job} (h : Counting P since l) (hl : Coherent l)
    (hjob : l.job = some job) (hserver : m.server = l.server.finish job)
    (hphase : m.phase = l.phase) : Counting P since' m := by
  obtain ⟨-, hrunning⟩ := hl.running job hjob
  obtain ⟨es, hes⟩ := h.busy job hjob
  refine h.handled (h.settable_of_job hjob) ?_ (hphase.trans hes)
    (h.no_deadline_of_job hrunning hjob) ?_
  · rw [hserver]
    exact sameTimer_finish _ job
  · rw [hserver, stop_finish, hrunning]
    rintro ⟨⟩

/-- The deadline of a server that stops has no meaning any more. -/
theorem Counting.skipped {e : Readiness} {es : List Readiness} {why : Stop}
    (h : Counting P since l) (hphase : l.phase = .handling (e :: es))
    (hstop : l.server.stop = some why)
    (hsince : ∀ t, since t → l.server.useCount = 0 → since' t) :
    Counting P since' { l with phase := .handling [] } := by
  have hnot : l.server.stop ≠ none := by rw [hstop]; rintro ⟨⟩
  constructor
  case period => exact h.period
  case armed => exact h.armed
  case near => exact h.near
  case begun => exact .inl (h.settable hphase)
  case busy => exact fun _ _ => ⟨[], rfl⟩
  case waits => rintro ⟨⟩
  case alone => exact fun hnone => absurd hnone hnot
  case counts => exact fun hnone => absurd hnone hnot
  case stops =>
    intro hidle
    obtain ⟨hzero, t, ht, hle⟩ := h.stops hidle
    exact ⟨hzero, t, hsince t ht hzero, hle⟩

/-- A server that has stopped as an idle one had been unused for a period. -/
structure Rested (P : Nat) (since : Nat → Prop) (l : Loop) : Prop where
  count : l.server.useCount = 0
  since : ∃ t, since t ∧ t + P ≤ l.server.now

theorem rested_drain {why : Stop} (h : Counting P since l) (hl : Coherent l)
    (hend : l.ending = none) (hstop : l.server.stop = some why) (hwhy : why.reason = .idleTimeout)
    (hserver : m.server = l.server.drain why)
    (hsince : ∀ t, since t → m.server.useCount = 0 → since' t) : Rested P since' m := by
  have hshut := shutsDown_drain why hl.links.apart fun id => hl.stopper why id hstop hend
  obtain rfl : why = .idle := by
    cases why with
    | idle => rfl
    | _ => cases hwhy
  obtain ⟨-, t, ht, hle⟩ := h.stops hstop
  have hzero : m.server.useCount = 0 := by
    rw [hserver]
    exact unused_iff.mp ⟨hshut.sessions, hshut.emptied.records⟩
  refine ⟨hzero, t, hsince t ht hzero, ?_⟩
  rw [hserver, (sameTimer_drain _ _).now]
  exact hle

theorem Counting.step (h : Counting P since l) (hl : Coherent l) (hend : l.ending = none)
    (hsince : ∀ t, since t → l.step.server.useCount = 0 → since' t)
    (hnew : TurnsNext l → l.step.server.idle.deadline = some (l.step.server.now + P) →
      l.step.server.useCount = 0 → since' l.step.server.now) :
    (l.step.ending = none → Counting P since' l.step) ∧
      (l.step.ending = some (.stopped .idleTimeout) → Rested P since' l.step) := by
  have hgoes : Counting P since' l.step → l.step.ending = none →
      (l.step.ending = none → Counting P since' l.step) ∧
        (l.step.ending = some (.stopped .idleTimeout) → Rested P since' l.step) := by
    intro hstep hnone
    refine ⟨fun _ => hstep, fun hidle => ?_⟩
    rw [hnone] at hidle
    cases hidle
  obtain ⟨hm, -⟩ | ⟨job, -, hjob, -, hm⟩ | ⟨-, hjob, hphase, hm⟩ |
      ⟨e, es, -, hjob, hphase, hsome, hm⟩ | ⟨e, es, -, -, hphase, hrunning, hbegins, hm⟩ |
      ⟨why, -, -, -, hstop, hm⟩ | ⟨s, -, hjob, hphase, hrunning, hupdate, hm⟩ |
      ⟨e, -, -, -, -, -, hm⟩ := l.steps
  · rw [hm] at hsince ⊢
    exact ⟨fun _ => h.around (Around.refl l) (Nat.le_refl _) hsince,
      fun hidle => by rw [hend] at hidle; cases hidle⟩
  · refine hgoes (h.finished hl hjob ?_ ?_) ?_ <;> rw [hm]
    · rfl
    · rfl
    · exact hend
  · have hrunning := hl.no_stop_of_waiting hend hphase
    rw [hm] at hsince hgoes ⊢
    exact hgoes (h.waited hjob hphase hrunning hsince) hend
  · obtain ⟨why, hstop⟩ := Option.isSome_iff_exists.mp hsome
    rw [hm] at hsince hgoes ⊢
    exact hgoes (h.skipped hphase hstop hsince) hend
  · refine hgoes (h.begins hphase hrunning hbegins ?_ hsince) ?_ <;> rw [hm]
    · rfl
    · exact hend
  · have hended : l.step.ending = some (.stopped why.reason) := by rw [hm]; rfl
    rw [hended]
    refine ⟨by rintro ⟨⟩, fun hidle => ?_⟩
    exact rested_drain h hl hend hstop (Ending.stopped.inj (Option.some.inj hidle))
      (by rw [hm]; rfl) hsince
  · have hturns : TurnsNext l := ⟨hend, hjob, hphase, hrunning⟩
    refine hgoes (h.updated hrunning hupdate ?_ ?_ ?_ hsince (hnew hturns)) ?_ <;> rw [hm]
    · rfl
    · exact hjob
    · rfl
    · exact hend
  · have hended : l.step.ending = some (.failed e) := by rw [hm]; rfl
    rw [hended]
    exact ⟨by rintro ⟨⟩, by rintro ⟨⟩⟩

theorem Rested.around (h : Rested P since l) (ha : Around l m)
    (hnow : l.server.now ≤ m.server.now)
    (hsince : ∀ t, since t → m.server.useCount = 0 → since' t) : Rested P since' m := by
  obtain ⟨t, ht, hle⟩ := h.since
  have hzero : m.server.useCount = 0 := (useCount_congr ha.sessions ha.requests).trans h.count
  exact ⟨hzero, t, hsince t ht hzero, Nat.le_trans hle hnow⟩

/-- As long as a server runs its timer counts down as it should, and one that has stopped as an idle
server was right to do so. -/
theorem counting (chips : Chips) (period : Nat) (as : List Action) :
    let l := start chips period
    let P := (IdleTimer.ofPeriod period).period
    ((l.play as).ending = none → Counting P (UnusedSince P l as) (l.play as)) ∧
      ((l.play as).ending = some (.stopped .idleTimeout) →
        Rested P (UnusedSince P l as) (l.play as)) := by
  intro l P
  induction as using List.reverseRecOn with
  | nil => exact ⟨fun _ => counting_start chips period _, by rintro ⟨⟩⟩
  | append_singleton as a ih =>
      have hplayed : Played chips period (l.play as) := ⟨as, rfl⟩
      have hsince : ∀ t, UnusedSince P l as t → ((l.play as).act a).server.useCount = 0 →
          UnusedSince P l (as ++ [a]) t := by
        intro t ht hzero
        refine ht.concat ?_
        rw [play_concat]
        exact unused_iff.mpr hzero
      rw [play_concat]
      rcases serve_or_around (l.play as) a with ⟨rfl, hend⟩ | haround
      · exact (ih.1 hend).step hplayed.coherent hend hsince TurnsNext.unusedSince
      · rw [haround.ending]
        exact ⟨fun hend => (ih.1 hend).around haround (now_le_act _ a) hsince,
          fun hidle => (ih.2 hidle).around haround (now_le_act _ a) hsince⟩

end Counting

end Loop

end LineKeeper
