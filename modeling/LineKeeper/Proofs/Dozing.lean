import LineKeeper.Proofs.Calls
import LineKeeper.Proofs.Countdown

/-!
# The end of a server that nobody uses

A server that waits while nobody uses it dozes (`Dozes`) until its timer expires.  Once the
wait has reported the timer there are three steps to the end, and nothing that happens around
the server keeps it from taking them (`Ends`).

* `Played.dozes`: a server that nobody uses dozes when it waits, and its timer expires within a
  period.
* `Dozes.play_ends`: a dozing server at which nothing else becomes ready has ended three steps
  after the wait that follows the expiry.

The timer must be watched for this, and it always is, in runs with fewer connections than there
are tokens (`Played.watches_timer`).
-/

namespace LineKeeper

namespace Receiver

/-- Only the idle timer has its token. -/
theorem eq_token_of_ofToken? {t : UInt64} (h : ofToken? t = some idleTimer) :
    t = idleTimer.token := by
  unfold ofToken? at h
  split at h
  · cases h
  · split at h
    · cases h
    · split at h
      · next htwo => exact htwo
      · split at h <;> cases h

end Receiver

namespace Server

variable {s t : Server} {e : Readiness} {id : ClientId}

section Watching

/-- What is done to a client does not end the watch on the timer. -/
theorem Confined.watches_timer (h : Confined id s t) (hid : id.number.toNat < 2 ^ 64 - 16)
    (hwatched : Receiver.idleTimer.token ∈ s.watched) :
    Receiver.idleTimer.token ∈ t.watched := by
  rcases h.table with ⟨-, hsame⟩ | ⟨-, hfiltered⟩
  · rw [hsame]
    exact hwatched
  · rw [hfiltered]
    refine List.mem_filter.mpr ⟨hwatched, decide_eq_true ?_⟩
    exact Receiver.token_ne_client rfl Receiver.noConfusion hid

theorem Begins.watches_timer {job : Option Job} (h : Begins s e t job)
    (hknown : ∀ id ∈ s.sessions.ids, id.number.toNat < 2 ^ 64 - 16)
    (hwatched : Receiver.idleTimer.token ∈ s.watched) :
    Receiver.idleTimer.token ∈ t.watched := by
  cases h with
  | accepted _ => exact s.accepts.watched hwatched
  | signalled _ =>
      rw [s.takeSignals_cases.2.2.1]
      exact hwatched
  | timed _ =>
      rw [s.takeExpiry_cases.2.2.1]
      exact hwatched
  | @heard id session r hs hr =>
      have hconfined := (confined_afterReading hs r).trans (hearing _ _ session.peer r).confined
      exact hconfined.watches_timer (hknown id (Sessions.mem_ids_iff.mpr ⟨session, hs⟩)) hwatched
  | @left id session report _ _ hs _ _ =>
      exact (confined_afterLeaving hs report).watches_timer
        (hknown id (Sessions.mem_ids_iff.mpr ⟨session, hs⟩)) hwatched
  | nothing _ _ => exact hwatched
  | stray _ => exact hwatched

end Watching

end Server

namespace Loop

open Server

variable {l m : Loop} {chips : Chips} {period P d n : Nat} {a : Action} {as bs cs : List Action}

section Watching

theorem watches_timer_step (hl : Sound l) (hend : l.step.ending = none)
    (hwatched : Receiver.idleTimer.token ∈ l.server.watched) :
    Receiver.idleTimer.token ∈ l.step.server.watched := by
  obtain ⟨hm, -⟩ | ⟨job, hend', hjob, -, hm⟩ | ⟨-, -, -, hm⟩ | ⟨e, es, -, -, -, -, hm⟩ |
      ⟨e, es, hend', -, -, -, hbegins, -⟩ | ⟨why, -, -, -, -, hm⟩ | ⟨s, -, -, -, -, hupdate, hm⟩ |
      ⟨e, -, -, -, -, -, hm⟩ := l.steps
  · rw [hm]
    exact hwatched
  · rw [hm]
    exact (confined_finish l.server job).watches_timer
      (hl.known hend' _ (hl.coherent.asker job hjob)) hwatched
  · rw [hm]
    exact hwatched
  · rw [hm]
    exact hwatched
  · exact hbegins.watches_timer (hl.known hend') hwatched
  · rw [hm] at hend
    cases hend
  · rw [hm]
    show _ ∈ s.watched
    rw [(sameClients_updateIdle hupdate).watched]
    exact hwatched
  · rw [hm] at hend
    cases hend

/-- A running server watches its timer. -/
theorem Played.watches_timer (h : Played chips period l)
    (hbound : l.server.net.links.length ≤ 2 ^ 64 - 16) (hend : l.ending = none) :
    Receiver.idleTimer.token ∈ l.server.watched := by
  revert hbound hend
  refine h.induction (P := fun l => l.server.net.links.length ≤ 2 ^ 64 - 16 → l.ending = none →
    Receiver.idleTimer.token ∈ l.server.watched) ?_ ?_
  · rintro - -
    exact List.mem_cons_of_mem _ (List.mem_cons_of_mem _ List.mem_cons_self)
  · intro l a hplayed ih hbound hend
    have hbefore := Nat.le_trans (length_le_act hplayed.coherent a) hbound
    rcases serve_or_around l a with ⟨rfl, hrunning⟩ | haround
    · exact watches_timer_step (hplayed.sound hbefore) hend (ih hbefore hrunning)
    · rw [haround.watched]
      exact ih hbefore (haround.ending ▸ hend)

end Watching

section Ends

/-- How many steps a server is from its end, once a wait has reported that its timer has expired
while nobody uses it. -/
inductive Ends (l : Loop) : Nat → Prop
  | notices (d : Nat) (e : Readiness) (es : List Readiness) (hend : l.ending = none)
      (hjob : l.job = none) (hphase : l.phase = .handling (e :: es)) (hstop : l.server.stop = none)
      (htoken : Receiver.ofToken? e.token = some .idleTimer) (hcount : l.server.useCount = 0)
      (hdeadline : l.server.idle.deadline = some d) (hlate : d ≤ l.server.now) : Ends l 3
  | forgets (e : Readiness) (es : List Readiness) (hend : l.ending = none) (hjob : l.job = none)
      (hphase : l.phase = .handling (e :: es)) (hstop : l.server.stop = some .idle) : Ends l 2
  | leaves (hend : l.ending = none) (hjob : l.job = none) (hphase : l.phase = .handling [])
      (hstop : l.server.stop = some .idle) : Ends l 1
  | ended (hend : l.ending = some (.stopped .idleTimeout)) : Ends l 0

theorem Ends.around (h : Ends l n) (ha : Around l m) (hnow : l.server.now ≤ m.server.now) :
    Ends m n := by
  cases h with
  | notices d e es hend hjob hphase hstop htoken hcount hdeadline hlate =>
      exact .notices d e es (ha.ending.trans hend) (ha.job.trans hjob) (ha.phase.trans hphase)
        (ha.stop.trans hstop) htoken ((useCount_congr ha.sessions ha.requests).trans hcount)
        (by rw [ha.idle, hdeadline]) (Nat.le_trans hlate hnow)
  | forgets e es hend hjob hphase hstop =>
      exact .forgets e es (ha.ending.trans hend) (ha.job.trans hjob) (ha.phase.trans hphase)
        (ha.stop.trans hstop)
  | leaves hend hjob hphase hstop =>
      exact .leaves (ha.ending.trans hend) (ha.job.trans hjob) (ha.phase.trans hphase)
        (ha.stop.trans hstop)
  | ended hend => exact .ended (ha.ending.trans hend)

/-- The expiry of a timer that nobody has kept from expiring is a reason to stop. -/
theorem stop_takeExpiry {s : Server} (hdeadline : s.idle.deadline = some d) (hlate : d ≤ s.now)
    (hcount : s.useCount = 0) : s.takeExpiry.stop = some .idle := by
  cases s.expires with
  | early hearly _ => exact absurd (hearly d hdeadline) (Nat.not_lt.mpr hlate)
  | expired _ _ _ _ _ _ hstop => rw [hstop, if_pos hcount]

/-- The step in which the server handles the event of its timer. -/
theorem step_of_timer {e : Readiness} {es : List Readiness} (hend : l.ending = none)
    (hjob : l.job = none) (hphase : l.phase = .handling (e :: es)) (hstop : l.server.stop = none)
    (htoken : Receiver.ofToken? e.token = some .idleTimer) :
    l.step = ({ l with phase := .handling es, job := none }).withServer l.server.takeExpiry := by
  simp only [Loop.step, hend, hjob, hphase, hstop, begin, htoken, Option.isSome_none,
    Bool.false_eq_true, if_false]

theorem Ends.step (h : Ends l n) : ∃ m, m ≤ n - 1 ∧ Ends l.step m := by
  cases h with
  | notices d e es hend hjob hphase hstop htoken hcount hdeadline hlate =>
      have hidle := stop_takeExpiry hdeadline hlate hcount
      rw [step_of_timer hend hjob hphase hstop htoken]
      cases es with
      | nil => exact ⟨1, Nat.le_succ 1, .leaves hend rfl rfl hidle⟩
      | cons e es => exact ⟨2, Nat.le_refl 2, .forgets e es hend rfl rfl hidle⟩
  | forgets e es hend hjob hphase hstop =>
      rw [step_forgets hend hjob hphase hstop]
      exact ⟨1, Nat.le_refl 1, .leaves hend hjob rfl hstop⟩
  | leaves hend hjob hphase hstop =>
      rw [step_drains hend hjob hphase hstop]
      exact ⟨0, Nat.le_refl 0, .ended rfl⟩
  | ended hend =>
      rw [step_of_ending (by rw [hend]; rfl)]
      exact ⟨0, Nat.le_refl 0, .ended hend⟩

/-- Every step is one step nearer to the end. -/
theorem Ends.play (h : Ends l n) (as : List Action) :
    ∃ m, m ≤ n - as.count .serve ∧ Ends (l.play as) m := by
  induction as generalizing l n with
  | nil => exact ⟨n, Nat.le_refl n, h⟩
  | cons a as ih =>
      by_cases ha : a = .serve
      · subst ha
        obtain ⟨k, hk, hstep⟩ := h.step
        obtain ⟨m, hm, hplay⟩ := ih hstep
        refine ⟨m, ?_, hplay⟩
        rw [List.count_cons_self]
        omega
      · obtain ⟨m, hm, hplay⟩ := ih (h.around (around_act l ha) (now_le_act l a))
        refine ⟨m, ?_, hplay⟩
        rw [List.count_cons_of_ne ha]
        exact hm

theorem Ends.ending (h : Ends l n) (hserves : n ≤ as.count .serve) :
    (l.play as).ending = some (.stopped .idleTimeout) := by
  obtain ⟨m, hm, hends⟩ := h.play as
  obtain rfl : m = 0 := by omega
  cases hends with
  | ended hend => exact hend

end Ends

section Dozes

/-- Nothing is ready but the idle timer. -/
def Calm (l : Loop) : Prop :=
  ∀ t, isReady l.server t = true → t = Receiver.idleTimer.token

/-- Nobody uses the server; it waits, and its timer expires at a time. -/
structure Dozes (d : Nat) (l : Loop) : Prop where
  ending : l.ending = none
  job : l.job = none
  phase : l.phase = .waiting
  stop : l.server.stop = none
  count : l.server.useCount = 0
  deadline : l.server.idle.deadline = some d
  watched : Receiver.idleTimer.token ∈ l.server.watched
  lists : ∀ t ∈ l.server.watched, isReady l.server t = true → t ∈ l.ready

theorem Played.dozes (h : Played chips period l)
    (hbound : l.server.net.links.length ≤ 2 ^ 64 - 16) (hend : l.ending = none)
    (hphase : l.phase = .waiting) (hunused : l.server.Unused) :
    ∃ d, d ≤ l.server.now + (IdleTimer.ofPeriod period).period ∧ Dozes d l := by
  obtain ⟨n, hattentive⟩ := (h.sound hbound).attentive hend
  have hcount := unused_iff.mp hunused
  have hcoherent := h.coherent
  have hwatched := h.watches_timer hbound hend
  obtain ⟨as, rfl⟩ := h
  have hcounting := (counting chips period as).1 hend
  obtain ⟨d, hd⟩ := Option.isSome_iff_exists.mp ((hcounting.waits hphase).mpr hcount)
  refine ⟨d, hcounting.near d hd, ?_⟩
  constructor
  case ending => exact hend
  case job =>
    cases hjob : ((Loop.start chips period).play as).job with
    | none => rfl
    | some job =>
        obtain ⟨es, hes⟩ := hcounting.busy job hjob
        rw [hphase] at hes
        cases hes
  case phase => exact hphase
  case stop => exact hcoherent.no_stop_of_waiting hend hphase
  case count => exact hcount
  case deadline => exact hd
  case watched => exact hwatched
  case lists => exact hattentive.lists

/-- Whoever is listed and ready is reported, or somebody else is. -/
theorem report_fst_ne_nil {s : Server} {ts : List UInt64} {t : UInt64} (hn : n ≠ 0) (h : t ∈ ts)
    (hready : isReady s t = true) : (report s n ts).1 ≠ [] := by
  obtain ⟨n, rfl⟩ := Nat.exists_eq_succ_of_ne_zero hn
  induction ts with
  | nil => cases h
  | cons u ts ih =>
      simp only [report]
      split
      · exact List.cons_ne_nil _ _
      · next hnot =>
        rcases List.mem_cons.mp h with rfl | hlater
        · exact absurd hready hnot
        · exact ih hlater

theorem Dozes.around (h : Dozes d l) (ha : a ≠ .serve) : Dozes d (l.act a) := by
  have haround := around_act l ha
  constructor
  case ending => exact haround.ending.trans h.ending
  case job => exact haround.job.trans h.job
  case phase => exact haround.phase.trans h.phase
  case stop => exact haround.stop.trans h.stop
  case count => exact (useCount_congr haround.sessions haround.requests).trans h.count
  case deadline =>
    rw [haround.idle]
    exact h.deadline
  case watched =>
    rw [haround.watched]
    exact h.watched
  case lists =>
    rw [haround.watched]
    exact (ready_act ha h.lists).1

/-- A wait at which nothing but the timer is ready reports the timer, if it has expired. -/
theorem Dozes.step (h : Dozes d l) (hcalm : Calm l) :
    l.server.now < d ∧ Dozes d l.step ∨ Ends l.step 3 := by
  have hstep : l.step = l.wait := by
    simp only [Loop.step, h.ending, h.job, h.phase, Option.isSome_none, Bool.false_eq_true,
      if_false]
  have hexpired : isReady l.server Receiver.idleTimer.token = decide (d ≤ l.server.now) := by
    show l.server.idle.hasExpired l.server.now = _
    rw [IdleTimer.hasExpired, h.deadline, Option.any_some]
  rw [hstep]
  cases hfound : (report l.server maxEvents l.ready).1 with
  | nil =>
      left
      have hearly : l.server.now < d := by
        by_contra hlate
        have hready := hexpired.trans (decide_eq_true (Nat.not_lt.mp hlate))
        exact report_fst_ne_nil (by decide) (h.lists _ h.watched hready) hready hfound
      refine ⟨hearly, h.ending, h.job, ?_, h.stop, h.count, h.deadline, h.watched, ?_⟩
      · simp only [wait, hfound, List.isEmpty_nil, if_true]
      · intro t ht hready
        rcases mem_report l.server maxEvents l.ready (h.lists t ht hready) hready with hin | hin
        · rw [hfound] at hin
          cases hin
        · exact List.mem_append_left _ hin
  | cons t ts =>
      right
      have hready := (report_fst l.server maxEvents l.ready (t := t)
        (hfound ▸ List.mem_cons_self)).2
      obtain rfl := hcalm t hready
      have hlate := of_decide_eq_true (hexpired.symm.trans hready)
      have hphase : l.wait.phase = .handling (⟨Receiver.idleTimer.token,
          isHungUp l.server Receiver.idleTimer.token⟩ ::
            ts.map fun t => ⟨t, isHungUp l.server t⟩) := by
        simp only [wait, hfound, List.isEmpty_cons, Bool.false_eq_true, if_false, List.map_cons]
      exact .notices d _ _ h.ending h.job hphase h.stop rfl h.count h.deadline hlate

/-- Until something else becomes ready a server dozes, or it is about to end. -/
theorem Dozes.play (h : Dozes d l) (hcalm : ∀ ds, ds <+: bs → Calm (l.play ds)) :
    Dozes d (l.play bs) ∨ ∃ n, n ≤ 3 ∧ Ends (l.play bs) n := by
  induction bs using List.reverseRecOn with
  | nil => exact .inl h
  | append_singleton bs a ih =>
      rw [play_concat]
      rcases ih fun ds hds => hcalm ds (hds.trans (List.prefix_append bs [a])) with
        hdozes | ⟨n, hn, hends⟩
      · by_cases ha : a = .serve
        · subst ha
          rcases hdozes.step (hcalm bs (List.prefix_append bs [.serve])) with ⟨-, hstill⟩ | hends
          · exact .inl hstill
          · exact .inr ⟨3, Nat.le_refl 3, hends⟩
        · exact .inl (hdozes.around ha)
      · obtain ⟨m, hm, hends'⟩ := hends.play [a]
        exact .inr ⟨m, by omega, hends'⟩

/-- The wait that follows the expiry leads to the end, whatever else happens from then on. -/
theorem Dozes.play_ends (h : Dozes d l) (hcalm : ∀ ds, ds <+: bs → Calm (l.play ds))
    (hlate : d ≤ (l.play bs).server.now) (hserves : 3 ≤ cs.count .serve) :
    (l.play (bs ++ .serve :: cs)).ending = some (.stopped .idleTimeout) := by
  rw [play_append, play_cons]
  rcases h.play hcalm with hdozes | ⟨n, hn, hends⟩
  · rcases hdozes.step (hcalm bs (List.prefix_refl bs)) with ⟨hearly, -⟩ | hends
    · exact absurd hearly (Nat.not_lt.mpr hlate)
    · exact hends.ending hserves
  · obtain ⟨m, hm, hends'⟩ := hends.step
    exact hends'.ending (by omega)

end Dozes

end Loop

end LineKeeper
