import LineKeeper.Proofs.Dozing

/-!
# When a server stops because nobody uses it

**Safety.**  A server that stops for this reason has set its timer as a turn began, and nobody
has used it from then on, for a full period at least (`since_of_idlesOut`).  So whoever is
admitted keeps the server from stopping, also while the expired timer is still to be handled in
the same batch:  a new turn has to find the server unused and set the timer again
(`since_of_accepted`).

**Progress.**  The first turn after that which finds the server unused sets a full period
(`restarts_of_accepted`), and a server that nobody uses and nothing disturbs ends when the timer
expires (`Dozes.play_ends`).

`idleRule` has all of it.
-/

namespace LineKeeper

namespace Server

variable {s : Server}

/-- A timer that is not armed is set for a full period if nobody uses the server. -/
theorem updateIdle_of_disarmed (hdisarmed : s.idle.isArmed = false) (hcount : s.useCount = 0)
    (hset : IdleTimer.canSet s.idle.period = true) :
    ∃ t, s.updateIdle = .ok t ∧ t.idle.deadline = some (s.now + s.idle.period) := by
  simp only [updateIdle, IdleTimer.update, hdisarmed, hcount, Transition.next, hset, if_true]
  exact ⟨_, rfl, rfl⟩

end Server

namespace Loop

open Server

variable {l : Loop} {chips : Chips} {period P : Nat} {as bs cs ds : List Action}

section Turns

instance : Decidable (TurnsNext l) :=
  decidable_of_iff (l.ending = none ∧ l.job = none ∧ l.phase = .handling [] ∧ l.server.stop = none)
    ⟨fun h => ⟨h.1, h.2.1, h.2.2.1, h.2.2.2⟩, fun h => ⟨h.ending, h.job, h.phase, h.stop⟩⟩

instance (s : Server) : Decidable s.Unused :=
  decidable_of_iff (s.useCount = 0) unused_iff.symm

/-- Every turn that begins on the way finds the server in use. -/
def TurnsInUse (l : Loop) : List Action → Prop
  | [] => True
  | a :: as => (a = .serve → TurnsNext l → ¬ l.server.Unused) ∧ TurnsInUse (l.act a) as

instance decidableTurnsInUse : (l : Loop) → (as : List Action) → Decidable (TurnsInUse l as)
  | _, [] => isTrue trivial
  | l, a :: as =>
      have := decidableTurnsInUse (l.act a) as
      inferInstanceAs (Decidable (_ ∧ _))

theorem TurnsInUse.used (h : TurnsInUse l (cs ++ .serve :: ds)) (hturns : TurnsNext (l.play cs)) :
    ¬ (l.play cs).server.Unused := by
  induction cs generalizing l with
  | nil => exact h.1 rfl hturns
  | cons a cs ih => exact ih h.2 hturns

theorem TurnsNext.restarts (h : TurnsNext l) (hunused : l.server.Unused)
    (hdisarmed : l.server.idle.isArmed = false)
    (hset : IdleTimer.canSet l.server.idle.period = true) :
    Restarts l.server.idle.period l := by
  obtain ⟨s, hupdate, hdeadline⟩ := updateIdle_of_disarmed hdisarmed (unused_iff.mp hunused) hset
  refine ⟨h, hunused, ?_⟩
  rw [h.step_of_ok hupdate]
  exact hdeadline

end Turns

section Calm

/-- A server that nobody uses is calm when no connection and no signal waits. -/
theorem calm_of_unused (hunused : l.server.Unused) (hwaiting : l.server.net.waiting = [])
    (hsignals : l.server.signals.isReady = false) : Calm l := by
  intro t hready
  cases htoken : Receiver.ofToken? t with
  | none => simp only [isReady, htoken, Bool.false_eq_true] at hready
  | some r =>
      cases r with
      | listener =>
          simp only [isReady, htoken, hwaiting, List.isEmpty_nil, Bool.not_true,
            Bool.false_eq_true] at hready
      | signals => simp only [isReady, htoken, hsignals, Bool.false_eq_true] at hready
      | idleTimer => exact Receiver.eq_token_of_ofToken? htoken
      | client id => exact absurd htoken (not_client_of_isReady (unused_iff.mp hunused) hready)

end Calm

section Rule

/-- The server is about to stop, or has stopped, because nobody uses it. -/
def IdlesOut (l : Loop) : Prop :=
  l.ending = none ∧ l.server.stop = some .idle ∨ l.ending = some (.stopped .idleTimeout)

/-- When a server stops because nobody uses it, and when it does not.  `P` is the period. -/
structure IdleRule (chips : Chips) (period P : Nat) : Prop where
  /-- It stops only after a full period in which nobody has used it. -/
  stops : ∀ as, IdlesOut ((start chips period).play as) →
    ∃ t, UnusedSince P (start chips period) as t ∧
      t + P ≤ ((start chips period).play as).server.now
  /-- If it waits while nobody uses it, and nothing else becomes ready for a full period, then the
  wait that follows leads to its end. -/
  expires : ∀ l, Played chips period l → l.server.net.links.length ≤ 2 ^ 64 - 16 →
    l.ending = none → l.phase = .waiting → l.server.Unused →
      ∀ bs cs, (∀ ds, ds <+: bs → Calm (l.play ds)) →
        l.server.now + P ≤ (l.play bs).server.now → 3 ≤ cs.count .serve →
          (l.play (bs ++ .serve :: cs)).ending = some (.stopped .idleTimeout)
  /-- If it accepts a client it does not stop before a later turn has found it unused, and set the
  timer for a full period. -/
  spares : ∀ l, Played chips period l → l.seats?.isSome = true →
    ∀ bs, IdlesOut (l.step.play bs) →
      ∃ t, UnusedSince P l.step bs t ∧ t + P ≤ (l.step.play bs).server.now
  /-- The first later turn that finds it unused sets the timer for a full period. -/
  restarts : ∀ l, Played chips period l → l.seats?.isSome = true →
    ∀ bs, TurnsInUse l.step bs → TurnsNext (l.step.play bs) → (l.step.play bs).server.Unused →
      Restarts P (l.step.play bs)

theorem since_of_idlesOut (h : IdlesOut ((start chips period).play as)) :
    ∃ t, UnusedSince (IdleTimer.ofPeriod period).period (start chips period) as t ∧
      t + (IdleTimer.ofPeriod period).period ≤ ((start chips period).play as).server.now := by
  obtain ⟨hcounting, hrested⟩ := counting chips period as
  rcases h with ⟨hend, hstop⟩ | hend
  · exact ((hcounting hend).stops hstop).2
  · exact (hrested hend).since

/-- A server that has admitted a client is in use. -/
theorem used_of_accepted (h : l.seats?.isSome = true) : ¬ l.step.server.Unused := by
  obtain ⟨p, hp⟩ := Option.isSome_iff_exists.mp h
  obtain ⟨-, ks, -, hserver⟩ := seat_of_seats? hp
  intro hunused
  have hentries := hunused.sessions
  rw [hserver] at hentries
  exact List.append_ne_nil_of_right_ne_nil _ (List.cons_ne_nil _ _) hentries

theorem since_of_accepted (hl : Played chips period l) (hseats : l.seats?.isSome = true)
    (h : IdlesOut (l.step.play bs)) :
    ∃ t, UnusedSince (IdleTimer.ofPeriod period).period l.step bs t ∧
      t + (IdleTimer.ofPeriod period).period ≤ (l.step.play bs).server.now := by
  have hused := used_of_accepted hseats
  obtain ⟨as, has⟩ := hl.step
  rw [has, ← play_append] at h ⊢
  obtain ⟨t, hsince, hlate⟩ := since_of_idlesOut h
  exact ⟨t, hsince.later (has ▸ hused), hlate⟩

theorem restarts_of_accepted (hl : Played chips period l) (hseats : l.seats?.isSome = true)
    (hinuse : TurnsInUse l.step bs) (hturns : TurnsNext (l.step.play bs))
    (hunused : (l.step.play bs).server.Unused) :
    Restarts (IdleTimer.ofPeriod period).period (l.step.play bs) := by
  have hset : IdleTimer.canSet (IdleTimer.ofPeriod period).period = true := by
    obtain ⟨p, hp⟩ := Option.isSome_iff_exists.mp hseats
    obtain ⟨hend, -, -, e, es, -, hphase, -⟩ := eq_of_accepts? (eq_of_seats? hp).1
    obtain ⟨as, rfl⟩ := hl
    exact ((counting chips period as).1 hend).settable hphase
  have hused := used_of_accepted hseats
  obtain ⟨as, has⟩ := hl.step
  rw [has] at hinuse hturns hunused hused ⊢
  have hcounting := (counting chips period (as ++ bs)).1 (by rw [play_append]; exact hturns.ending)
  rw [play_append] at hcounting
  have hdeadline : (((start chips period).play as).play bs).server.idle.deadline = none := by
    -- a deadline would have been set by a turn that found the server unused before
    rw [Option.eq_none_iff_forall_ne_some]
    intro d hd
    obtain ⟨t, hsince, -⟩ := hcounting.counts hturns.stop d hd (unused_iff.mp hunused)
    obtain ⟨cs, ds, rfl, -, hbefore, -⟩ := hsince.later hused
    exact hinuse.used hbefore.turns hbefore.unused
  rw [← hcounting.period] at hset ⊢
  exact hturns.restarts hunused (hcounting.armed.trans (by rw [hdeadline]; rfl)) hset

theorem idleRule (chips : Chips) (period : Nat) :
    IdleRule chips period (IdleTimer.ofPeriod period).period where
  stops := fun _ => since_of_idlesOut
  expires := by
    intro l hl hbound hend hphase hunused bs cs hcalm hlate hserves
    obtain ⟨d, hd, hdozes⟩ := hl.dozes hbound hend hphase hunused
    exact hdozes.play_ends hcalm (Nat.le_trans hd hlate) hserves
  spares := fun _ hl hseats _ => since_of_accepted hl hseats
  restarts := fun _ hl hseats _ => restarts_of_accepted hl hseats

/-- A client has connected as the timer of an unused server expires, and is reported before the
timer. -/
def expiring : Loop :=
  (start Chips.none 0).play
    [.serve, .pass nanosPerMilli, .connect (.usual ⟨0, 0, ""⟩), .reorder [0, 2], .serve]

/-- The timer's event, a turn, and the client leaves. -/
def visit : List Action :=
  [.serve, .serve, .close 0, .serve, .serve]

/-- The timer expires again, and is reported and handled. -/
def expiry : List Action :=
  [.pass nanosPerMilli] ++ .serve :: [.serve, .serve, .serve]

/-- A client that visits costs the server another period. -/
theorem expiring_idleRule :
    expiring.seats?.isSome = true ∧ Restarts nanosPerMilli (expiring.step.play visit) ∧
      (((expiring.step.play visit).step).play expiry).ending = some (.stopped .idleTimeout) ∧
      ∃ t, UnusedSince nanosPerMilli expiring.step (visit ++ .serve :: expiry) t ∧
        t + nanosPerMilli ≤ (expiring.step.play (visit ++ .serve :: expiry)).server.now := by
  have hrule : IdleRule Chips.none 0 nanosPerMilli := idleRule Chips.none 0
  have hplayed : Played Chips.none 0 expiring := ⟨_, rfl⟩
  have hseats : expiring.seats?.isSome = true := by decide +kernel
  have hinuse : TurnsInUse expiring.step visit := by decide +kernel
  have hturns : TurnsNext (expiring.step.play visit) := by decide +kernel
  have hunused : (expiring.step.play visit).server.Unused := by decide +kernel
  have hrestarts := hrule.restarts expiring hplayed hseats visit hinuse hturns hunused
  have halone : (expiring.step.play visit).step.server.Unused := by decide +kernel
  have hcalm : ∀ ds, ds <+: [.pass nanosPerMilli] →
      Calm ((expiring.step.play visit).step.play ds) := by
    intro ds hds
    rcases List.prefix_cons_iff.mp hds with rfl | ⟨es, rfl, hes⟩
    · exact calm_of_unused (by decide +kernel) (by decide +kernel) (by decide +kernel)
    · rw [List.prefix_nil.mp hes]
      exact calm_of_unused (by decide +kernel) (by decide +kernel) (by decide +kernel)
  have hends := hrule.expires _ (hplayed.step.play visit).step (by decide +kernel)
    (by decide +kernel) (by decide +kernel) halone [.pass nanosPerMilli] [.serve, .serve, .serve]
    hcalm (by decide +kernel) (by decide)
  have hidles : IdlesOut (expiring.step.play (visit ++ .serve :: expiry)) := by
    rw [play_append]
    exact .inr hends
  exact ⟨hseats, hrestarts, hends, hrule.spares expiring hplayed hseats _ hidles⟩

end Rule

end Loop

end LineKeeper
