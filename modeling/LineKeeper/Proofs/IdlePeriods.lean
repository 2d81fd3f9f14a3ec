import LineKeeper.Host
import LineKeeper.Proofs.Runs
import LineKeeper.Proofs.Steps
import LineKeeper.Proofs.TimerHistory
import LineKeeper.Proofs.TimerSteps

/-!
# Which idle timeouts a server can keep

The options give the idle timeout in whole seconds, and every number of seconds but zero passes
the check.  The server counts the timeout down as its period, which never changes.  The system
takes the seconds of the period as a signed word, so it refuses those from `2 ^ 63` on, and the
server ends as it begins its first turn.

**Failures.**  Setting the timer is the only thing that fails a server, and it fails only for
the period.  So a server that has set its timer once does not fail later, whatever happens
around it.

**Results.**
* `Loop.Next.keeps_period`: a step does not change the period.
* `Loop.Reachable.refused`: a server fails only for a period that cannot be counted down.
* `CommandLine.Options.keepsTimeout`: which timeouts are counted down in full, and what becomes
  of a server with one that is not.
-/

namespace LineKeeper

namespace Server

variable {s t : Server} {r : Readiness} {e : Errno}

/-- Bringing the timer up to date fails for a period that cannot be counted down, and for nothing
else. -/
theorem updateIdle_eq_error_iff : s.updateIdle = .error e ↔
    e = Errno.invalidArgument ∧ s.idle.isArmed = false ∧ s.useCount = 0 ∧
      IdleTimer.canSet s.idle.period = false := by
  rw [updateIdle, IdleTimer.update]
  cases harmed : s.idle.isArmed <;> rcases hcount : s.useCount with _ | n <;>
    simp only [Transition.next]
  · cases hset : IdleTimer.canSet s.idle.period <;> simp [eq_comm]
  all_goals simp

theorem keeps_period_of_updateIdle (h : s.updateIdle = .ok t) : t.idle.period = s.idle.period := by
  obtain ⟨hretimes, -⟩ := retimes h
  cases hretimes with
  | armed _ _ _ hidle => rw [hidle]
  | disarmed _ _ hidle => rw [hidle]
  | kept hidle _ => rw [hidle]

theorem Begins.keeps_period {job : Option Job} (h : Begins s r t job) :
    t.idle.period = s.idle.period := by
  by_cases htoken : Receiver.ofToken? r.token = some .idleTimer
  · cases h with
    | timed _ =>
        cases s.expires with
        | early _ hsame => rw [hsame]
        | expired d _ _ hidle _ _ _ => rw [hidle]
    | accepted hother => cases hother.symm.trans htoken
    | signalled hother => cases hother.symm.trans htoken
    | heard _ hr => cases (eq_of_hears? hr).1.symm.trans htoken
    | left _ _ hother _ _ _ => cases hother.symm.trans htoken
    | nothing hother _ => cases hother.symm.trans htoken
    | stray hother => cases hother.symm.trans htoken
  · rw [(h.sameTimer htoken).idle]

end Server

namespace Loop

variable {l m : Loop} {chips : Chips} {period : Nat} {e : Errno}

section Failures

/-- The period is what it was as the server began. -/
theorem Next.keeps_period (h : Next l m) : m.server.idle.period = l.server.idle.period := by
  cases h with
  | surround w => rfl
  | step =>
      cases l.steps with
      | stayed hm _ => rw [hm]
      | finished job _ _ _ hm =>
          rw [hm]
          exact congrArg IdleTimer.period (Server.sameTimer_finish _ job).idle
      | waited _ _ _ hm => rw [hm]; rfl
      | skipped e es _ _ _ _ hm => rw [hm]
      | began e es _ _ _ _ hbegins hm => exact hbegins.keeps_period
      | drained why _ _ _ _ hm =>
          rw [hm]
          exact congrArg IdleTimer.period (Server.sameTimer_drain _ why).idle
      | updated s _ _ _ _ hupdate hm =>
          rw [hm]
          exact Server.keeps_period_of_updateIdle hupdate
      | aborted e _ _ _ _ _ hm => rw [hm]; rfl

/-- What fails a server in one step is that its period cannot be counted down. -/
theorem Next.refused (h : Next l m) (hend : m.ending = some (.failed e)) :
    l.ending = some (.failed e) ∨
      e = Errno.invalidArgument ∧ IdleTimer.canSet l.server.idle.period = false := by
  cases h with
  | surround w => exact .inl hend
  | step =>
      have hrunning : l.step.ending = l.ending → l.ending = some (.failed e) := fun hsame =>
        hsame.symm.trans hend
      cases l.steps with
      | stayed hm _ => exact .inl (hrunning (by rw [hm]))
      | finished job _ _ _ hm => exact .inl (hrunning (by rw [hm]; rfl))
      | waited _ _ _ hm => exact .inl (hrunning (by rw [hm]; rfl))
      | skipped r es _ _ _ _ hm => exact .inl (hrunning (by rw [hm]))
      | began r es _ _ _ _ _ hm => exact .inl (hrunning (by rw [hm]; rfl))
      | drained why _ _ _ _ hm => rw [hm] at hend; cases hend
      | updated s _ _ _ _ _ hm => exact .inl (hrunning (by rw [hm]; rfl))
      | aborted e' _ _ _ _ hupdate hm =>
          rw [hm] at hend
          cases hend
          obtain ⟨rfl, -, -, hset⟩ := Server.updateIdle_eq_error_iff.mp hupdate
          exact .inr ⟨rfl, hset⟩

theorem Reachable.period_eq (h : Reachable chips period l) :
    l.server.idle.period = (IdleTimer.ofPeriod period).period :=
  h.induction (P := fun l => l.server.idle.period = (IdleTimer.ofPeriod period).period) rfl
    fun _ _ hl hnext => hnext.keeps_period.trans hl

/-- **A server fails only for its period.** -/
theorem Reachable.refused (h : Reachable chips period l) (hend : l.ending = some (.failed e)) :
    e = Errno.invalidArgument ∧
      IdleTimer.canSet (IdleTimer.ofPeriod period).period = false := by
  induction h with
  | refl => cases hend
  | tail hl hnext ih =>
      rcases hnext.refused hend with hbefore | ⟨rfl, hset⟩
      · exact ih hbefore
      · exact ⟨rfl, Reachable.period_eq hl ▸ hset⟩

/-- The first thing that a server does is to set its timer. -/
theorem updateIdle_start (chips : Chips) (period : Nat) :
    (Server.start chips period).updateIdle =
      if IdleTimer.canSet (IdleTimer.ofPeriod period).period then
        .ok { (Server.start chips period).log .idle with
          idle := ⟨(IdleTimer.ofPeriod period).period, true,
            some (0 + (IdleTimer.ofPeriod period).period)⟩ }
      else .error Errno.invalidArgument := by
  have hupdate : (Server.start chips period).idle.update (Server.start chips period).now
      (Server.start chips period).useCount =
        if IdleTimer.canSet (IdleTimer.ofPeriod period).period then
          .ok (.armed, ⟨(IdleTimer.ofPeriod period).period, true,
            some (0 + (IdleTimer.ofPeriod period).period)⟩)
        else .error Errno.invalidArgument := rfl
  rw [Server.updateIdle, hupdate]
  cases IdleTimer.canSet (IdleTimer.ofPeriod period).period <;> rfl

theorem step_start (chips : Chips)
    (hset : IdleTimer.canSet (IdleTimer.ofPeriod period).period = true) :
    (start chips period).step.ending = none ∧
      (start chips period).step.server.idle =
        ⟨(IdleTimer.ofPeriod period).period, true, some (IdleTimer.ofPeriod period).period⟩ := by
  have hupdate := updateIdle_start chips period
  rw [hset, if_pos rfl, Nat.zero_add] at hupdate
  have hstep : (start chips period).step = (start chips period).beginTurn := rfl
  have hstop : (start chips period).server.stop = none := rfl
  have hserver : (start chips period).server.updateIdle = _ := hupdate
  simp only [hstep, beginTurn, hstop, hserver]
  exact ⟨rfl, rfl⟩

/-- A server whose period cannot be counted down ends there. -/
theorem step_start_refused
    (hset : IdleTimer.canSet (IdleTimer.ofPeriod period).period = false) :
    (start chips period).step.ending = some (.failed Errno.invalidArgument) := by
  have hupdate := updateIdle_start chips period
  rw [hset, if_neg Bool.false_ne_true] at hupdate
  have hstep : (start chips period).step = (start chips period).beginTurn := rfl
  have hstop : (start chips period).server.stop = none := rfl
  have hserver : (start chips period).server.updateIdle = _ := hupdate
  simp only [hstep, beginTurn, hstop, hserver]
  rfl

/-- A server that is to do all there is to do takes its first step. -/
theorem ending_settle_start {e : Ending} (h : (start chips period).step.ending = some e) :
    (start chips period).settle.ending = some e := by
  have hrefresh : (start chips period).refresh.step.ending = some e := h
  generalize hready : (start chips period).refresh = l at hrefresh
  have hbusy : l.isSettled = false := by rw [← hready]; rfl
  obtain ⟨n, hn⟩ : ∃ n, l.patience = n + 1 := ⟨_, rfl⟩
  have hsettled : l.step.isSettled = true := by
    rw [isSettled, hrefresh]
    rfl
  rw [settle, hready]
  show (settleFor l.patience l).ending = some e
  rw [hn, settleFor, hbusy, if_neg Bool.false_ne_true]
  cases n with
  | zero => exact hrefresh
  | succ n =>
      rw [settleFor, hsettled, if_pos rfl]
      exact hrefresh

end Failures

end Loop

namespace Host

variable {h : Host} {caller : Caller} {o : CommandLine.Options} {p : ServerProcess}
  {period : Nat} {sink : LogSink} {filter : LogFilter} {e : Errno}

section Processes

/-- What a process says of a failure does not change how it ended. -/
theorem ending_started :
    (h.started period sink filter).loop.ending = (Loop.start h.chips period).settle.ending := by
  unfold started
  generalize (Loop.start h.chips period).settle = l
  cases sink <;> rcases hend : l.ending with _ | _ | e <;> simp [hend]

theorem loop_update {number : Nat} {q : ServerProcess} (h : Host) (p : ServerProcess)
    (hq : (h.update number p).servers[number]? = some q) : q.loop = p.loop := by
  simp only [update] at hq
  rw [List.getElem?_set_self'] at hq
  obtain ⟨_, -, rfl⟩ := Option.map_eq_some_iff.mp hq
  rfl

/-- A server that is added is found by its number. -/
theorem servers_addServer (h : Host) (p : ServerProcess) :
    ∃ q, (h.addServer p).servers[h.servers.length]? = some q ∧ q.loop = p.loop := by
  have hfound : ((h.addServer p).servers[h.servers.length]?).isSome = true := by
    simp [addServer, update]
  obtain ⟨q, hq⟩ := Option.isSome_iff_exists.mp hfound
  exact ⟨q, hq, loop_update _ p hq⟩

/-- A server that failed is not waited for, and its failure ends the program with code 1. -/
theorem code_awaitServer {number : Nat} {q : ServerProcess} (hq : h.servers[number]? = some q)
    (hend : q.loop.ending = some (.failed e)) :
    ∃ finished, (h.awaitServer o number).1 = some finished ∧ finished.code = 1 := by
  have hjoin : (if q.suspended then q.loop else q.loop.join) = q.loop := by
    simp [Loop.join, hend]
  have hfound : ((h.update number q).servers[number]?).isSome = true := by
    obtain ⟨hlt, -⟩ := List.getElem?_eq_some_iff.mp hq
    simp [update, hlt]
  obtain ⟨p, hp⟩ := Option.isSome_iff_exists.mp hfound
  have hloop := loop_update h q hp
  simp only [awaitServer, withServer, hq, hjoin, Nat.sub_self, passBeside, if_true, hp,
    Option.bind_some, finishedServer, hloop, hend]
  exact ⟨_, rfl, rfl⟩

/-- What a server in the foreground is, once it has been started. -/
theorem startForeground_eq_ok {h' : Host} {number : Nat}
    (hstarted : h.startForeground caller o = (.ok number, h')) :
    ∃ q, h'.servers[number]? = some q ∧
      q.loop.ending =
        (Loop.start h.chips (o.serverConfig caller).idleTimeout).settle.ending := by
  simp only [startForeground] at hstarted
  split at hstarted
  · cases hstarted
  · cases hstarted
    obtain ⟨q, hq, hloop⟩ := servers_addServer _ _
    exact ⟨q, hq, by rw [hloop, ending_started]⟩

/-- A program whose server fails as it begins ends with code 1. -/
theorem code_runServer
    (hend : (Loop.start h.chips (o.serverConfig caller).idleTimeout).settle.ending =
      some (.failed e)) :
    (h.runServer caller o).1.code = 1 := by
  rw [runServer]
  cases hstarted : h.startForeground caller o with
  | mk outcome h' =>
      cases outcome with
      | error e => rfl
      | ok number =>
          obtain ⟨q, hq, hloop⟩ := startForeground_eq_ok hstarted
          obtain ⟨finished, hfinished, hcode⟩ :=
            code_awaitServer (o := o) hq (hloop.trans hend)
          simp only [hfinished, Option.getD_some, hcode]

end Processes

end Host

namespace CommandLine.Options

variable {o : Options} {caller : Caller} {chips : Chips} {l : Loop}

/-- The period that a server counts down for options. -/
def period (o : Options) : Nat :=
  o.idleTimeout.toNat * nanosPerSecond

/-- What becomes of the idle timeout of options.  One below `2 ^ 63` seconds is counted down in
full, and no server with it fails; a server with a longer one fails as it begins. -/
structure KeepsTimeout (o : Options) (caller : Caller) (chips : Chips) : Prop where
  same : (o.clientConfig caller).server = o.serverConfig caller
  counts : (Loop.start chips (o.serverConfig caller).idleTimeout).server.idle.period = o.period
  positive : 0 < o.period
  seconds : (Int64.ofNat (o.period / nanosPerSecond)).toInt = o.idleTimeout.toNat ↔
    o.idleTimeout.toNat < 2 ^ 63
  arms : o.idleTimeout.toNat < 2 ^ 63 →
    (Loop.start chips (o.serverConfig caller).idleTimeout).step.ending = none ∧
      (Loop.start chips (o.serverConfig caller).idleTimeout).step.server.idle =
        ⟨o.period, true, some o.period⟩
  serves : o.idleTimeout.toNat < 2 ^ 63 →
    ∀ l, Loop.Reachable chips (o.serverConfig caller).idleTimeout l →
      ∀ e, l.ending ≠ some (.failed e)
  fails : 2 ^ 63 ≤ o.idleTimeout.toNat →
    (Loop.start chips (o.serverConfig caller).idleTimeout).step.ending =
      some (.failed Errno.invalidArgument)
  ends : 2 ^ 63 ≤ o.idleTimeout.toNat → ∀ h : Host, h.chips = chips →
    (∀ sink filter, (h.started (o.serverConfig caller).idleTimeout sink filter).loop.ending =
      some (.failed Errno.invalidArgument)) ∧ (h.runServer caller o).1.code = 1

theorem period_div (o : Options) : o.period / nanosPerSecond = o.idleTimeout.toNat :=
  Nat.mul_div_cancel _ (by decide)

/-- No timeout that passes the check is too short for the timer. -/
theorem nanosPerMilli_le_period (h : o.validate = .ok ()) : nanosPerMilli ≤ o.period := by
  have hpositive : 0 < o.idleTimeout.toNat := by
    rw [Nat.pos_iff_ne_zero, Ne, ← UInt64.toNat_zero, UInt64.toNat_inj]
    exact (validate_eq_ok_iff o).mp h
  calc nanosPerMilli ≤ 1 * nanosPerSecond := by decide
    _ ≤ o.period := Nat.mul_le_mul_right _ hpositive

/-- The seconds are handed over as a signed word. -/
theorem seconds_iff : (Int64.ofNat (o.period / nanosPerSecond)).toInt = o.idleTimeout.toNat ↔
    o.idleTimeout.toNat < 2 ^ 63 := by
  have hlt := o.idleTimeout.toNat_lt
  rw [period_div]
  generalize o.idleTimeout.toNat = seconds at hlt ⊢
  rw [Int64.toInt_ofNat', Int.bmod_def, show Int64.size = 2 ^ 64 from rfl]
  split <;> omega

theorem canSet_period_iff : IdleTimer.canSet o.period = true ↔ o.idleTimeout.toNat < 2 ^ 63 := by
  have hlt : o.period / nanosPerSecond < 2 ^ 64 := by
    rw [period_div]
    exact o.idleTimeout.toNat_lt
  rw [IdleTimer.canSet_iff hlt, period_div]

/-- **Which idle timeouts are counted down in full.** -/
theorem keepsTimeout (caller : Caller) (chips : Chips) (h : o.validate = .ok ()) :
    KeepsTimeout o caller chips := by
  have hmilli := nanosPerMilli_le_period h
  have hperiod : (IdleTimer.ofPeriod o.period).period = o.period := Nat.max_eq_left hmilli
  have hrefuses : 2 ^ 63 ≤ o.idleTimeout.toNat →
      (Loop.start chips o.period).step.ending = some (.failed Errno.invalidArgument) := by
    intro hlong
    apply Loop.step_start_refused
    rw [hperiod, Bool.eq_false_iff, Ne, canSet_period_iff]
    omega
  constructor
  case same =>
    rw [clientConfig]
    split <;> rfl
  case counts => exact hperiod
  case positive => exact Nat.lt_of_lt_of_le (by decide) hmilli
  case seconds => exact seconds_iff
  case arms =>
    intro hshort
    have hset : IdleTimer.canSet (IdleTimer.ofPeriod o.period).period = true := by
      rw [hperiod]
      exact canSet_period_iff.mpr hshort
    obtain ⟨hend, hidle⟩ := Loop.step_start chips hset
    rw [hperiod] at hidle
    exact ⟨hend, hidle⟩
  case serves =>
    intro hshort l hl e hend
    obtain ⟨-, hset⟩ := hl.refused hend
    rw [show (o.serverConfig caller).idleTimeout = o.period from rfl, hperiod,
      canSet_period_iff.mpr hshort] at hset
    cases hset
  case fails => exact hrefuses
  case ends =>
    rintro hlong host rfl
    have hsettled := Loop.ending_settle_start (hrefuses hlong)
    refine ⟨?_, Host.code_runServer hsettled⟩
    intro sink filter
    rw [Host.ending_started]
    exact hsettled

/-- What is said by `debug --idle-timeout` and this number. -/
def debugFor (seconds : String) : Except UsageError Options :=
  ofWords .empty (["debug", "--idle-timeout", seconds].map Text.Utf8.encode)

/-- The options of a server in the foreground with the longest timeout that is counted down. -/
def longest : Options :=
  { chip := none, consumer := none, byName := false, strict := false, activeLow := false,
    json := false, idleTimeout := 9223372036854775807, logFile := none, logRotate := false,
    socketName := none, command := .debug }

theorem longest_keepsTimeout :
    debugFor "9223372036854775807" = .ok longest ∧ longest.validate = .ok () ∧
      longest.idleTimeout.toNat < 2 ^ 63 ∧
      KeepsTimeout longest ⟨.empty, [Path.slash], 0, none⟩ Chips.none :=
  ⟨by decide +kernel, by decide +kernel, by decide +kernel,
    keepsTimeout ⟨.empty, [Path.slash], 0, none⟩ Chips.none (by decide +kernel)⟩

/-- One second more passes the check, and is refused by the system. -/
theorem longer_fails :
    debugFor "9223372036854775808" = .ok { longest with idleTimeout := 9223372036854775808 } ∧
      { longest with idleTimeout := 9223372036854775808 }.validate = .ok () ∧
      (Loop.start Chips.none
        ({ longest with idleTimeout := 9223372036854775808 }.serverConfig
          ⟨.empty, [Path.slash], 0, none⟩).idleTimeout).step.ending =
        some (.failed Errno.invalidArgument) := by
  refine ⟨by decide +kernel, by decide +kernel, Loop.step_start_refused ?_⟩
  decide +kernel

end CommandLine.Options

end LineKeeper
