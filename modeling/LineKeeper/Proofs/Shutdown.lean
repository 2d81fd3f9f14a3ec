import LineKeeper.Proofs.Accounts

/-!
# How a server that has a reason to stop ends

A server stops for the first reason that it meets.  The trace shows every such cause, and it
shows at most one (`Played.causes`).

From then on the server does two things at most.  If there are events left that were
reported together with the cause, one step forgets them; the next step ends the server.
Meanwhile the server does nothing else (`Halted`).  The step that ends it, what it
shows, and what is left behind are collected in `Finished`.

**Result.** `Loop.Played.shuts_down`: whatever happens after a cause, the server has
halted, and after two of its steps at most it has finished (`EndsFor`).
-/

namespace LineKeeper

/-- The reason to stop that an effect shows. -/
def Effect.cause? : Effect → Option Stop
  | .read client (.ok .stop) => some (.requested client)
  | .log (.signalled s) => some (.signal s)
  | .log .idleExpired => some .idle
  | _ => none

theorem Effect.cause?_read (client : ClientId) {r : Except WireError Message}
    (hr : r ≠ .ok .stop) : Effect.cause? (.read client r) = none := by
  rcases r with e | m
  · rfl
  · cases m with
    | stop => exact absurd rfl hr
    | _ => rfl

namespace Server

variable {s t u : Server} {e : Readiness} {id : ClientId}

section Causes

/-- The reasons to stop that the server has met. -/
def causes (s : Server) : List Stop :=
  s.trace.filterMap Effect.cause?

theorem causes_record (s : Server) (e : Effect) :
    (s.record e).causes = s.causes ++ e.cause?.toList := by
  simp only [causes, record, List.filterMap_append]
  cases h : e.cause? with
  | none => rw [List.filterMap_cons_none h, List.filterMap_nil, Option.toList_none]
  | some why => rw [List.filterMap_cons_some h, List.filterMap_nil, Option.toList_some]

/-- Most of what is reported is no reason to stop. -/
theorem causes_log {report : LogEvent} (h : Effect.cause? (.log report) = none) :
    (s.log report).causes = s.causes := by
  rw [log, causes_record, h]
  exact List.append_nil _

theorem causes_withDevice (s : Server) (d : Device) : (s.withDevice d).causes = s.causes := by
  have hcalls : ((d.journal.drop s.device.journal.length).map fun call =>
      Effect.device call).filterMap Effect.cause? = [] := by
    rw [List.filterMap_eq_nil_iff]
    intro e he
    obtain ⟨call, -, rfl⟩ := List.mem_map.mp he
    rfl
  simp only [causes, withDevice, List.filterMap_append, hcalls, List.append_nil]

theorem causes_dropClient (s : Server) (id : ClientId) : (s.dropClient id).causes = s.causes := by
  unfold dropClient
  split
  · rfl
  · simp only [causes, record, log, List.filterMap_append, List.append_assoc]
    exact List.append_nil _

theorem causes_reply (s : Server) (id : ClientId) (m : Message) :
    (s.reply id m).causes = s.causes := by
  unfold reply
  split
  · rfl
  · split
    · simp only [causes, record, List.filterMap_append]
      exact List.append_nil _
    · rw [causes_dropClient, causes_log rfl]

theorem causes_displace (s : Server) (id : RequestId) : (s.displace id).causes = s.causes := by
  unfold displace
  split
  · rfl
  · exact causes_withDevice _ _

theorem causes_finish (s : Server) (job : Job) : (s.finish job).causes = s.causes := by
  rw [finish_eq]
  dsimp only
  split
  · rw [causes_reply, causes_log rfl]
    exact (causes_displace _ _).trans (causes_withDevice _ _)
  · rw [causes_reply, causes_log rfl, causes_withDevice]

theorem causes_release (s : Server) (client : ClientId) (id : RequestId) :
    (s.release client id).causes = s.causes := by
  unfold release
  split
  · rw [causes_reply, causes_log rfl]
  · dsimp only
    rw [causes_reply, causes_withDevice, causes_log rfl]
    rfl

theorem causes_updateIdle (h : s.updateIdle = .ok t) : t.causes = s.causes := by
  unfold updateIdle at h
  split at h
  · cases h
  · cases h
    exact causes_log rfl
  · cases h
    exact causes_log rfl
  · cases h
    rfl

theorem stop_release (s : Server) (client : ClientId) (id : RequestId) :
    (s.release client id).stop = s.stop := by
  obtain ⟨u, r, hsame, -, hrelease⟩ := s.release_eq_reply client id
  rw [hrelease, stop_reply, hsame.stop]

/-- What is done with anything but a STOP is no reason to stop. -/
theorem causes_dispatch (s : Server) (client : ClientId) (peer : Peer)
    {r : Except WireError Message} (hr : r ≠ .ok .stop) :
    (s.dispatch client peer r).1.causes = s.causes ∧
      (s.dispatch client peer r).1.stop = s.stop := by
  have hdrop : ∀ report : LogEvent, Effect.cause? (.log report) = none →
      ((s.log report).dropClient client).causes = s.causes ∧
        ((s.log report).dropClient client).stop = s.stop := by
    intro report hreport
    rw [causes_dropClient, causes_log hreport, stop_dropClient]
    exact ⟨rfl, rfl⟩
  rcases r with e | m
  · exact hdrop (.malformed e) rfl
  · cases m with
    | ping =>
        refine ⟨?_, stop_reply _ _ _⟩
        simp only [dispatch]
        rw [causes_reply, causes_log rfl]
    | stop => exact absurd rfl hr
    | request spec => exact ⟨causes_log rfl, rfl⟩
    | release rid => exact ⟨causes_release s client rid, stop_release s client rid⟩
    | ok => exact hdrop (.unexpected .ok) rfl
    | error n => exact hdrop (.unexpected .error) rfl
    | reqOk rid => exact hdrop (.unexpected .reqOk) rfl

/-- Where nothing was a reason to stop, what is one is the reason why the server stops. -/
theorem Begins.causes {job : Option Job} (h : Begins s e t job) (hstop : s.stop = none)
    (hs : s.causes = []) : t.causes = t.stop.toList := by
  have hkept : t.causes = s.causes → t.stop = s.stop → t.causes = t.stop.toList := by
    intro hcauses hsame
    rw [hcauses, hsame, hs, hstop]
    rfl
  cases h with
  | accepted _ =>
      refine hkept (s.accepts.filterMap_trace ?_) s.reception.stop
      rintro e ⟨⟩ <;> rfl
  | signalled _ =>
      revert hkept
      unfold takeSignals
      split
      · intro hkept
        exact hkept rfl rfl
      · intro _
        show (s.log _).causes = _
        rw [log, causes_record, hs]
        rfl
  | timed _ =>
      revert hkept
      unfold takeExpiry
      split
      · intro hkept
        exact hkept rfl rfl
      · dsimp only
        split
        · intro _
          show (Server.log _ _).causes = _
          rw [log, causes_record]
          exact congrArg (· ++ _) hs
        · intro hkept
          exact hkept rfl rfl
  | @heard id session r _ _ =>
      have hread : (s.afterReading id session r).causes =
          (Effect.cause? (.read id r)).toList := by
        rw [afterReading, causes_record]
        exact congrArg (· ++ _) hs
      by_cases hr : r = .ok .stop
      · subst hr
        show ((s.afterReading id session _).log _).causes = _
        rw [causes_log rfl, hread]
        rfl
      · obtain ⟨hcauses, hsame⟩ := causes_dispatch (s.afterReading id session r) id session.peer hr
        refine hkept (hcauses.trans ?_) hsame
        rw [hread, Effect.cause?_read id hr, hs]
        rfl
  | left report hreport _ _ _ _ =>
      have hno : Effect.cause? (.log report) = none := by
        rcases hreport with rfl | rfl <;> rfl
      refine hkept ?_ (stop_dropClient _ _)
      rw [afterLeaving, causes_dropClient, causes_log hno]
      rfl
  | nothing _ _ => exact hkept rfl rfl
  | stray _ => exact hkept (causes_log rfl) rfl

theorem causes_foldl {α : Type} (f : Server → α → Server)
    (hf : ∀ s a, (f s a).causes = s.causes) (s : Server) (as : List α) :
    (as.foldl f s).causes = s.causes := by
  induction as generalizing s with
  | nil => rfl
  | cons a as ih => rw [List.foldl_cons, ih, hf]

/-- Ending the server is no reason to stop. -/
theorem causes_drain (s : Server) (why : Stop) : (s.drain why).causes = s.causes := by
  have hreleased : ∀ (s : Server) (e : RequestId × Held Nat),
      (s.releaseHeld e).causes = s.causes := by
    intro s e
    rw [releaseHeld, causes_withDevice, causes_log rfl]
  have hcleared : ((((s.log (.exiting s.sessions.length s.requests.length)).stopListening
      |>.releaseAll).dropAllBut why.stopper?)).causes = s.causes := by
    rw [dropAllBut, causes_foldl _ causes_dropClient]
    refine (causes_foldl _ hreleased _ _).trans ?_
    show (Server.record _ _).causes = _
    rw [causes_record, causes_log rfl]
    exact List.append_nil _
  unfold drain
  dsimp only
  rw [causes_log rfl]
  split
  · rw [causes_dropClient, causes_reply, hcleared]
  · exact hcleared

theorem causes_abort (s : Server) : s.abort.causes = s.causes := by
  show (Server.record _ _).causes = _
  rw [causes_record]
  exact List.append_nil _

end Causes

end Server

namespace Loop

open Server

variable {l m n : Loop} {chips : Chips} {period : Nat} {a : Action} {as bs : List Action}

section Causes

/-- A server has met its one reason to stop, or none. -/
theorem Played.causes (h : Played chips period l) :
    l.server.causes = l.server.stop.toList := by
  refine h.induction (P := fun l => l.server.causes = l.server.stop.toList) rfl ?_
  intro l a hl ih
  by_cases ha : a = .serve
  · subst ha
    show l.step.server.causes = l.step.server.stop.toList
    have hcoherent := hl.coherent
    obtain hm | ⟨job, -, -, -, hm⟩ | ⟨-, -, -, hm⟩ | ⟨e, es, -, -, -, -, hm⟩ |
        ⟨e, es, -, -, -, hstop, hbegins, -⟩ | ⟨why, hend, -, -, hstop, hm⟩ |
        ⟨s, -, -, -, -, hupdate, hm⟩ | ⟨e, -, -, -, -, -, hm⟩ := l.steps
    · rw [hm]
      exact ih
    · rw [hm]
      show (l.server.finish job).causes = (l.server.finish job).stop.toList
      rw [causes_finish, stop_finish, ih]
    · rw [hm]
      exact ih
    · rw [hm]
      exact ih
    · rw [hstop] at ih
      exact hbegins.causes hstop ih
    · have hshut := shutsDown_drain why hcoherent.links.apart
        fun id => hcoherent.stopper why id hstop hend
      rw [hm]
      show (l.server.drain why).causes = (l.server.drain why).stop.toList
      rw [causes_drain, hshut.stop, ih]
    · rw [hm]
      show s.causes = s.stop.toList
      rw [causes_updateIdle hupdate, (sameClients_updateIdle hupdate).stop, ih]
    · rw [hm]
      show l.server.abort.causes = l.server.abort.stop.toList
      rw [causes_abort, ih]
      rfl
  · have haround := around_act l ha
    rw [Server.causes, haround.trace, haround.stop]
    exact ih

/-- A server gets a reason to stop only as it handles an event. -/
theorem exists_begins_of_stop {why : Stop} (hstop : l.server.stop = none)
    (hwhy : l.step.server.stop = some why) :
    ∃ e es, l.ending = none ∧ l.job = none ∧ l.phase = .handling (e :: es) ∧
      Begins l.server e l.step.server l.step.job := by
  have hkept : l.step.server.stop ≠ l.server.stop := by
    rw [hwhy, hstop]
    rintro ⟨⟩
  obtain ⟨hm, -⟩ | ⟨job, -, -, -, hm⟩ | ⟨-, -, -, hm⟩ | ⟨e, es, -, -, -, -, hm⟩ |
      ⟨e, es, hend, hjob, hphase, -, hbegins, -⟩ | ⟨why, -, -, -, hsome, -⟩ |
      ⟨s, -, -, -, -, hupdate, hm⟩ | ⟨e, -, -, -, -, -, hm⟩ := l.steps
  · exact absurd (by rw [hm]) hkept
  · refine absurd ?_ hkept
    rw [hm]
    exact stop_finish l.server job
  · exact absurd (by rw [hm]; rfl) hkept
  · exact absurd (by rw [hm]) hkept
  · exact ⟨e, es, hend, hjob, hphase, hbegins⟩
  · rw [hstop] at hsome
    cases hsome
  · refine absurd ?_ hkept
    rw [hm]
    exact (sameClients_updateIdle hupdate).stop
  · exact absurd (by rw [hm]; rfl) hkept

end Causes

section Halting

/-- Since `l`, which has a reason to stop, the server has done nothing but forget what was reported
together with the reason. -/
structure Halted (l m : Loop) : Prop where
  around : Around { l with phase := m.phase } m
  phase : m.phase = l.phase ∨ m.phase = .handling []

theorem Halted.refl (l : Loop) : Halted l l :=
  ⟨Around.refl l, .inl rfl⟩

theorem Halted.trans (h : Halted l m) (h' : Halted m n) : Halted l n where
  around := by
    have hfirst := h.around
    have hlater := h'.around
    exact ⟨hlater.sessions.trans hfirst.sessions, hlater.requests.trans hfirst.requests,
      hlater.idle.trans hfirst.idle, hlater.watched.trans hfirst.watched,
      hlater.stop.trans hfirst.stop, hlater.trace.trans hfirst.trace,
      hlater.grants.trans hfirst.grants, hlater.issued.trans hfirst.issued,
      hlater.journal.trans hfirst.journal, rfl, hlater.job.trans hfirst.job,
      hlater.ending.trans hfirst.ending⟩
  phase := by
    rcases h'.phase with hsame | hempty
    · rcases h.phase with hsame' | hempty'
      · exact .inl (hsame.trans hsame')
      · exact .inr (hsame.trans hempty')
    · exact .inr hempty

theorem Around.halted (h : Around l m) : Halted l m := by
  refine ⟨?_, .inl h.phase⟩
  rw [h.phase]
  exact h

/-- What the server leaves behind when it has ended for a reason, in a step from `a`, and nothing
but its surroundings have changed since. -/
structure Finished (why : Stop) (a m : Loop) : Prop where
  ending : m.ending = some (.stopped why.reason)
  shutsDown : ShutsDown why a.server a.step.server
  order : a.server.requests.Sorted
  since : Around a.step m
  listens : m.server.net.listens = false
  sessions : m.server.sessions.entries = []
  records : m.server.requests.records = []
  held : ∀ chip o, m.server.device.isHeld chip o = false
  releases : m.server.device.journal = a.server.device.journal ++
    a.server.requests.records.map fun e => .released e.2.handle
  settled : m.server.device.closed.Perm m.server.device.given
  once : m.server.device.closed.Nodup
  cause : m.server.causes = [why]

/-- A server that has ended does nothing. -/
theorem around_of_ended (hend : l.ending.isSome = true) (as : List Action) :
    Around l (l.play as) := by
  refine play_induction (P := Around l) l as (Around.refl l) ?_
  intro m a _ hm
  by_cases ha : a = .serve
  · rw [ha]
    show Around l m.step
    rw [step_of_ending (by rw [hm.ending]; exact hend)]
    exact hm
  · exact hm.trans (around_act m ha)

theorem listens_play_of_ended (hend : l.ending.isSome = true) (as : List Action) :
    (l.play as).server.net.listens = l.server.net.listens := by
  induction as generalizing l with
  | nil => rfl
  | cons a as ih =>
      rw [play_cons]
      by_cases ha : a = .serve
      · subst ha
        show (l.step.play as).server.net.listens = _
        rw [step_of_ending hend]
        exact ih hend
      · rw [ih (by rw [(around_act l ha).ending]; exact hend), net_act l ha, listens_after]

/-- The step in which a server ends for a reason. -/
theorem finished_step {why : Stop} (hl : Played chips period l)
    (hstop : l.server.stop = some why) (hend : l.ending = none)
    (hphase : l.phase = .handling []) (cs : List Action) :
    Finished why l (l.step.play cs) := by
  have hcoherent := hl.coherent
  have hshut := shutsDown_drain why hcoherent.links.apart
    fun id => hcoherent.stopper why id hstop hend
  have hstep := step_drains hend (hcoherent.job_of_stop hstop) hphase hstop
  have hended : l.step.ending.isSome = true := by
    rw [hstep]
    rfl
  have hsince := around_of_ended hended cs
  have hplayed : Played chips period (l.step.play cs) := hl.step.play cs
  have hbalanced := hplayed.reachable.balanced
  have haccounted := hplayed.reachable.accounted
  have hserver : l.step.server = l.server.drain why := by
    rw [hstep]
    rfl
  have hrecords : (l.step.play cs).server.requests.records = [] := by
    rw [hsince.requests, hserver]
    exact hshut.emptied.records
  have hsettled : (l.step.play cs).server.device.closed.Perm
      (l.step.play cs).server.device.given := by
    have h := haccounted.settled
    rw [hrecords, List.map_nil, List.append_nil] at h
    exact h
  constructor
  · rw [hsince.ending, hstep]
    rfl
  · rw [hserver]
    exact hshut
  · exact hl.reachable.balanced.sorted
  · exact hsince
  · rw [listens_play_of_ended hended, hserver]
    exact hshut.listens
  · rw [hsince.sessions, hserver]
    exact hshut.sessions
  · exact hrecords
  · intro chip o
    rw [← Bool.not_eq_true, Device.isHeld_iff, hbalanced.lines_perm.mem_iff, Requests.lines, hrecords]
    exact List.not_mem_nil
  · rw [hsince.journal, hserver]
    exact journal_drain l.server why
  · exact hsettled
  · rw [hsettled.nodup_iff, haccounted.given]
    exact List.nodup_range'
  · rw [hplayed.causes, hsince.stop, hserver, hshut.stop, hstop]
    rfl

/-- Where no event is left to forget, the next step is the last. -/
theorem finishes_of_forgotten {why : Stop} (hl : Played chips period l)
    (hstop : l.server.stop = some why) (hend : l.ending = none)
    (hphase : l.phase = .handling []) (bs : List Action) :
    .serve ∉ bs ∧ Halted l (l.play bs) ∨
      ∃ as cs, bs = as ++ .serve :: cs ∧ .serve ∉ as ∧ Halted l (l.play as) ∧
        Finished why (l.play as) (l.play bs) := by
  induction bs generalizing l with
  | nil => exact .inl ⟨List.not_mem_nil, Halted.refl l⟩
  | cons b bs ih =>
      by_cases hb : b = .serve
      · subst hb
        exact .inr ⟨[], bs, rfl, List.not_mem_nil, Halted.refl l,
          finished_step hl hstop hend hphase bs⟩
      · have haround := around_act l hb
        rcases ih (hl.act b) (haround.stop.trans hstop) (haround.ending.trans hend)
          (haround.phase.trans hphase) with ⟨hno, hhalted⟩ | ⟨as, cs, rfl, hno, hhalted, hfinished⟩
        · exact .inl ⟨by simpa [Ne.symm hb] using hno, haround.halted.trans hhalted⟩
        · exact .inr ⟨b :: as, cs, rfl, by simpa [Ne.symm hb] using hno,
            haround.halted.trans hhalted, hfinished⟩

/-- Whatever has happened since `l`, the server has done nothing but forget the events that were
reported together with its reason to stop, which takes it at most one step, or it has ended for this
reason with its next step. -/
def EndsFor (why : Stop) (l : Loop) (bs : List Action) : Prop :=
  bs.count .serve ≤ 1 ∧ Halted l (l.play bs) ∨
    ∃ as cs, bs = as ++ .serve :: cs ∧ as.count .serve ≤ 1 ∧ Halted l (l.play as) ∧
      Finished why (l.play as) (l.play bs)

theorem finishes_of_stop {why : Stop} (hl : Played chips period l)
    (hstop : l.server.stop = some why) (hend : l.ending = none) (bs : List Action) :
    EndsFor why l bs := by
  induction bs generalizing l with
  | nil => exact .inl ⟨Nat.zero_le _, Halted.refl l⟩
  | cons b bs ih =>
      by_cases hb : b = .serve
      · subst hb
        obtain ⟨es, hphase⟩ := hl.coherent.stopping why hstop hend
        cases es with
        | nil =>
            exact .inr ⟨[], bs, rfl, Nat.zero_le _, Halted.refl l,
              finished_step hl hstop hend hphase bs⟩
        | cons e es =>
            have hstep := step_forgets hend (hl.coherent.job_of_stop hstop) hphase hstop
            have hforgotten : Halted l l.step := by
              rw [hstep]
              exact ⟨Around.refl _, .inr rfl⟩
            have hcount : ∀ as : List Action, .serve ∉ as → (.serve :: as).count .serve ≤ 1 := by
              intro as has
              exact Nat.le_of_eq (by rw [List.count_cons_self, List.count_eq_zero.mpr has])
            rcases finishes_of_forgotten hl.step (by rw [hstep]; exact hstop)
                (by rw [hstep]; exact hend) (by rw [hstep]) bs
              with ⟨hno, hhalted⟩ | ⟨as, cs, rfl, hno, hhalted, hfinished⟩
            · exact .inl ⟨hcount bs hno, hforgotten.trans hhalted⟩
            · exact .inr ⟨.serve :: as, cs, rfl, hcount as hno, hforgotten.trans hhalted,
                hfinished⟩
      · have haround := around_act l hb
        rcases ih (hl.act b) (haround.stop.trans hstop) (haround.ending.trans hend)
          with ⟨hcount, hhalted⟩ | ⟨as, cs, rfl, hcount, hhalted, hfinished⟩
        · exact .inl ⟨by rwa [List.count_cons_of_ne hb], haround.halted.trans hhalted⟩
        · exact .inr ⟨b :: as, cs, rfl, by rwa [List.count_cons_of_ne hb],
            haround.halted.trans hhalted, hfinished⟩

/-- A server that shows a reason to stop ends for this reason. -/
theorem Played.shuts_down {why : Stop} (hl : Played chips period l)
    (hcause : why ∈ l.server.causes) (hend : l.ending = none) (bs : List Action) :
    EndsFor why l bs := by
  rw [hl.causes, Option.mem_toList] at hcause
  exact finishes_of_stop hl hcause hend bs

end Halting

end Loop
end LineKeeper
