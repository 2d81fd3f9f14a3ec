import Mathlib.Data.List.Infix
import LineKeeper.Proofs.Batches
import LineKeeper.Proofs.IdleStops
import LineKeeper.Proofs.Shutdown

/-!
# Clients that wait while the server stops

As the timer of a server expires, only the use-count decides whether the server stops, and a
client that waits to be accepted does not count (`idlesNext_iff`).  So the order of the events
decides.

* **The listener first** (`InLine`).  The server takes up the connection at the head of the line
  (`InLine.takesUp`).  If its client is admitted, the server goes on until a later turn has
  found it unused and a full period has passed (`InLine.spared`).  Otherwise nobody uses the
  server on account of this connection (`Outcome`), and it does not hold the timer
  (`idlesNext_of_unseated`).
* **The timer first** (`IdlesNext`).  The server stops, and whoever waits is refused
  (`IdlesNext.refuses`).

These are the only ways for a client to be waiting there:  if it waited before the batch was
reported then the listener is in the same batch, because nothing but the listener, the signals
and the timer can be ready at a server that nobody uses (`Asks.reports_listener`).  Either its
event is still to come, or no session has come of it.  Otherwise the client has come since
(`behind_of_idlesNext`).
-/

namespace LineKeeper

/-- The server has closed its end of a link that it never accepted. -/
def Link.IsRefused (l : Link) : Prop :=
  l.client.broken = true ∧ l.server.isOpen = false

namespace Net

variable {net : Net} {k : Nat}

section Refusing

/-- A link was refused. -/
def Refuses (net : Net) (k : Nat) : Prop :=
  ∃ l, net.links[k]? = some l ∧ l.IsRefused

theorem refused_of_abandon {links : List Link} {waiting : List Nat} (hk : k ∈ waiting)
    (hplaced : k < links.length) :
    ∃ l, (waiting.foldl (fun links i => links.modify i Link.abandon) links)[k]? = some l ∧
      l.IsRefused := by
  induction waiting generalizing links with
  | nil => cases hk
  | cons i waiting ih =>
      rw [List.foldl_cons]
      by_cases hlater : k ∈ waiting
      · exact ih hlater (by rwa [List.length_modify])
      · obtain rfl : k = i := (List.mem_cons.mp hk).resolve_right hlater
        refine ⟨links[k].abandon, ?_, rfl, rfl⟩
        rw [links_abandon _ hlater, List.getElem?_modify_eq, List.getElem?_eq_getElem hplaced]
        rfl

/-- Whoever waits as the server stops listening is refused. -/
theorem refuses_stopListening (hk : k ∈ net.waiting) (hplaced : k < net.links.length) :
    net.stopListening.Refuses k :=
  refused_of_abandon hk hplaced

end Refusing

end Net

namespace Server

variable {s t : Server} {e : Readiness} {job : Option Job}

section Events

/-- Only the event of the timer stops a server as an unused one. -/
theorem Begins.timed_of_idle (h : Begins s e t job) (hstop : s.stop = none)
    (hidle : t.stop = some .idle) : Receiver.ofToken? e.token = some .idleTimer := by
  have hkept : t.stop ≠ s.stop := by
    rw [hidle, hstop]
    rintro ⟨⟩
  cases h with
  | accepted _ => exact absurd s.reception.stop hkept
  | signalled _ =>
      rcases s.takeSignals_cases.1 with hsame | ⟨signal, hsignal⟩
      · exact absurd hsame hkept
      · rw [hsignal] at hidle
        cases hidle
  | timed htoken => exact htoken
  | @heard id session r _ _ =>
      exact absurd hidle ((hearing _ id session.peer r).stop_ne_idle hstop)
  | left _ _ _ _ _ _ => exact absurd (stop_dropClient _ _) hkept
  | nothing _ _ => exact absurd rfl hkept
  | stray _ => exact absurd rfl hkept

/-- Only the event of the listener changes who waits. -/
theorem Begins.waiting (h : Begins s e t job)
    (htoken : Receiver.ofToken? e.token ≠ some .listener) : t.net.waiting = s.net.waiting := by
  cases h with
  | accepted hlistener => exact absurd hlistener htoken
  | signalled _ => rw [s.takeSignals_cases.2.2.2.1]
  | timed _ => rw [s.takeExpiry_cases.2.2.2.1]
  | @heard id session r hs _ =>
      exact ((confined_afterReading hs r).trans (hearing _ id session.peer r).confined).waiting
  | left report _ _ hs _ _ => exact (confined_afterLeaving hs report).waiting
  | nothing _ _ => rfl
  | stray _ => rfl

/-- A server that nobody uses has nothing to do at its end but to stop listening. -/
theorem net_drain_of_unused (h : s.Unused) : (s.drain .idle).net = s.net.stopListening := by
  have hreleased : (s.log (.exiting s.sessions.length s.requests.length)).stopListening.releaseAll =
      { (s.log (.exiting s.sessions.length s.requests.length)).stopListening with
        requests := s.requests.drain.2 } := by
    have hrecords : s.requests.drain.1 = [] := h.records
    show s.requests.drain.1.foldl releaseHeld _ = _
    rw [hrecords]
    rfl
  have hids : s.sessions.ids = [] := congrArg (List.map Prod.fst) h.sessions
  unfold drain
  dsimp only
  rw [hreleased, dropAllBut]
  show (((s.sessions.ids.filter _).foldl dropClient _).log _).net = _
  rw [hids]
  rfl

end Events

end Server

namespace Loop

open Server

variable {l : Loop} {chips : Chips} {period n k : Nat} {a : Action} {as bs : List Action}
  {ds : List Readiness} {why : Stop}

section Stopping

/-- The next step stops the server because nobody uses it. -/
structure IdlesNext (l : Loop) : Prop where
  ending : l.ending = none
  job : l.job = none
  stop : l.server.stop = none
  batch : ∃ e es, l.phase = .handling (e :: es) ∧ Receiver.ofToken? e.token = some .idleTimer
  unused : l.server.Unused
  expired : ∃ d, l.server.idle.deadline = some d ∧ d ≤ l.server.now

theorem IdlesNext.ends (h : IdlesNext l) : Ends l 3 := by
  obtain ⟨e, es, hphase, htoken⟩ := h.batch
  obtain ⟨d, hd, hlate⟩ := h.expired
  exact .notices d e es h.ending h.job hphase h.stop htoken (unused_iff.mp h.unused) hd hlate

theorem IdlesNext.stops (h : IdlesNext l) :
    l.step.ending = none ∧ l.step.server.stop = some .idle := by
  obtain ⟨e, es, hphase, htoken⟩ := h.batch
  obtain ⟨d, hd, hlate⟩ := h.expired
  rw [step_of_timer h.ending h.job hphase h.stop htoken]
  exact ⟨h.ending, stop_takeExpiry hd hlate (unused_iff.mp h.unused)⟩

/-- A server stops for this reason as it handles the expiry, if nobody uses it, whoever waits. -/
theorem idlesNext_iff (hend : l.ending = none) (hstop : l.server.stop = none) :
    l.step.server.stop = some .idle ↔ IdlesNext l := by
  constructor
  · intro hidle
    obtain ⟨e, es, -, hjob, hphase, hbegins⟩ := exists_begins_of_stop hstop hidle
    have htoken := hbegins.timed_of_idle hstop hidle
    rw [step_of_timer hend hjob hphase hstop htoken] at hidle
    change l.server.takeExpiry.stop = some .idle at hidle
    cases l.server.expires with
    | early _ hsame =>
        rw [hsame, hstop] at hidle
        cases hidle
    | expired d hd hlate _ _ _ hreason =>
        have hunused : l.server.useCount = 0 := by
          by_contra hused
          rw [hreason, if_neg hused, hstop] at hidle
          cases hidle
        exact ⟨hend, hjob, hstop, ⟨e, es, hphase, htoken⟩, unused_iff.mpr hunused, d, hd, hlate⟩
  · exact fun h => h.stops.2

/-- No connection is taken up any more. -/
theorem Ends.accepts?_eq_none (h : Ends l n) : l.accepts? = none := by
  cases h with
  | notices d e es hend hjob hphase hstop htoken =>
      simp only [accepts?, hend, hjob, hstop, hphase, htoken]
  | forgets e es hend hjob _ hstop => simp only [accepts?, hend, hjob, hstop]
  | leaves hend hjob _ hstop => simp only [accepts?, hend, hjob, hstop]
  | ended hend => simp only [accepts?, hend]

/-- Link `k` waits, and the server is `n` steps from its end because nobody uses it. -/
structure Doomed (k n : Nat) (l : Loop) : Prop where
  ends : Ends l n
  coherent : Coherent l
  ending : l.ending = none
  unused : l.server.Unused
  waits : k ∈ l.server.net.waiting

theorem Doomed.around (h : Doomed k n l) (ha : a ≠ .serve) : Doomed k n (l.act a) where
  ends := h.ends.around (around_act l ha) (now_le_act l a)
  coherent :=
    h.coherent.around (h.coherent.links.after (around_act l ha).sessions (net_act l ha))
      (around_act l ha)
  ending := (around_act l ha).ending.trans h.ending
  unused := ⟨(around_act l ha).sessions ▸ h.unused.sessions,
    (around_act l ha).requests ▸ h.unused.records⟩
  waits := by
    rw [net_act l ha]
    exact mem_waiting_after a h.waits

/-- The last step refuses the client, and those before leave it waiting. -/
theorem Doomed.step (h : Doomed k n l) :
    (∃ m, m ≤ n - 1 ∧ Doomed k m l.step) ∨ l.step.server.net.Refuses k := by
  obtain ⟨m, hm, hends⟩ := h.ends.step
  have hcoherent := h.coherent.step
  cases h.ends with
  | notices d e es _ hjob hphase hstop htoken _ _ _ =>
      left
      obtain ⟨-, hsessions, -, hnet, -⟩ := l.server.takeExpiry_cases
      have hrequests := (quiet_takeExpiry l.server).requests
      have hwaits : k ∈ l.server.takeExpiry.net.waiting := hnet ▸ h.waits
      rw [step_of_timer h.ending hjob hphase hstop htoken] at hends hcoherent ⊢
      exact ⟨m, hm, hends, hcoherent, h.ending,
        ⟨hsessions ▸ h.unused.sessions, hrequests ▸ h.unused.records⟩, hwaits⟩
  | forgets e es _ hjob hphase hstop =>
      left
      rw [step_forgets h.ending hjob hphase hstop] at hends hcoherent ⊢
      exact ⟨m, hm, hends, hcoherent, h.ending, h.unused, h.waits⟩
  | leaves _ hjob hphase hstop =>
      right
      rw [step_drains h.ending hjob hphase hstop]
      show (l.server.drain .idle).net.Refuses k
      rw [net_drain_of_unused h.unused]
      exact Net.refuses_stopListening h.waits
        (h.coherent.links.placed k (List.mem_append_right _ h.waits))
  | ended hended =>
      rw [h.ending] at hended
      cases hended

theorem Doomed.refuses (h : Doomed k n l) (hserves : n ≤ bs.count .serve) :
    ∃ cs es, bs = cs ++ .serve :: es ∧ (l.play cs).step.server.net.Refuses k := by
  induction bs generalizing l n with
  | nil =>
      obtain rfl : n = 0 := Nat.le_zero.mp hserves
      cases h.ends with
      | ended hended =>
          rw [h.ending] at hended
          cases hended
  | cons b bs ih =>
      have hlater : ∀ m, Doomed k m (l.act b) → m ≤ bs.count .serve →
          ∃ cs es, b :: bs = cs ++ .serve :: es ∧
            (l.play cs).step.server.net.Refuses k := by
        intro m hdoomed hle
        obtain ⟨cs, es, rfl, hrefuses⟩ := ih hdoomed hle
        exact ⟨b :: cs, es, rfl, hrefuses⟩
      by_cases hb : b = .serve
      · subst hb
        rw [List.count_cons_self] at hserves
        rcases h.step with ⟨m, hm, hdoomed⟩ | hrefuses
        · exact hlater m hdoomed (by omega)
        · exact ⟨[], bs, rfl, hrefuses⟩
      · rw [List.count_cons_of_ne hb] at hserves
        exact hlater n (h.around hb) hserves

/-- Once the timer's event is next the server stops, and every client that waits is refused. -/
theorem IdlesNext.refuses (h : IdlesNext l) (hl : Coherent l) (hk : k ∈ l.server.net.waiting)
    (hserves : 3 ≤ bs.count .serve) :
    (l.play bs).ending = some (.stopped .idleTimeout) ∧
      (∀ cs, cs <+: bs → (l.play cs).accepts? = none) ∧
      ∃ cs es, bs = cs ++ .serve :: es ∧ (l.play cs).step.server.net.Refuses k := by
  have hdoomed : Doomed k 3 l := ⟨h.ends, hl, h.ending, h.unused, hk⟩
  refine ⟨h.ends.ending hserves, fun cs _ => ?_, hdoomed.refuses hserves⟩
  obtain ⟨m, -, hends⟩ := h.ends.play cs
  exact hends.accepts?_eq_none

/-- A reason to stop stays the reason. -/
theorem stop_play (hl : Played chips period l) (hend : l.ending = none)
    (hstop : l.server.stop = some why) (bs : List Action) :
    (l.play bs).server.stop = some why ∧ (IdlesOut (l.play bs) → why = .idle) := by
  rcases finishes_of_stop hl hstop hend bs with ⟨-, hhalted⟩ | ⟨as, cs, -, -, hhalted, hfinished⟩
  · have hsame := hhalted.around.stop.trans hstop
    refine ⟨hsame, ?_⟩
    rintro (⟨-, hidle⟩ | hended)
    · exact Option.some.inj (hsame.symm.trans hidle)
    · rw [hhalted.around.ending.trans hend] at hended
      cases hended
  · have hsame := (hfinished.since.stop.trans hfinished.shutsDown.stop).trans
      (hhalted.around.stop.trans hstop)
    refine ⟨hsame, ?_⟩
    rintro (⟨hrunning, -⟩ | hended)
    · rw [hfinished.ending] at hrunning
      cases hrunning
    · rw [hfinished.ending] at hended
      cases why with
      | idle => rfl
      | _ => cases hended

end Stopping

section Admitting

/-- What comes of taking up link `k` in the next step:  its client is admitted, or the attempt fails
and the link waits on, or the link is closed.  A client that is not admitted does not use the
server. -/
inductive Outcome (k : Nat) (l : Loop) : Prop
  | admitted (id : ClientId) (hseats : l.seats? = some (id, k))
      (hused : ¬ l.step.server.Unused)
  | failed (errno : Errno) (hfails : (l.server.net.originOf k).failures.head? = some errno)
      (hseats : l.seats? = none) (hline : l.step.server.net.waiting = l.server.net.waiting)
      (hkept : l.step.server.sessions.entries = l.server.sessions.entries)
  | closed (hrefused : (l.server.net.originOf k).isAdmitted = false) (hseats : l.seats? = none)
      (hline : l.server.net.waiting = k :: l.step.server.net.waiting)
      (hclosed : l.step.server.net.ClosedAt k)
      (hkept : l.step.server.sessions.entries = l.server.sessions.entries)

theorem isAdmitted_of_unseated (haccepts : l.accepts? = some k) (hseats : l.seats? = none) :
    (l.server.net.originOf k).isAdmitted = false := by
  rw [← Bool.not_eq_true]
  intro hadmitted
  simp only [seats?, haccepts, hadmitted, if_true] at hseats
  cases hseats

theorem outcome_of_accepts? (haccepts : l.accepts? = some k) : Outcome k l := by
  cases received haccepts with
  | failed ks errno _ _ hseats hfails hserver =>
      exact .failed errno hfails hseats (by rw [hserver]; rfl) (by rw [hserver]; rfl)
  | turnedAway ks report hwaiting _ hseats hserver =>
      refine .closed (isAdmitted_of_unseated haccepts hseats) hseats ?_ ?_ ?_ <;> rw [hserver]
      · exact hwaiting
      · exact closedAt_modify _ k
      · rfl
  | seatedBriefly ks errno hwaiting _ hseats hserver =>
      refine .closed (isAdmitted_of_unseated haccepts hseats) hseats ?_ ?_ ?_ <;> rw [hserver]
      · exact hwaiting
      · exact closedAt_modify _ k
      · exact entries_seatBriefly _ _ ks errno
  | seated ks _ _ hseats _ =>
      exact .admitted _ hseats (used_of_accepted (by rw [hseats]; rfl))

theorem Outcome.kept (h : Outcome k l) (hnone : l.seats? = none) :
    l.step.server.sessions.entries = l.server.sessions.entries := by
  cases h with
  | admitted id hseats _ => cases hnone.symm.trans hseats
  | failed _ _ _ _ hkept => exact hkept
  | closed _ _ _ _ hkept => exact hkept

/-- A connection whose client is not admitted does not hold the timer. -/
theorem idlesNext_of_unseated (haccepts : l.accepts? = some k) (hseats : l.seats? = none)
    (hunused : l.server.Unused) (hexpired : ∃ d, l.server.idle.deadline = some d ∧
      d ≤ l.server.now)
    (hbatch : ∃ e es, l.step.phase = .handling (e :: es) ∧
      Receiver.ofToken? e.token = some .idleTimer) : IdlesNext l.step := by
  obtain ⟨-, -, hstop, -⟩ := eq_of_accepts? haccepts
  obtain ⟨hend', hjob', hserver⟩ := accept_of_accepts? haccepts
  have hkept := (outcome_of_accepts? haccepts).kept hseats
  have hreception := l.server.reception
  rw [← hserver] at hreception
  refine ⟨hend', hjob', hreception.stop.trans hstop, hbatch, ⟨?_, ?_⟩, ?_⟩
  · exact hkept.trans hunused.sessions
  · rw [hreception.requests]
    exact hunused.records
  · rw [hreception.idle, hreception.now]
    exact hexpired

end Admitting

section Lining

/-- The listener's event is to be handled after `ds`, and link `k` is at the head of the line. -/
structure InLine (k : Nat) (ds : List Readiness) (l : Loop) : Prop where
  ending : l.ending = none
  stop : l.server.stop = none
  batch : ∃ e es, l.phase = .handling (ds ++ e :: es) ∧
    Receiver.ofToken? e.token = some .listener
  first : ∃ ks, l.server.net.waiting = k :: ks

/-- How many steps come before the one that takes up the link, at most. -/
def stepsBefore (l : Loop) (ds : List Readiness) : Nat :=
  (if l.job.isSome then 1 else 0) + 2 * ds.length

theorem stepsBefore_le (l : Loop) (ds : List Readiness) : l.stepsBefore ds ≤ 2 * ds.length + 1 := by
  unfold stepsBefore
  split <;> omega

/-- What a step means to the client at the head of the line. -/
inductive Nears (k : Nat) (ds : List Readiness) (l : Loop) : Prop
  | stuck (h : l.isStuck = true)
  | nearer (es : List Readiness) (hes : es <:+ ds) (h : InLine k es l.step)
      (hless : l.step.stepsBefore es < l.stepsBefore ds)
  | takenUp (haccepts : l.accepts? = some k)
  | stopped (why : Stop) (hend : l.step.ending = none) (hstop : l.step.server.stop = some why)
      (hidle : why = .idle → ∃ d ∈ ds, Receiver.ofToken? d.token = some .idleTimer)

/-- An event is handled: it is the listener's, or one of those before. -/
theorem InLine.begins {e : Readiness} {es : List Readiness} (h : InLine k ds l)
    (hjob : l.job = none) (hphase : l.phase = .handling (e :: es))
    (hbegins : Begins l.server e l.step.server l.step.job)
    (hm : l.step = ({ l with phase := .handling es, job := l.step.job }).withServer l.step.server) :
    Nears k ds l := by
  obtain ⟨d, es', hbatch, hlistener⟩ := h.batch
  obtain ⟨ks, hwaiting⟩ := h.first
  have hcons := Phase.handling.inj (hphase.symm.trans hbatch)
  by_cases htoken : Receiver.ofToken? e.token = some .listener
  · refine .takenUp ?_
    rw [accepts?_of_token h.ending hjob h.stop hphase htoken, hwaiting]
    rfl
  cases ds with
  | nil =>
      obtain ⟨rfl, -⟩ := List.cons.inj hcons
      exact absurd hlistener htoken
  | cons e' ds =>
      obtain ⟨rfl, rfl⟩ := List.cons.inj hcons
      have hend : l.step.ending = none := by
        rw [hm]
        exact h.ending
      cases hstop : l.step.server.stop with
      | some why =>
          refine .stopped why hend hstop ?_
          rintro rfl
          exact ⟨e, List.mem_cons_self, hbegins.timed_of_idle h.stop hstop⟩
      | none =>
          refine .nearer ds (List.suffix_cons e ds) ⟨hend, hstop, ⟨d, es', ?_, hlistener⟩, ks,
            (hbegins.waiting htoken).trans hwaiting⟩ ?_
          · rw [hm]
            rfl
          · have hle := l.step.stepsBefore_le ds
            simp only [stepsBefore, hjob, Option.isSome_none, Bool.false_eq_true, if_false,
              List.length_cons] at hle ⊢
            omega

theorem InLine.step (h : InLine k ds l) : Nears k ds l := by
  obtain ⟨d, es, hbatch, hlistener⟩ := h.batch
  obtain ⟨ks, hwaiting⟩ := h.first
  have hbusy : l.phase ≠ .handling [] := by
    rw [hbatch]
    intro hempty
    exact List.append_ne_nil_of_right_ne_nil _ (List.cons_ne_nil _ _) (Phase.handling.inj hempty)
  obtain ⟨-, hstays⟩ | ⟨job, -, hjob, -, hm⟩ | ⟨-, -, hphase, -⟩ | ⟨-, -, -, -, -, hsome, -⟩ |
      ⟨e, es', -, hjob, hphase, -, hbegins, hm⟩ | ⟨why, -, -, hphase, -, -⟩ |
      ⟨s, -, -, hphase, -, -, -⟩ | ⟨e, -, -, hphase, -, -, -⟩ := l.steps
  · refine .stuck (hstays.resolve_left ?_)
    rw [h.ending]
    rintro ⟨⟩
  · refine .nearer ds (List.suffix_refl ds) ⟨?_, ?_, ⟨d, es, ?_, hlistener⟩, ks, ?_⟩ ?_ <;> rw [hm]
    · exact h.ending
    · exact (stop_finish l.server job).trans h.stop
    · exact hbatch
    · exact (confined_finish l.server job).waiting.trans hwaiting
    · show 0 + 2 * ds.length < l.stepsBefore ds
      simp only [stepsBefore, hjob, Option.isSome_some, if_true]
      omega
  · rw [hphase] at hbatch
    cases hbatch
  · rw [h.stop] at hsome
    cases hsome
  · exact h.begins hjob hphase hbegins hm
  · exact absurd hphase hbusy
  · exact absurd hphase hbusy
  · exact absurd hphase hbusy

theorem InLine.around (h : InLine k ds l) (ha : a ≠ .serve) : InLine k ds (l.act a) where
  ending := (around_act l ha).ending.trans h.ending
  stop := (around_act l ha).stop.trans h.stop
  batch := by
    rw [(around_act l ha).phase]
    exact h.batch
  first := by
    obtain ⟨ks, hwaiting⟩ := h.first
    rw [net_act l ha]
    cases hlink : a.link? with
    | some i =>
        rw [after_of_link? _ hlink]
        exact ⟨ks, hwaiting⟩
    | none =>
        rcases after_of_link?_none l.server.net hlink with hsame | ⟨-, origin, -, hafter⟩
        · exact ⟨ks, by rw [hsame, hwaiting]⟩
        · exact ⟨ks ++ [l.server.net.links.length], by rw [hafter, hwaiting]; rfl⟩

/-- The device never keeps the server waiting. -/
def NeverStuck (l : Loop) (bs : List Action) : Prop :=
  ∀ cs, cs <+: bs → (l.play cs).isStuck = false

/-- What has become of the client that was at the head of the line. -/
inductive Fate (k : Nat) (ds : List Readiness) (l : Loop) (bs : List Action) : Prop
  | waits (es : List Readiness) (hes : es <:+ ds) (h : InLine k es (l.play bs))
      (hsteps : NeverStuck l bs →
        (l.play bs).stepsBefore es + bs.count .serve ≤ l.stepsBefore ds)
  | takenUp (cs es : List Action) (hbs : bs = cs ++ .serve :: es)
      (haccepts : (l.play cs).accepts? = some k)
  | stopped (cs es : List Action) (why : Stop) (hbs : bs = cs ++ .serve :: es)
      (hend : (l.play cs).step.ending = none) (hstop : (l.play cs).step.server.stop = some why)
      (hidle : why = .idle → ∃ d ∈ ds, Receiver.ofToken? d.token = some .idleTimer)

theorem NeverStuck.earlier (h : NeverStuck l (bs ++ [a])) : NeverStuck l bs :=
  fun cs hcs => h cs (hcs.trans (List.prefix_append bs [a]))

theorem InLine.fate_serve {es : List Readiness} (h : InLine k es (l.play bs)) (hes : es <:+ ds)
    (hsteps : NeverStuck l bs →
      (l.play bs).stepsBefore es + bs.count .serve ≤ l.stepsBefore ds) :
    Fate k ds l (bs ++ [.serve]) := by
  have hplay : l.play (bs ++ [.serve]) = (l.play bs).step := play_concat l bs .serve
  cases h.step with
  | stuck hstuck =>
      have hsame := hplay.trans (step_of_stuck hstuck)
      refine .waits es hes (hsame ▸ h) fun hpasses => ?_
      rw [hpasses bs (List.prefix_append bs [.serve])] at hstuck
      cases hstuck
  | nearer es' hes' hnext hless =>
      rw [← hplay] at hnext hless
      refine .waits es' (hes'.trans hes) hnext fun hpasses => ?_
      have hle := hsteps hpasses.earlier
      rw [List.count_append, List.count_singleton_self]
      omega
  | takenUp haccepts => exact .takenUp bs [] rfl haccepts
  | stopped why hend hstop hidle =>
      refine .stopped bs [] why rfl hend hstop fun hwhy => ?_
      obtain ⟨d, hd, htoken⟩ := hidle hwhy
      exact ⟨d, hes.subset hd, htoken⟩

theorem InLine.fate_around {es : List Readiness} (h : InLine k es (l.play bs)) (hes : es <:+ ds)
    (hsteps : NeverStuck l bs →
      (l.play bs).stepsBefore es + bs.count .serve ≤ l.stepsBefore ds) (ha : a ≠ .serve) :
    Fate k ds l (bs ++ [a]) := by
  have hplay := play_concat l bs a
  refine .waits es hes (hplay ▸ h.around ha) fun hpasses => ?_
  have hcount : [a].count .serve = 0 := List.count_eq_zero.mpr (by simpa using Ne.symm ha)
  rw [hplay, stepsBefore, (around_act _ ha).job, List.count_append, hcount]
  exact hsteps hpasses.earlier

theorem InLine.play (h : InLine k ds l) (bs : List Action) : Fate k ds l bs := by
  induction bs using List.reverseRecOn with
  | nil => exact .waits ds (List.suffix_refl ds) h fun _ => Nat.le_refl _
  | append_singleton bs b ih =>
      cases ih with
      | takenUp cs es hbs haccepts =>
          exact .takenUp cs (es ++ [b]) (by rw [hbs, List.append_assoc]; rfl) haccepts
      | stopped cs es why hbs hend hstop hidle =>
          exact .stopped cs (es ++ [b]) why (by rw [hbs, List.append_assoc]; rfl) hend hstop hidle
      | waits es hes hline hsteps =>
          by_cases hb : b = .serve
          · rw [hb]
            exact hline.fate_serve hes hsteps
          · exact hline.fate_around hes hsteps hb

/-- A server that stops because nobody uses it has taken up the connection before, if the timer was
not reported before the listener.  If it has admitted the client, nobody has used it for a full
period since. -/
theorem InLine.spared (h : InLine k ds l) (hl : Played chips period l)
    (hfirst : ∀ d ∈ ds, Receiver.ofToken? d.token ≠ some .idleTimer)
    (hidles : IdlesOut (l.play bs)) :
    ∃ cs es, bs = cs ++ .serve :: es ∧ (l.play cs).accepts? = some k ∧ Outcome k (l.play cs) ∧
      ((l.play cs).seats?.isSome = true →
        ∃ t, UnusedSince (IdleTimer.ofPeriod period).period (l.play cs).step es t ∧
          t + (IdleTimer.ofPeriod period).period ≤ (l.play bs).server.now) := by
  cases h.play bs with
  | waits es _ hline _ =>
      rcases hidles with ⟨-, hidle⟩ | hended
      · rw [hline.stop] at hidle
        cases hidle
      · rw [hline.ending] at hended
        cases hended
  | takenUp cs es hbs haccepts =>
      subst hbs
      rw [play_append, play_cons] at hidles ⊢
      exact ⟨cs, es, rfl, haccepts, outcome_of_accepts? haccepts,
        fun hseats => since_of_accepted (hl.play cs) hseats hidles⟩
  | stopped cs es why hbs hend hstop hidle =>
      subst hbs
      rw [play_append, play_cons] at hidles
      have hwhy := (stop_play (hl.play cs).step hend hstop es).2 hidles
      obtain ⟨d, hd, htoken⟩ := hidle hwhy
      exact absurd htoken (hfirst d hd)

/-- It is taken up when the events before it have been handled, or the server stops for another
reason. -/
theorem InLine.takesUp (h : InLine k ds l) (hl : Played chips period l)
    (hfirst : ∀ d ∈ ds, Receiver.ofToken? d.token ≠ some .idleTimer)
    (hpasses : NeverStuck l bs)
    (hserves : 2 * ds.length + 2 ≤ bs.count .serve) :
    (∃ cs es, bs = cs ++ .serve :: es ∧ (l.play cs).accepts? = some k ∧
        Outcome k (l.play cs)) ∨
      ∃ why, why ≠ .idle ∧ (l.play bs).server.stop = some why := by
  cases h.play bs with
  | waits es _ _ hsteps =>
      have hle := hsteps hpasses
      have hmost := l.stepsBefore_le ds
      omega
  | takenUp cs es hbs haccepts =>
      exact .inl ⟨cs, es, hbs, haccepts, outcome_of_accepts? haccepts⟩
  | stopped cs es why hbs hend hstop hidle =>
      subst hbs
      refine .inr ⟨why, fun hwhy => ?_, ?_⟩
      · obtain ⟨d, hd, htoken⟩ := hidle hwhy
        exact absurd htoken (hfirst d hd)
      · rw [play_append, play_cons]
        exact (stop_play (hl.play cs).step hend hstop es).1

/-- A client that waits is in line after the next wait, if nobody uses the server. -/
theorem Asks.inLine (h : l.Asks) (hl : Played chips period l)
    (hbound : l.server.net.links.length < 2 ^ 64 - 16) (hunused : l.server.Unused)
    (hwaits : l.server.net.waiting ≠ []) : ∃ j ds, InLine j ds l.step := by
  obtain ⟨e, he, hlistener⟩ := h.reports_listener hl hbound hunused hwaits
  obtain ⟨j, ks, hwaiting⟩ := List.exists_cons_of_ne_nil hwaits
  obtain ⟨ds, es, hes⟩ := List.append_of_mem he
  rw [h.step_eq] at hes ⊢
  refine ⟨j, ds, h.ending, hl.coherent.no_stop_of_waiting h.ending h.phase,
    ⟨e, es, ?_, hlistener⟩, ks, hwaiting⟩
  unfold pending at hes
  split at hes
  · exact absurd hes.symm (List.append_ne_nil_of_right_ne_nil _ (List.cons_ne_nil _ _))
  · next hphase => rw [hphase, hes]

/-- As the event of the timer is next, the listener is behind it if it is in line at all. -/
theorem IdlesNext.behind (h : IdlesNext l) (hline : InLine k ds l) :
    ∃ e ∈ l.step.pending, Receiver.ofToken? e.token = some .listener := by
  obtain ⟨e, es, hphase, htimer⟩ := h.batch
  have hpending : l.step.pending = es := by
    rw [step_of_timer h.ending h.job hphase h.stop htimer]
    rfl
  obtain ⟨d, es', hbatch, hlistener⟩ := hline.batch
  have hcons := Phase.handling.inj (hphase.symm.trans hbatch)
  cases ds with
  | nil =>
      obtain ⟨rfl, -⟩ := List.cons.inj hcons
      rw [htimer] at hlistener
      cases hlistener
  | cons d' ds =>
      obtain ⟨-, rfl⟩ := List.cons.inj hcons
      refine ⟨d, ?_, hlistener⟩
      rw [hpending]
      exact List.mem_append_right ds List.mem_cons_self

/-- The event of the listener was in the batch that is handled, and no session came of it. -/
def HasTakenUp (chips : Chips) (period : Nat) (as : List Action) : Prop :=
  ∃ bs xs ys k, as = bs ++ .serve :: (xs ++ .serve :: ys) ∧
    Reports (start chips period) bs (xs ++ .serve :: ys) ∧
    ((start chips period).play (bs ++ .serve :: xs)).accepts? = some k ∧
    ((start chips period).play (bs ++ .serve :: xs)).seats? = none

/-- Whoever waits as the event of the timer is next is still to be reported behind it, or has come
since the batch was reported, or the listener was reported before it in vain. -/
theorem behind_of_idlesNext
    (hbound : ((start chips period).play as).server.net.links.length < 2 ^ 64 - 16)
    (h : IdlesNext ((start chips period).play as)) :
    (∃ e ∈ ((start chips period).play as).step.pending,
        Receiver.ofToken? e.token = some .listener) ∨
      (∃ bs cs, as = bs ++ .serve :: cs ∧ Reports (start chips period) bs cs ∧
        ((start chips period).play bs).server.net.waiting = []) ∨
      HasTakenUp chips period as := by
  obtain ⟨e, es, hphase, -⟩ := h.batch
  have hleft : ((start chips period).play as).pending ≠ [] := by
    rw [pending, hphase]
    exact List.cons_ne_nil e es
  obtain ⟨bs, cs, rfl, hreports⟩ := exists_reports hleft
  by_cases hwaits : ((start chips period).play bs).server.net.waiting = []
  · exact .inr (.inl ⟨bs, cs, rfl, hreports, hwaits⟩)
  have hidles : IdlesOut ((start chips period).play (bs ++ .serve :: (cs ++ [.serve]))) := by
    rw [← List.cons_append, ← List.append_assoc, play_concat]
    exact .inl h.stops
  obtain ⟨t, hsince, -⟩ := since_of_idlesOut hidles
  obtain ⟨hunused, hunused'⟩ := hreports.unused hsince
  have hplayed : Played chips period ((start chips period).play bs) := ⟨bs, rfl⟩
  rw [play_append] at hbound h ⊢
  have hbefore := Nat.lt_of_le_of_lt (length_le_play hplayed (.serve :: cs)) hbound
  obtain ⟨j, ds, hline⟩ := hreports.asks.inLine hplayed hbefore hunused hwaits
  cases hline.play cs with
  | waits ds' _ hstill _ => exact .inl (h.behind hstill)
  | takenUp xs ys hcs haccepts =>
      have hearlier : ((start chips period).play (bs ++ .serve :: xs)) =
          ((start chips period).play bs).step.play xs := by rw [play_append, play_cons]; rfl
      cases hseats : (((start chips period).play bs).step.play xs).seats? with
      | none =>
          subst hcs
          exact .inr (.inr ⟨bs, xs, ys, j, rfl, hreports, hearlier ▸ haccepts, hearlier ▸ hseats⟩)
      | some p =>
          -- somebody would have used the server since
          have hused := used_of_accepted (by rw [hseats]; rfl)
          refine absurd (hunused' (xs ++ [.serve]) ?_) ?_
          · rw [hcs, List.append_assoc, List.cons_append]
            exact (List.prefix_append_right_inj xs).mpr
              (List.cons_prefix_cons.mpr ⟨rfl, List.nil_prefix⟩)
          · rw [← List.cons_append, ← List.append_assoc, play_concat, hearlier]
            exact hused
  | stopped xs ys why hcs hend hstop _ =>
      have hstopped := (stop_play (hplayed.step.play xs).step hend hstop ys).1
      have hnone := h.stop
      rw [hcs, play_cons, play_append] at hnone
      cases hnone.symm.trans hstopped

end Lining

section Rule

/-- What becomes of a client that waits as the server could stop because nobody uses it.  `P` is the
period. -/
structure WaitingRule (chips : Chips) (period P : Nat) : Prop where
  /-- Whether the server stops so depends on the timer and on its use, and not on who waits. -/
  stops : ∀ l, Played chips period l → l.ending = none → l.server.stop = none →
    (l.step.server.stop = some .idle ↔ IdlesNext l)
  /-- If the listener is to be handled before the timer, the server stops so only after it has taken
  up the connection at the head of the line, and has been unused for a full period since if it has
  admitted the client. -/
  spares : ∀ l, Played chips period l → ∀ k ds, InLine k ds l →
    (∀ d ∈ ds, Receiver.ofToken? d.token ≠ some .idleTimer) → ∀ bs, IdlesOut (l.play bs) →
      ∃ cs es, bs = cs ++ .serve :: es ∧ (l.play cs).accepts? = some k ∧
        Outcome k (l.play cs) ∧
        ((l.play cs).seats?.isSome = true →
          ∃ t, UnusedSince P (l.play cs).step es t ∧ t + P ≤ (l.play bs).server.now)
  /-- It does take up this connection, unless it stops for another reason first. -/
  takesUp : ∀ l, Played chips period l → ∀ k ds, InLine k ds l →
    (∀ d ∈ ds, Receiver.ofToken? d.token ≠ some .idleTimer) → ∀ bs, NeverStuck l bs →
      2 * ds.length + 2 ≤ bs.count .serve →
        (∃ cs es, bs = cs ++ .serve :: es ∧ (l.play cs).accepts? = some k ∧
          Outcome k (l.play cs)) ∨
          ∃ why, why ≠ .idle ∧ (l.play bs).server.stop = some why
  /-- A connection whose client is not admitted does not hold the timer: if nobody uses the server,
  and the event of the expired timer is the next one, the server stops. -/
  unheld : ∀ (l : Loop) (k : Nat), l.accepts? = some k → l.seats? = none → l.server.Unused →
    (∃ d, l.server.idle.deadline = some d ∧ d ≤ l.server.now) →
    (∃ e es, l.step.phase = .handling (e :: es) ∧
      Receiver.ofToken? e.token = some .idleTimer) → IdlesNext l.step
  /-- If the timer comes first, the server ends, takes up no connection and refuses whoever
  waits. -/
  refuses : ∀ l, Played chips period l → IdlesNext l → ∀ k ∈ l.server.net.waiting, ∀ bs,
    3 ≤ bs.count .serve → (l.play bs).ending = some (.stopped .idleTimeout) ∧
      (∀ cs, cs <+: bs → (l.play cs).accepts? = none) ∧
      ∃ cs es, bs = cs ++ .serve :: es ∧ (l.play cs).step.server.net.Refuses k
  /-- Then the listener is behind the timer in the same batch, or nobody waited as the batch was
  reported, or the listener was before the timer and no session came of it. -/
  behind : ∀ as, ((start chips period).play as).server.net.links.length < 2 ^ 64 - 16 →
    IdlesNext ((start chips period).play as) →
      (∃ e ∈ ((start chips period).play as).step.pending,
          Receiver.ofToken? e.token = some .listener) ∨
        (∃ bs cs, as = bs ++ .serve :: cs ∧ Reports (start chips period) bs cs ∧
          ((start chips period).play bs).server.net.waiting = []) ∨
        HasTakenUp chips period as

theorem waitingRule (chips : Chips) (period : Nat) :
    WaitingRule chips period (IdleTimer.ofPeriod period).period where
  stops := fun _ _ => idlesNext_iff
  spares := fun _ hl _ _ h hfirst _ => h.spared hl hfirst
  takesUp := fun _ hl _ _ h hfirst _ => h.takesUp hl hfirst
  unheld := fun _ _ => idlesNext_of_unseated
  refuses := fun _ hl h _ hk _ => h.refuses hl.coherent hk
  behind := fun _ => behind_of_idlesNext

/-- A client has connected after the timer of an unused server has expired, and before the server
asks. -/
def overdue : Loop :=
  (start Chips.none 0).play [.serve, .pass nanosPerMilli, .connect (.usual ⟨0, 0, ""⟩), .serve]

/-- Neither that nobody waits as a server stops because nobody uses it, nor that a client reported
together with the timer is accepted before. -/
theorem overdue_refused :
    (overdue.pending.map fun e => Receiver.ofToken? e.token) =
        [some .idleTimer, some .listener] ∧
      overdue.server.net.waiting = [0] ∧
      (overdue.play [.serve, .serve, .serve]).ending = some (.stopped .idleTimeout) ∧
      (overdue.play [.serve, .serve, .serve]).server.sessions.next = ClientId.first ∧
      ¬ (∀ l, Played Chips.none 0 l → l.server.net.waiting ≠ [] → ¬ IdlesOut l) ∧
      ¬ (∀ l, Played Chips.none 0 l →
        (∃ e ∈ l.pending, Receiver.ofToken? e.token = some .listener) →
        (∃ e ∈ l.pending, Receiver.ofToken? e.token = some .idleTimer) →
          ∀ k ∈ l.server.net.waiting, ∀ bs, IdlesOut (l.play bs) →
            ∃ cs es id, bs = cs ++ .serve :: es ∧ (l.play cs).seats? = some (id, k)) := by
  have hplayed : Played Chips.none 0 overdue := ⟨_, rfl⟩
  have hpending : overdue.pending = [⟨2, false⟩, ⟨0, false⟩] := by decide +kernel
  have hwaiting : overdue.server.net.waiting = [0] := by decide +kernel
  have hidles : IdlesOut (overdue.play [.serve]) :=
    .inl ⟨by decide +kernel, by decide +kernel⟩
  refine ⟨by rw [hpending]; rfl, hwaiting, by decide +kernel, by decide +kernel, fun hclaim => ?_,
    fun hclaim => ?_⟩
  · exact hclaim _ (hplayed.play [.serve]) (by decide +kernel) hidles
  · obtain ⟨cs, es, id, hsplit, hseats⟩ := hclaim overdue hplayed
      ⟨⟨0, false⟩, by rw [hpending]; decide, rfl⟩ ⟨⟨2, false⟩, by rw [hpending]; decide, rfl⟩ 0
      (by rw [hwaiting]; decide) [.serve] hidles
    have hnone : overdue.seats? = none := by decide +kernel
    cases cs with
    | nil =>
        rw [play_nil, hnone] at hseats
        cases hseats
    | cons c cs =>
        have htail := (List.cons.inj hsplit).2
        exact List.append_ne_nil_of_right_ne_nil cs (List.cons_ne_nil _ es) htail.symm

/-- Two clients have connected as the timer of an unused server expires, and are reported before
the timer.  The credentials of the first one cannot be had. -/
def slighted : Loop :=
  (start Chips.none 0).play
    [.serve, .pass nanosPerMilli,
      .connect ⟨⟨0, 0, ""⟩, [], .unidentified (.system Errno.noEntry), Origin.usualRoom⟩,
      .connect (.usual ⟨1, 0, ""⟩), .reorder [0, 2], .serve]

/-- In one order of the two events the client is accepted and costs the server another period, in
the other it is refused.  A client that is turned away costs the server nothing, and the next one
is refused. -/
theorem expiring_overdue_waitingRule :
    InLine 0 [] expiring ∧ expiring.seats? = some (ClientId.first, 0) ∧
      ((∃ cs es, [.serve, .serve] = cs ++ .serve :: es ∧ (expiring.play cs).accepts? = some 0 ∧
          Outcome 0 (expiring.play cs)) ∨
        ∃ why, why ≠ .idle ∧ (expiring.play [.serve, .serve]).server.stop = some why) ∧
      (∃ cs es, .serve :: (visit ++ .serve :: expiry) = cs ++ .serve :: es ∧
        (expiring.play cs).accepts? = some 0 ∧ Outcome 0 (expiring.play cs) ∧
        ((expiring.play cs).seats?.isSome = true →
          ∃ t, UnusedSince nanosPerMilli (expiring.play cs).step es t ∧ t + nanosPerMilli ≤
            (expiring.play (.serve :: (visit ++ .serve :: expiry))).server.now)) ∧
      IdlesNext overdue ∧ overdue.server.net.waiting = [0] ∧
      ((overdue.play [.serve, .serve, .serve]).ending = some (.stopped .idleTimeout) ∧
        (∀ cs, cs <+: [.serve, .serve, .serve] → (overdue.play cs).accepts? = none) ∧
        ∃ cs es, [.serve, .serve, .serve] = cs ++ .serve :: es ∧
          (overdue.play cs).step.server.net.Refuses 0) ∧
      ((∃ e ∈ overdue.step.pending, Receiver.ofToken? e.token = some .listener) ∨
        (∃ bs cs, [.serve, .pass nanosPerMilli, .connect (.usual ⟨0, 0, ""⟩), .serve] =
            bs ++ .serve :: cs ∧ Reports (start Chips.none 0) bs cs ∧
          ((start Chips.none 0).play bs).server.net.waiting = []) ∨
        HasTakenUp Chips.none 0 [.serve, .pass nanosPerMilli, .connect (.usual ⟨0, 0, ""⟩),
          .serve]) ∧
      slighted.accepts? = some 0 ∧ slighted.seats? = none ∧ IdlesNext slighted.step ∧
      ((slighted.step.play [.serve, .serve, .serve]).ending = some (.stopped .idleTimeout) ∧
        (∀ cs, cs <+: [.serve, .serve, .serve] → (slighted.step.play cs).accepts? = none) ∧
        ∃ cs es, [.serve, .serve, .serve] = cs ++ .serve :: es ∧
          (slighted.step.play cs).step.server.net.Refuses 1) := by
  have hrule : WaitingRule Chips.none 0 nanosPerMilli := waitingRule Chips.none 0
  have hexpiring : Played Chips.none 0 expiring := ⟨_, rfl⟩
  have hoverdue : Played Chips.none 0 overdue := ⟨_, rfl⟩
  have hline : InLine 0 [] expiring := by
    refine ⟨by decide +kernel, by decide +kernel, ⟨⟨0, false⟩, [⟨2, false⟩], ?_, rfl⟩, [], ?_⟩ <;>
      decide +kernel
  have hfirst : ∀ d ∈ ([] : List Readiness), Receiver.ofToken? d.token ≠ some .idleTimer :=
    fun d hd => absurd hd List.not_mem_nil
  have hpasses : ∀ cs ∈ [Action.serve, .serve].inits, (expiring.play cs).isStuck = false := by
    decide +kernel
  have hends : IdlesOut (expiring.play (.serve :: (visit ++ .serve :: expiry))) :=
    .inr (by decide +kernel)
  have hidle : overdue.step.server.stop = some .idle := by decide +kernel
  have hnext : IdlesNext overdue :=
    (hrule.stops overdue hoverdue (by decide +kernel) (by decide +kernel)).mp hidle
  have hwaiting : overdue.server.net.waiting = [0] := by decide +kernel
  have hslighted : Played Chips.none 0 slighted := ⟨_, rfl⟩
  have haccepts : slighted.accepts? = some 0 := by decide +kernel
  have hseats : slighted.seats? = none := by decide +kernel
  have hunheld : IdlesNext slighted.step := by
    refine hrule.unheld slighted 0 haccepts hseats (by decide +kernel)
      ⟨nanosPerMilli, by decide +kernel, by decide +kernel⟩ ⟨⟨2, false⟩, [], ?_, rfl⟩
    decide +kernel
  refine ⟨hline, by decide +kernel, ?_, ?_, hnext, hwaiting, ?_, ?_, haccepts, hseats, hunheld,
    ?_⟩
  · exact hrule.takesUp expiring hexpiring 0 [] hline hfirst _
      (fun cs hcs => hpasses cs ((List.mem_inits _ _).mpr hcs)) (by decide)
  · exact hrule.spares expiring hexpiring 0 [] hline hfirst _ hends
  · exact hrule.refuses overdue hoverdue hnext 0 (by rw [hwaiting]; decide) _ (by decide)
  · exact hrule.behind _ (by decide +kernel) hnext
  · exact hrule.refuses _ hslighted.step hunheld 1 (by decide +kernel) _ (by decide)

end Rule

end Loop

end LineKeeper
