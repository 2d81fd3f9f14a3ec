import LineKeeper.Proofs.Attention

/-!
# What the handlers do to the idle timer

Only two things touch the idle timer: a turn begins by bringing it up to date with the
use-count (`Retimes`), and its event takes notice of an expiry (`Expires`).  Everything else
leaves the timer and the clock alone (`SameTimer`).
-/

namespace LineKeeper

namespace Server

open Loop (linkOf?)

variable {s t u : Server} {e : Readiness} {id : ClientId}

section Unused

/-- No client has a session, and no request is held. -/
structure Unused (s : Server) : Prop where
  sessions : s.sessions.entries = []
  records : s.requests.records = []

theorem unused_iff : s.Unused ↔ s.useCount = 0 := by
  rw [useCount, Nat.add_eq_zero_iff, Sessions.length, Requests.length, List.length_eq_zero_iff,
    List.length_eq_zero_iff]
  exact ⟨fun h => ⟨h.sessions, h.records⟩, fun h => ⟨h.1, h.2⟩⟩

theorem useCount_congr (hsessions : t.sessions = s.sessions) (hrequests : t.requests = s.requests) :
    t.useCount = s.useCount := by
  rw [useCount, hsessions, hrequests, useCount]

/-- A server that is in use stays so as it accepts. -/
theorem useCount_of_accept (h : s.accept.useCount = 0) : s.useCount = 0 :=
  Nat.le_zero.mp (h ▸ s.accepts.useCount_le)

/-- Nothing is ready that belongs to a client, if there is none. -/
theorem not_client_of_isReady {token : UInt64} (h : s.useCount = 0)
    (hready : Loop.isReady s token = true) : Receiver.ofToken? token ≠ some (.client id) := by
  intro htoken
  have hnone : linkOf? s id = none := by
    refine linkOf?_of_none (Sessions.get?_eq_none_iff.mpr ?_)
    rw [Sessions.ids, (unused_iff.mpr h).sessions]
    exact List.not_mem_nil
  simp only [Loop.isReady, htoken, hnone, Option.any_none, Bool.false_eq_true] at hready

end Unused

section Timer

/-- From `s` to `t` the idle timer is left alone, and no time passes. -/
structure SameTimer (s t : Server) : Prop where
  idle : t.idle = s.idle
  now : t.now = s.now

theorem SameTimer.refl (s : Server) : SameTimer s s :=
  ⟨rfl, rfl⟩

theorem SameTimer.trans (h : SameTimer s t) (h' : SameTimer t u) : SameTimer s u :=
  ⟨h'.idle.trans h.idle, h'.now.trans h.now⟩

theorem sameTimer_log (s : Server) (e : LogEvent) : SameTimer s (s.log e) :=
  ⟨rfl, rfl⟩

theorem sameTimer_dropClient (s : Server) (id : ClientId) : SameTimer s (s.dropClient id) := by
  unfold dropClient
  split <;> exact ⟨rfl, rfl⟩

theorem sameTimer_reply (s : Server) (id : ClientId) (m : Message) :
    SameTimer s (s.reply id m) := by
  unfold reply
  split
  · exact SameTimer.refl s
  · split
    · exact ⟨rfl, rfl⟩
    · exact (sameTimer_log s _).trans (sameTimer_dropClient _ id)

theorem sameTimer_accept (s : Server) : SameTimer s s.accept :=
  ⟨s.reception.idle, s.reception.now⟩

theorem sameTimer_takeSignals (s : Server) : SameTimer s s.takeSignals := by
  unfold takeSignals
  split <;> exact ⟨rfl, rfl⟩

theorem sameTimer_displace (s : Server) (id : RequestId) : SameTimer s (s.displace id) := by
  unfold displace
  split <;> exact ⟨rfl, rfl⟩

theorem sameTimer_finish (s : Server) (job : Job) : SameTimer s (s.finish job) := by
  rw [finish_eq]
  dsimp only
  split
  · refine SameTimer.trans ?_ (sameTimer_reply _ _ _)
    have hdisplace := sameTimer_displace (s.withDevice (s.device.request job.spec).2)
    exact ⟨(hdisplace _).idle, (hdisplace _).now⟩
  · refine SameTimer.trans ?_ (sameTimer_reply _ _ _)
    exact ⟨rfl, rfl⟩

theorem sameTimer_release (s : Server) (client : ClientId) (id : RequestId) :
    SameTimer s (s.release client id) := by
  unfold release
  split <;> refine SameTimer.trans ?_ (sameTimer_reply _ _ _) <;> exact ⟨rfl, rfl⟩

theorem sameTimer_dispatch (s : Server) (client : ClientId) (peer : Peer)
    (r : Except WireError Message) : SameTimer s (s.dispatch client peer r).1 := by
  rcases r with e | m
  · exact (sameTimer_log s _).trans (sameTimer_dropClient _ _)
  · cases m with
    | ping => exact (sameTimer_log s _).trans (sameTimer_reply _ _ _)
    | stop => exact ⟨rfl, rfl⟩
    | request spec => exact sameTimer_log s _
    | release rid => exact sameTimer_release s client rid
    | _ => exact (sameTimer_log s _).trans (sameTimer_dropClient _ _)

theorem sameTimer_foldl {α : Type} (f : Server → α → Server) (hf : ∀ s a, SameTimer s (f s a))
    (s : Server) (as : List α) : SameTimer s (as.foldl f s) := by
  induction as generalizing s with
  | nil => exact SameTimer.refl s
  | cons a as ih => exact (hf s a).trans (ih (f s a))

/-- Ending a server takes no time. -/
theorem sameTimer_drain (s : Server) (why : Stop) : SameTimer s (s.drain why) := by
  have hstopped : SameTimer s
      (s.log (.exiting s.sessions.length s.requests.length)).stopListening := ⟨rfl, rfl⟩
  have hreleased : ∀ u : Server, SameTimer u u.releaseAll := fun u => by
    refine SameTimer.trans ?_ (sameTimer_foldl releaseHeld (fun _ _ => ⟨rfl, rfl⟩) _ _)
    exact ⟨rfl, rfl⟩
  have hdropped : ∀ u : Server, SameTimer u (u.dropAllBut why.stopper?) := fun u =>
    sameTimer_foldl dropClient sameTimer_dropClient u _
  have hcleared := (hstopped.trans (hreleased _)).trans (hdropped _)
  unfold drain
  dsimp only
  split
  · exact ((hcleared.trans (sameTimer_reply _ _ _)).trans (sameTimer_dropClient _ _)).trans
      (sameTimer_log _ _)
  · exact hcleared.trans (sameTimer_log _ _)

/-- No event but its own touches the timer. -/
theorem Begins.sameTimer {job : Option Job} (h : Begins s e t job)
    (htoken : Receiver.ofToken? e.token ≠ some .idleTimer) : SameTimer s t := by
  cases h with
  | accepted _ => exact sameTimer_accept s
  | signalled _ => exact sameTimer_takeSignals s
  | timed hidle => exact absurd hidle htoken
  | heard _ _ =>
      refine SameTimer.trans ?_ (sameTimer_dispatch _ _ _ _)
      exact ⟨rfl, rfl⟩
  | left _ _ _ _ _ _ =>
      refine SameTimer.trans ?_ (sameTimer_dropClient _ _)
      exact ⟨rfl, rfl⟩
  | nothing _ _ => exact SameTimer.refl s
  | stray _ => exact sameTimer_log s _

/-- No message stops the server as an idle one. -/
theorem Hearing.stop_ne_idle {peer : Peer} {r : Except WireError Message} {job : Option Job}
    (h : Hearing s id peer r t job) (hstop : s.stop = none) : t.stop ≠ some .idle := by
  cases h with
  | answered _ hsame _ =>
      rw [stop_reply, hsame.stop, hstop]
      rintro ⟨⟩
  | asked _ hsame _ _ =>
      rw [hsame.stop, hstop]
      rintro ⟨⟩
  | stopping _ => rintro ⟨⟩
  | forbidden report _ =>
      rw [stop_dropClient, (sameClients_log s report).stop, hstop]
      rintro ⟨⟩

/-- What taking notice of the timer does: nothing, or the timer is disarmed because it has expired,
and that is a reason to stop for a server that nobody uses. -/
inductive Expires (s t : Server) : Prop
  | early (hearly : ∀ d, s.idle.deadline = some d → s.now < d) (ht : t = s)
  | expired (d : Nat) (hdeadline : s.idle.deadline = some d) (hlate : d ≤ s.now)
      (hidle : t.idle = { s.idle with isArmed := false, deadline := none }) (hnow : t.now = s.now)
      (hcount : t.useCount = s.useCount)
      (hstop : t.stop = if s.useCount = 0 then some .idle else s.stop)

theorem expires (s : Server) : Expires s s.takeExpiry := by
  cases hexpired : s.idle.hasExpired s.now with
  | false =>
      refine .early ?_ ?_
      · intro d hd
        rw [IdleTimer.hasExpired, hd, Option.any_some, decide_eq_false_iff_not] at hexpired
        exact Nat.lt_of_not_le hexpired
      · simp only [takeExpiry, IdleTimer.acknowledge, hexpired, Bool.false_eq_true, if_false]
  | true =>
      obtain ⟨d, hd, hle⟩ := (Option.any_eq_true _ _).mp hexpired
      have hack : s.idle.acknowledge s.now =
          (true, { s.idle with isArmed := false, deadline := none }) := if_pos hexpired
      have hexpiry : s.takeExpiry = if s.useCount = 0
          then { ({ s with idle := { s.idle with isArmed := false, deadline := none } }).log
            .idleExpired with stop := some .idle }
          else { s with idle := { s.idle with isArmed := false, deadline := none } } := by
        simp only [takeExpiry, hack]
        rfl
      by_cases hcount : s.useCount = 0
      · rw [if_pos hcount] at hexpiry
        rw [hexpiry]
        exact .expired d hd (of_decide_eq_true hle) rfl rfl rfl (if_pos hcount).symm
      · rw [if_neg hcount] at hexpiry
        rw [hexpiry]
        exact .expired d hd (of_decide_eq_true hle) rfl rfl rfl (if_neg hcount).symm

theorem Begins.now {job : Option Job} (h : Begins s e t job) : t.now = s.now := by
  by_cases htoken : Receiver.ofToken? e.token = some .idleTimer
  · cases h with
    | timed _ =>
        cases s.expires with
        | early _ hsame => rw [hsame]
        | expired d _ _ _ hnow _ _ => exact hnow
    | accepted hother => cases hother.symm.trans htoken
    | signalled hother => cases hother.symm.trans htoken
    | heard _ hr => cases (eq_of_hears? hr).1.symm.trans htoken
    | left _ _ hother _ _ _ => cases hother.symm.trans htoken
    | nothing hother _ => cases hother.symm.trans htoken
    | stray hother => cases hother.symm.trans htoken
  · exact (h.sameTimer htoken).now

/-- What bringing the timer up to date does, as a turn begins. -/
inductive Retimes (s t : Server) : Prop
  | armed (hdisarmed : s.idle.isArmed = false) (hcount : s.useCount = 0)
      (hset : IdleTimer.canSet s.idle.period = true)
      (hidle : t.idle = { s.idle with
        isArmed := true
        deadline := some (s.now + s.idle.period) })
  | disarmed (harmed : s.idle.isArmed = true) (hcount : s.useCount ≠ 0)
      (hidle : t.idle = { s.idle with isArmed := false, deadline := none })
  | kept (hidle : t.idle = s.idle) (harmed : s.idle.isArmed = decide (s.useCount = 0))

theorem retimes (h : s.updateIdle = .ok t) : Retimes s t ∧ t.now = s.now := by
  cases harmed : s.idle.isArmed with
  | false =>
      by_cases hcount : s.useCount = 0
      · cases hset : IdleTimer.canSet s.idle.period with
        | true =>
            simp only [updateIdle, IdleTimer.update, harmed, hcount, Transition.next, hset,
              if_true] at h
            cases h
            exact ⟨.armed harmed hcount hset rfl, rfl⟩
        | false =>
            simp only [updateIdle, IdleTimer.update, harmed, hcount, Transition.next, hset,
              Bool.false_eq_true, if_false] at h
            cases h
      · obtain ⟨n, hn⟩ := Nat.exists_eq_succ_of_ne_zero hcount
        simp only [updateIdle, IdleTimer.update, harmed, hn, Transition.next] at h
        cases h
        exact ⟨.kept rfl (harmed.trans (decide_eq_false hcount).symm), rfl⟩
  | true =>
      by_cases hcount : s.useCount = 0
      · simp only [updateIdle, IdleTimer.update, harmed, hcount, Transition.next] at h
        cases h
        exact ⟨.kept rfl (harmed.trans (decide_eq_true hcount).symm), rfl⟩
      · obtain ⟨n, hn⟩ := Nat.exists_eq_succ_of_ne_zero hcount
        simp only [updateIdle, IdleTimer.update, harmed, hn, Transition.next] at h
        cases h
        exact ⟨.disarmed harmed hcount rfl, rfl⟩

end Timer

end Server

end LineKeeper
