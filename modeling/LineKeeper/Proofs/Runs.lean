import Mathlib.Logic.Relation
import LineKeeper.Scenario
import LineKeeper.Proofs.ServerSteps

/-!
# Runs of the server

A run interleaves the steps of the loop with anything that may happen around it.
Around a server stand the connections and what the clients do on them, the waiting
signals, the clock, the chips and whether they refuse, the order in which ready
receivers are listed, and the gate in the device.  Nothing is assumed about these:
between two steps each of them may become anything.

`Loop.Next` is one step or one change around the server, `Loop.Run` is a sequence of
them, and a loop is `Loop.Reachable` when a run leads to it from a fresh server.
`Loop.Change` says what any such step can do to the records and the lines; every
invariant of them is proved from it.

Every loop that a script of steps leads to is reachable (`Scenario.reachable_run`).
-/

namespace LineKeeper

/-- What stands around a server and changes without it. -/
structure Surroundings where
  net : Net
  signals : PendingSignals
  now : Nat
  chips : Chips
  ready : List UInt64
  gateClosed : Bool

namespace Loop

open Server

variable {l m : Loop} {chips : Chips} {period : Nat}

section Steps

/-- The surroundings of a server as they are. -/
def surroundings (l : Loop) : Surroundings where
  net := l.server.net
  signals := l.server.signals
  now := l.server.now
  chips := l.server.device.chips
  ready := l.ready
  gateClosed := l.gateClosed

/-- The same server in other surroundings. -/
def surround (l : Loop) (w : Surroundings) : Loop :=
  { l with
    server := { l.server with
      net := w.net
      signals := w.signals
      now := w.now
      device := { l.server.device with chips := w.chips } }
    ready := w.ready
    gateClosed := w.gateClosed }

/-- One step of the loop, or one change around it. -/
inductive Next : Loop → Loop → Prop
  | step (l : Loop) : Next l l.step
  | surround (l : Loop) (w : Surroundings) : Next l (l.surround w)

/-- Steps and changes, in any order. -/
def Run : Loop → Loop → Prop :=
  Relation.ReflTransGen Next

/-- A run leads from a fresh server to the loop. -/
def Reachable (chips : Chips) (period : Nat) (l : Loop) : Prop :=
  Run (start chips period) l

theorem Run.refl (l : Loop) : Run l l :=
  Relation.ReflTransGen.refl

theorem Run.trans {n : Loop} (h : Run l m) (h' : Run m n) : Run l n :=
  Relation.ReflTransGen.trans h h'

theorem run_step (l : Loop) : Run l l.step :=
  Relation.ReflTransGen.single (Next.step l)

theorem run_surround (l : Loop) (w : Surroundings) : Run l (l.surround w) :=
  Relation.ReflTransGen.single (Next.surround l w)

end Steps

section Changes

/-- What one step does to the records and the lines. -/
inductive Change (l m : Loop) : Prop
  | quiet (h : Quiet l.server m.server)
  | gaveBack (client : ClientId) (id : RequestId) (held : Held Nat)
      (h : GaveBack client id held l.server m.server)
  | granted (job : Job) (hjob : l.job = some job) (h : Granted job l.server m.server)
  | emptied (why : Stop) (hend : m.ending = some (.stopped why.reason))
      (h : Emptied l.server m.server)

theorem quiet_surround (l : Loop) (w : Surroundings) : Quiet l.server (l.surround w).server :=
  ⟨rfl, rfl, rfl, List.prefix_refl _⟩

theorem change_beginTurn (l : Loop) : Change l l.beginTurn := by
  unfold beginTurn
  split
  · next why _ =>
    exact .emptied why rfl (emptied_drain l.server why)
  · split
    · exact .quiet (quiet_stopListening l.server)
    · next hupdate =>
      exact .quiet (quiet_updateIdle hupdate)

theorem change_step (l : Loop) : Change l l.step := by
  unfold step
  split
  · exact .quiet (Quiet.refl _)
  · split
    · next job hjob =>
      split
      · exact .quiet (Quiet.refl _)
      · cases hrequest : (l.server.device.request job.spec).1 with
        | error e => exact .quiet (quiet_finish hrequest)
        | ok handle => exact .granted job hjob (granted_finish hrequest)
    · split
      · exact .quiet (Quiet.refl _)
      · exact change_beginTurn l
      · next e es _ =>
        split
        · exact .quiet (Quiet.refl _)
        · rcases begin_cases l.server e with hquiet | ⟨client, id, held, hback⟩
          · exact .quiet hquiet
          · exact .gaveBack client id held hback

theorem Next.change (h : Next l m) : Change l m := by
  cases h with
  | step => exact change_step l
  | surround w => exact .quiet (quiet_surround l w)

/-- The trace only grows. -/
theorem Change.trace (h : Change l m) : l.server.trace <+: m.server.trace := by
  cases h with
  | quiet h => exact h.trace
  | gaveBack _ _ _ h => exact (List.prefix_append _ _).trans h.trace
  | granted _ _ h => exact h.trace
  | emptied _ _ h => exact h.trace

/-- No handle is given out twice. -/
theorem Change.issued (h : Change l m) : l.server.device.issued ≤ m.server.device.issued := by
  cases h with
  | quiet h => exact Nat.le_of_eq h.issued.symm
  | gaveBack _ _ _ h => exact Nat.le_of_eq h.issued.symm
  | granted _ _ h => exact h.issued ▸ Nat.le_succ _
  | emptied _ _ h => exact Nat.le_of_eq h.issued.symm

/-- A loop that has ended stays as it ended. -/
theorem Next.ending {e : Ending} (h : Next l m) (hend : l.ending = some e) :
    m.ending = some e := by
  cases h with
  | step => rw [step_of_ending (by rw [hend]; rfl), hend]
  | surround w => exact hend

/-- What holds of a fresh server and is kept by every step holds of every reachable loop. -/
theorem Reachable.induction {P : Loop → Prop} (h : Reachable chips period l)
    (hstart : P (start chips period)) (hnext : ∀ a b, P a → Next a b → P b) : P l := by
  induction h with
  | refl => exact hstart
  | tail _ hstep ih => exact hnext _ _ ih hstep

end Changes

section Scripts

theorem run_withNet (l : Loop) (net : Net) : Run l (l.withNet net) :=
  run_surround l { l.surroundings with net := net, ready := (l.withNet net).ready }

theorem run_signal (l : Loop) (s : Signal) : Run l (l.signal s) :=
  run_surround l { l.surroundings with
    signals := l.server.signals.raise s, ready := (l.signal s).ready }

theorem run_atTime (l : Loop) (now : Nat) : Run l (l.atTime now) :=
  run_surround l { l.surroundings with now := now, ready := (l.atTime now).ready }

theorem run_gate (l : Loop) (closed : Bool) : Run l (l.gate closed) :=
  run_surround l { l.surroundings with gateClosed := closed }

theorem run_settleFor (n : Nat) (l : Loop) : Run l (settleFor n l) := by
  induction n generalizing l with
  | zero =>
      exact Run.refl l
  | succ n ih =>
      unfold settleFor
      split
      · exact Run.refl l
      · exact (run_step l).trans (ih l.step)

theorem run_settle (l : Loop) : Run l l.settle := by
  have hrefresh : Run l l.refresh :=
    run_surround l { l.surroundings with ready := l.refresh.ready }
  exact hrefresh.trans (run_settleFor _ _)

theorem run_sleepUntil (l : Loop) (target : Nat) : Run l (l.sleepUntil target) := by
  have hpass : ∀ (m : Loop) (now : Nat), Run m (m.atTime now).settle :=
    fun m now => (run_atTime m now).trans (run_settle _)
  unfold sleepUntil
  dsimp only
  split
  · split
    · exact (hpass _ _).trans (hpass _ _)
    · exact hpass _ _
  · exact hpass _ _

theorem run_join (l : Loop) : Run l l.join := by
  unfold join
  split
  · exact Run.refl l
  · split
    · exact run_sleepUntil _ _
    · exact Run.refl l

theorem run_connect {origin : Origin} {i : Nat} (h : l.connect origin = some (i, m)) : Run l m := by
  unfold connect at h
  split at h
  · cases h
  · cases h
    exact run_withNet l _

theorem run_send {i : Nat} {bytes : List UInt8} (h : l.send i bytes = .ok m) : Run l m := by
  unfold send at h
  split at h
  · cases h
    exact run_withNet l _
  · cases h

theorem run_onLink {α : Type} {i : Nat} {f : Link → α × Link} {a : α}
    (h : l.onLink i f = some (a, m)) : Run l m := by
  unfold onLink at h
  split at h
  · cases h
  · cases h
    exact (run_withNet l _).trans (run_settle _)

theorem run_post (l : Loop) (timeout i : Nat) (msg : Message) :
    Run l (l.post timeout i msg).2 := by
  unfold post
  dsimp only
  split
  · exact Run.refl l
  · next hsent => exact run_onLink hsent

theorem run_awaitReply (l : Loop) (timeout i : Nat) : Run l (l.awaitReply timeout i).2 := by
  unfold awaitReply
  split
  · exact Run.refl l
  · next hreply => exact (run_onLink hreply).trans (run_sleepUntil _ _)
  · next hreply => exact run_onLink hreply

theorem run_call (l : Loop) (timeout i : Nat) (c : Client.Call) :
    Run l (l.call timeout i c).2 := by
  have hpost := run_post l timeout i c.message
  unfold call
  split
  · next hsent =>
    rw [hsent] at hpost
    exact hpost
  · next hsent =>
    rw [hsent] at hpost
    exact hpost.trans (run_awaitReply _ _ _)

end Scripts

end Loop

namespace Scenario

open Loop

theorem run_close (s : Scenario) (name : String) : Run s.loop (s.close name).loop := by
  unfold close
  split
  · exact Run.refl _
  · exact (run_withNet _ _).trans (run_settle _)

theorem run_receive (s : Scenario) (i : Nat) : Run s.loop (s.receive i).2.loop := by
  unfold receive
  split
  · next hlink => exact run_onLink hlink
  · next hlink => exact run_onLink hlink
  · exact Run.refl _

/-- The step of a script is a run of the loop. -/
theorem run_step (s : Scenario) (t : Step) : Run s.loop (s.step t).2.loop := by
  cases t with
  | connect name =>
      simp only [step, connect]
      split
      · exact Run.refl _
      · next l hconnect =>
        exact ((run_connect hconnect).trans (run_settle l)).trans (run_close (s.settled l) name)
  | close name => exact run_close s name
  | shutdown name =>
      simp only [step]
      split
      · exact Run.refl _
      · exact (run_withNet _ _).trans (run_settle _)
  | call name c =>
      simp only [step]
      split
      · exact Run.refl _
      · next i _ =>
        cases c with
        | error e => exact Run.refl _
        | ok c =>
            have hcall := run_call s.loop Client.defaultTimeout i c
            dsimp only
            split
            · next heq =>
              rw [heq] at hcall
              exact hcall
            · next heq =>
              rw [heq] at hcall
              exact hcall
  | send name bytes untilGate =>
      simp only [step]
      split
      · exact Run.refl _
      · dsimp only
        split
        · next hsend => exact (run_send hsend).trans (run_settle _)
        · exact Run.refl _
  | receive name =>
      simp only [step]
      split
      · exact Run.refl _
      · exact run_receive s _
  | signal signal => exact (run_signal _ _).trans (run_settle _)
  | join =>
      simp only [step]
      split
      · exact Run.refl _
      · exact run_join _
  | sleep nanos => exact run_sleepUntil _ _
  | gate closed => exact (run_gate _ _).trans (run_settle _)
  | awaitReport message count => exact Run.refl _

/-- Every loop that a script leads to is reachable. -/
theorem reachable_run (chips : Chips) (period : Nat) (ts : List Step) :
    Reachable chips period ((start chips period).run ts).2.loop := by
  have hrun : ∀ s : Scenario, Run s.loop (s.run ts).2.loop := by
    induction ts with
    | nil =>
        intro s
        exact Run.refl _
    | cons t ts ih =>
        intro s
        exact (run_step s t).trans (ih _)
  exact (run_settle _).trans (hrun (start chips period))

end Scenario
end LineKeeper
