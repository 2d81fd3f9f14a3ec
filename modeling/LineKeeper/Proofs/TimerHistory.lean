import Mathlib.Algebra.GroupWithZero.Nat
import Mathlib.Data.List.Induction
import LineKeeper.IdleTimer

/-!
# What an idle timer has seen

An idle timer keeps a flag that says whether it is armed, and the system keeps the deadline.
The two change at different moments: a deadline can pass without the flag taking notice.
A timer is followed here through any sequence of updates, of notices taken and of time that
passes (`Occurrence`), and what it says is compared with what has happened to it.

**Countdowns.** `Runs` says of the occurrences, and of what came of them, that a countdown runs:
the timer was armed at some moment, has not been disarmed since, and no expiry has been reported
since.

**Invariant.** `Tracks`: the flag is set exactly if the system holds a deadline, and it holds
one exactly if a countdown runs, which is then the end of that countdown.

**Results.**
* `canSet_iff`: which periods the system can count down.
* `Tracks.concat`, `tracks`: the flag, the deadline and the countdowns agree.
* `obeys`: what updates and notices do, after any sequence of occurrences.
-/

namespace LineKeeper.IdleTimer

/-- What can happen to a timer. -/
inductive Occurrence
  | update (useCount : Nat)
  | passes (nanos : Nat)
  | acknowledge
deriving DecidableEq

/-- What comes of it. -/
inductive Outcome
  | updated (tr : Transition)
  | refused (e : Errno)
  | passed
  | acknowledged (expired : Bool)
deriving DecidableEq

/-- A timer, and what time it is. -/
structure Timed where
  timer : IdleTimer
  now : Nat
deriving DecidableEq

/-- Lets something happen to a timer. -/
def Timed.step (t : Timed) : Occurrence → Outcome × Timed
  | .update n =>
      match t.timer.update t.now n with
      | .ok (tr, timer) => (.updated tr, { t with timer := timer })
      | .error e => (.refused e, t)
  | .passes nanos => (.passed, { t with now := t.now + nanos })
  | .acknowledge =>
      (.acknowledged (t.timer.acknowledge t.now).1,
        { t with timer := (t.timer.acknowledge t.now).2 })

/-- A new timer after some occurrences. -/
def after (period start : Nat) (os : List Occurrence) : Timed :=
  os.foldl (fun t o => (t.step o).2) ⟨ofPeriod period, start⟩

/-- What comes of an occurrence after others. -/
def outcome (period start : Nat) (before : List Occurrence) (o : Occurrence) : Outcome :=
  ((after period start before).step o).1

/-- The time that passes. -/
def elapsed : List Occurrence → Nat
  | [] => 0
  | .passes nanos :: os => nanos + elapsed os
  | _ :: os => elapsed os

/-- A countdown runs at the end of the occurrences `os`.  It began with the update behind `earlier`,
which armed the timer; among those behind it, `later`, no update has disarmed the timer, and no
expiry has been reported. -/
structure Runs (period start : Nat) (os earlier later : List Occurrence) : Prop where
  split : os = earlier ++ .update 0 :: later
  arms : outcome period start earlier (.update 0) = .updated .armed
  undisturbed : ∀ n, .update n ∈ later → n = 0
  unreported : ∀ mid rest, later = mid ++ .acknowledge :: rest →
    outcome period start (earlier ++ .update 0 :: mid) .acknowledge = .acknowledged false

variable {period start : Nat} {os earlier later : List Occurrence} {o : Occurrence}

section Time

/-- The system can count a period down exactly if its whole seconds fit into a signed word. -/
theorem canSet_iff (h : period / nanosPerSecond < 2 ^ 64) :
    canSet period = true ↔ period / nanosPerSecond < 2 ^ 63 := by
  rw [canSet, decide_eq_true_eq]
  generalize period / nanosPerSecond = seconds at *
  rw [Int64.toInt_ofNat', Int.bmod_def, show Int64.size = 2 ^ 64 from rfl]
  split <;> omega

theorem after_concat (period start : Nat) (os : List Occurrence) (o : Occurrence) :
    after period start (os ++ [o]) = ((after period start os).step o).2 :=
  List.foldl_append

theorem elapsed_append (os os' : List Occurrence) : elapsed (os ++ os') = elapsed os + elapsed os' := by
  induction os with
  | nil => simp [elapsed]
  | cons o os ih => cases o <;> simp [elapsed, ih, Nat.add_assoc]

/-- The clock shows the time that has passed. -/
theorem now_after (period start : Nat) (os : List Occurrence) :
    (after period start os).now = start + elapsed os := by
  induction os using List.reverseRecOn with
  | nil => rfl
  | append_singleton os o ih =>
      rw [after_concat, elapsed_append, ← Nat.add_assoc, ← ih]
      cases o with
      | update n =>
          simp only [Timed.step]
          split <;> rfl
      | passes nanos => rfl
      | acknowledge => rfl

end Time

section Countdowns

/-- An occurrence among some with one more at the end is that one, or it stands before it. -/
theorem concat_eq_append_cons_iff {before behind : List Occurrence} {o' : Occurrence} :
    os ++ [o] = before ++ o' :: behind ↔
      before = os ∧ o' = o ∧ behind = [] ∨
        ∃ middle, behind = middle ++ [o] ∧ os = before ++ o' :: middle := by
  constructor
  · intro h
    rcases List.eq_nil_or_concat behind with rfl | ⟨middle, last, rfl⟩
    · obtain ⟨rfl, hlast⟩ := List.append_inj' h rfl
      exact .inl ⟨rfl, (List.singleton_inj.mp hlast).symm, rfl⟩
    · rw [List.concat_eq_append, ← List.cons_append, ← List.append_assoc] at h
      obtain ⟨hfront, hlast⟩ := List.append_inj' h rfl
      exact .inr ⟨middle, by rw [List.concat_eq_append, List.singleton_inj.mp hlast], hfront⟩
  · rintro (⟨rfl, rfl, rfl⟩ | ⟨middle, rfl, rfl⟩)
    · rfl
    · rw [List.append_assoc, List.cons_append]

/-- One more occurrence begins a countdown, or goes on with one that runs. -/
theorem runs_concat : Runs period start (os ++ [o]) earlier later ↔
    (earlier = os ∧ o = .update 0 ∧ later = [] ∧
      outcome period start os (.update 0) = .updated .armed) ∨
    ∃ before, later = before ++ [o] ∧ Runs period start os earlier before ∧
      (∀ n, o = .update n → n = 0) ∧
      (o = .acknowledge → outcome period start os .acknowledge = .acknowledged false) := by
  constructor
  · rintro ⟨hsplit, harms, hundisturbed, hunreported⟩
    rcases concat_eq_append_cons_iff.mp hsplit with ⟨rfl, rfl, rfl⟩ | ⟨before, rfl, rfl⟩
    · exact .inl ⟨rfl, rfl, rfl, harms⟩
    · refine .inr ⟨before, rfl, ⟨rfl, harms, ?_, ?_⟩, ?_, ?_⟩
      · exact fun n hn => hundisturbed n (List.mem_append_left _ hn)
      · rintro mid rest rfl
        exact hunreported mid (rest ++ [o]) (by simp)
      · rintro n rfl
        exact hundisturbed n (by simp)
      · rintro rfl
        exact hunreported before [] rfl
  · rintro (⟨rfl, rfl, rfl, harms⟩ | ⟨before, rfl, hruns, hupdate, hacknowledge⟩)
    · exact ⟨rfl, harms, by simp, by simp⟩
    · obtain ⟨rfl, harms, hundisturbed, hunreported⟩ := hruns
      refine ⟨by simp, harms, ?_, ?_⟩
      · intro n hmem
        rcases List.mem_append.mp hmem with hold | hlast
        · exact hundisturbed n hold
        · exact hupdate n (List.mem_singleton.mp hlast).symm
      · intro mid rest hsplit
        rcases concat_eq_append_cons_iff.mp hsplit with ⟨rfl, ho, -⟩ | ⟨rest, -, rfl⟩
        · exact hacknowledge ho.symm
        · exact hunreported mid rest rfl

/-- The timer and what has happened to it agree. -/
structure Tracks (period start : Nat) (os : List Occurrence) : Prop where
  counts : (after period start os).timer.period = max period nanosPerMilli
  flag : (after period start os).timer.isArmed = (after period start os).timer.deadline.isSome
  deadline : ∀ d, (after period start os).timer.deadline = some d ↔
    ∃ earlier later, Runs period start os earlier later ∧
      d = start + elapsed earlier + max period nanosPerMilli
  settable : (after period start os).timer.isArmed = true →
    canSet (max period nanosPerMilli) = true

theorem not_runs_nil : ¬ Runs period start [] earlier later := by
  rintro ⟨hsplit, -, -, -⟩
  cases earlier <;> cases hsplit

theorem tracks_nil (period start : Nat) : Tracks period start [] where
  counts := rfl
  flag := rfl
  deadline d := by simp [after, ofPeriod, not_runs_nil]
  settable := nofun

/-- What does not concern the timer leaves a countdown as it is. -/
theorem Tracks.kept (h : Tracks period start os)
    (htimer : (after period start (os ++ [o])).timer = (after period start os).timer)
    (hbegins : ¬ (o = .update 0 ∧ outcome period start os (.update 0) = .updated .armed))
    (hupdate : ∀ n, o = .update n → n = 0)
    (hacknowledge : o = .acknowledge →
      outcome period start os .acknowledge = .acknowledged false) :
    Tracks period start (os ++ [o]) := by
  refine ⟨htimer ▸ h.counts, htimer ▸ h.flag, ?_, htimer ▸ h.settable⟩
  intro d
  rw [htimer, h.deadline]
  constructor
  · rintro ⟨earlier, later, hruns, hd⟩
    exact ⟨earlier, later ++ [o], runs_concat.mpr (.inr ⟨later, rfl, hruns, hupdate, hacknowledge⟩),
      hd⟩
  · rintro ⟨earlier, later, hruns, hd⟩
    rcases runs_concat.mp hruns with ⟨-, ho, -, harms⟩ | ⟨before, -, hbefore, -⟩
    · exact absurd ⟨ho, harms⟩ hbegins
    · exact ⟨earlier, before, hbefore, hd⟩

/-- What ends a countdown leaves none. -/
theorem Tracks.ended
    (htimer : (after period start (os ++ [o])).timer = ⟨max period nanosPerMilli, false, none⟩)
    (hends : (∃ n, o = .update (n + 1)) ∨
      o = .acknowledge ∧ outcome period start os .acknowledge = .acknowledged true) :
    Tracks period start (os ++ [o]) := by
  refine ⟨by rw [htimer], by rw [htimer]; rfl, ?_, by rw [htimer]; nofun⟩
  intro d
  rw [htimer]
  refine ⟨nofun, ?_⟩
  rintro ⟨earlier, later, hruns, -⟩
  rcases runs_concat.mp hruns with ⟨-, rfl, -, -⟩ | ⟨before, -, -, hupdate, hacknowledge⟩
  · rcases hends with ⟨n, hn⟩ | ⟨ho, -⟩
    · cases hn
    · cases ho
  · rcases hends with ⟨n, rfl⟩ | ⟨rfl, htrue⟩
    · cases hupdate (n + 1) rfl
    · rw [hacknowledge rfl] at htrue
      cases htrue

/-- The flag says whether a countdown runs. -/
theorem Tracks.isArmed_iff (h : Tracks period start os) :
    (after period start os).timer.isArmed = true ↔
      ∃ earlier later, Runs period start os earlier later := by
  rw [h.flag, Option.isSome_iff_exists]
  constructor
  · rintro ⟨d, hd⟩
    obtain ⟨earlier, later, hruns, -⟩ := (h.deadline d).mp hd
    exact ⟨earlier, later, hruns⟩
  · rintro ⟨earlier, later, hruns⟩
    exact ⟨_, (h.deadline _).mpr ⟨earlier, later, hruns, rfl⟩⟩

/-- An update without use arms an idle timer, if the system can count the period down. -/
theorem Tracks.step_update_zero (h : Tracks period start os) :
    (after period start os).step (.update 0) =
      if (after period start os).timer.isArmed then (.updated .unchanged, after period start os)
      else if canSet (max period nanosPerMilli) then
        (.updated .armed,
          { after period start os with
            timer := ⟨max period nanosPerMilli, true,
              some (start + elapsed os + max period nanosPerMilli)⟩ })
      else (.refused Errno.invalidArgument, after period start os) := by
  cases harmed : (after period start os).timer.isArmed with
  | true =>
      have hupdate := deadline_update_zero_of_armed (after period start os).now harmed
      simp [Timed.step, hupdate]
  | false =>
      cases hset : canSet (max period nanosPerMilli) <;>
        simp [Timed.step, IdleTimer.update, Transition.next, harmed, h.counts, hset, now_after]

/-- An update with clients turns the timer off. -/
theorem Tracks.step_update_succ (h : Tracks period start os) (n : Nat) :
    ∃ tr, (after period start os).step (.update (n + 1)) =
      (.updated tr,
        { after period start os with timer := ⟨max period nanosPerMilli, false, none⟩ }) := by
  rw [← h.counts]
  cases harmed : (after period start os).timer.isArmed with
  | true => exact ⟨.disarmed, by simp [Timed.step, IdleTimer.update, harmed, Transition.next]⟩
  | false =>
      have hnone : (after period start os).timer.deadline = none := by
        simpa [harmed] using h.flag.symm
      refine ⟨.unchanged, ?_⟩
      simp only [Timed.step, IdleTimer.update, harmed, Transition.next]
      rw [← harmed, ← hnone]

/-- An expiry turns the timer off once it is reported. -/
theorem Tracks.step_acknowledge (h : Tracks period start os)
    (hexpired : (after period start os).timer.hasExpired (after period start os).now = true) :
    (after period start os).step .acknowledge =
      (.acknowledged true,
        { after period start os with timer := ⟨max period nanosPerMilli, false, none⟩ }) := by
  simp [Timed.step, IdleTimer.acknowledge, hexpired, h.counts]

/-- A countdown that begins is the only one. -/
theorem Tracks.begun (h : Tracks period start os)
    (hunarmed : (after period start os).timer.isArmed = false)
    (hset : canSet (max period nanosPerMilli) = true) :
    Tracks period start (os ++ [.update 0]) := by
  have hstep := h.step_update_zero
  rw [hunarmed, if_neg (by simp), hset, if_pos rfl] at hstep
  have harms : outcome period start os (.update 0) = .updated .armed := by
    rw [outcome, hstep]
  have htimer : (after period start (os ++ [.update 0])).timer =
      ⟨max period nanosPerMilli, true, some (start + elapsed os + max period nanosPerMilli)⟩ := by
    rw [after_concat, hstep]
  have hnone : ¬ ∃ earlier later, Runs period start os earlier later := by
    rw [← h.isArmed_iff, hunarmed]
    simp
  refine ⟨by rw [htimer], by rw [htimer]; rfl, ?_, fun _ => hset⟩
  intro d
  simp only [htimer, Option.some.injEq]
  constructor
  · rintro rfl
    exact ⟨os, [], runs_concat.mpr (.inl ⟨rfl, rfl, rfl, harms⟩), rfl⟩
  · rintro ⟨earlier, later, hruns, rfl⟩
    rcases runs_concat.mp hruns with ⟨rfl, -, -, -⟩ | ⟨before, -, hbefore, -⟩
    · rfl
    · exact absurd ⟨earlier, before, hbefore⟩ hnone

/-- The timer and what has happened to it agree after one more occurrence. -/
theorem Tracks.concat (h : Tracks period start os) (o : Occurrence) :
    Tracks period start (os ++ [o]) := by
  cases o with
  | passes nanos => exact h.kept (by rw [after_concat]; rfl) (by simp) (by simp) (by simp)
  | acknowledge =>
      cases hexpired : (after period start os).timer.hasExpired (after period start os).now with
      | true =>
          have hstep := h.step_acknowledge hexpired
          exact .ended (by rw [after_concat, hstep]) (.inr ⟨rfl, by rw [outcome, hstep]⟩)
      | false =>
          refine h.kept ?_ (by simp) (by simp) fun _ => ?_ <;>
            simp [outcome, after_concat, Timed.step, IdleTimer.acknowledge, hexpired]
  | update n =>
      cases n with
      | succ n =>
          obtain ⟨tr, hstep⟩ := h.step_update_succ n
          exact .ended (by rw [after_concat, hstep]) (.inl ⟨n, rfl⟩)
      | zero =>
          have hstep := h.step_update_zero
          cases harmed : (after period start os).timer.isArmed with
          | true =>
              rw [harmed, if_pos rfl] at hstep
              refine h.kept ?_ ?_ (by simp) (by simp) <;> simp [outcome, after_concat, hstep]
          | false =>
              cases hset : canSet (max period nanosPerMilli) with
              | true => exact h.begun harmed hset
              | false =>
                  rw [harmed, hset, if_neg (by simp), if_neg (by simp)] at hstep
                  refine h.kept ?_ ?_ (by simp) (by simp) <;> simp [outcome, after_concat, hstep]

/-- The timer and what has happened to it agree at any time. -/
theorem tracks (period start : Nat) (os : List Occurrence) : Tracks period start os := by
  induction os using List.reverseRecOn with
  | nil => exact tracks_nil period start
  | append_singleton os o ih => exact ih.concat o

end Countdowns

section Results

/-- What a timer does behind the occurrences `os`.  A period below a millisecond counts as one, and a
period that the system cannot count down is refused. -/
structure Obeys (period start : Nat) (os : List Occurrence) : Prop where
  /-- Updates set the flag by the use-count. -/
  updates : ∀ n, (after period start (os ++ [.update n])).timer.isArmed =
    (decide (n = 0) && canSet (max period nanosPerMilli))
  /-- A countdown begins if none runs. -/
  arms : outcome period start os (.update 0) = .updated .armed ↔
    canSet (max period nanosPerMilli) = true ∧
      ¬ ∃ earlier later, Runs period start os earlier later
  /-- Nothing else fails. -/
  refuses : ∀ n e, outcome period start os (.update n) = .refused e ↔
    e = Errno.invalidArgument ∧ n = 0 ∧ canSet (max period nanosPerMilli) = false
  /-- Expiries are reported of countdowns that run and are over. -/
  reports : outcome period start os .acknowledge = .acknowledged true ↔
    ∃ earlier later, Runs period start os earlier later ∧
      max period nanosPerMilli ≤ elapsed later
  /-- A report disarms, and is not repeated. -/
  disarms : outcome period start os .acknowledge = .acknowledged true →
    (after period start (os ++ [.acknowledge])).timer.isArmed = false ∧
    outcome period start (os ++ [.acknowledge]) .acknowledge = .acknowledged false
  /-- Behind an update that disarms, only what a new countdown comes to is reported. -/
  discards : ∀ before n behind, os = before ++ .update (n + 1) :: behind →
    outcome period start os .acknowledge = .acknowledged true →
    ∃ between later, behind = between ++ .update 0 :: later ∧
      outcome period start (before ++ .update (n + 1) :: between) (.update 0) = .updated .armed ∧
      max period nanosPerMilli ≤ elapsed later
  /-- An update without use of an armed timer leaves its deadline. -/
  keeps : (after period start os).timer.isArmed = true →
    outcome period start os (.update 0) = .updated .unchanged ∧
    (after period start (os ++ [.update 0])).timer = (after period start os).timer

theorem Runs.elapsed_eq (h : Runs period start os earlier later) :
    elapsed os = elapsed earlier + elapsed later := by
  rw [h.split, elapsed_append]
  rfl

/-- A report says that a countdown is over. -/
theorem acknowledge_true_iff (period start : Nat) (os : List Occurrence) :
    outcome period start os .acknowledge = .acknowledged true ↔
      ∃ earlier later, Runs period start os earlier later ∧
        max period nanosPerMilli ≤ elapsed later := by
  simp only [outcome, Timed.step, Outcome.acknowledged.injEq, acknowledge_fst_iff,
    (tracks period start os).deadline, now_after]
  constructor
  · rintro ⟨d, ⟨earlier, later, hruns, rfl⟩, hle⟩
    have htotal := hruns.elapsed_eq
    exact ⟨earlier, later, hruns, by omega⟩
  · rintro ⟨earlier, later, hruns, hle⟩
    have htotal := hruns.elapsed_eq
    exact ⟨_, ⟨earlier, later, hruns, rfl⟩, by omega⟩

/-- A countdown that runs behind an update that disarms began behind it. -/
theorem Runs.begins_behind {before behind : List Occurrence} {n : Nat}
    (h : Runs period start (before ++ .update (n + 1) :: behind) earlier later) :
    ∃ between, earlier = before ++ .update (n + 1) :: between ∧
      behind = between ++ .update 0 :: later := by
  rcases List.append_eq_append_iff.mp h.split with ⟨front, rfl, hfront⟩ | ⟨front, rfl, hfront⟩
  · cases front with
    | nil => cases hfront
    | cons o between =>
        obtain ⟨rfl, rfl⟩ := List.cons_eq_cons.mp hfront
        exact ⟨between, rfl, rfl⟩
  · cases front with
    | nil => cases hfront
    | cons o front =>
        obtain ⟨-, rfl⟩ := List.cons_eq_cons.mp hfront
        have hzero := h.undisturbed (n + 1) (by simp)
        omega

/-- **What a timer says of its past.** -/
theorem obeys (period start : Nat) (os : List Occurrence) : Obeys period start os := by
  have h := tracks period start os
  constructor
  case updates =>
    intro n
    rw [after_concat]
    cases n with
    | zero =>
        rw [h.step_update_zero]
        cases harmed : (after period start os).timer.isArmed with
        | true => simp [harmed, h.settable harmed]
        | false => cases canSet (max period nanosPerMilli) <;> simp [harmed]
    | succ n =>
        obtain ⟨tr, hstep⟩ := h.step_update_succ n
        simp [hstep]
  case arms =>
    rw [outcome, h.step_update_zero, ← h.isArmed_iff]
    cases (after period start os).timer.isArmed <;>
      cases canSet (max period nanosPerMilli) <;> simp
  case refuses =>
    intro n e
    rw [outcome]
    cases n with
    | zero =>
        rw [h.step_update_zero]
        cases harmed : (after period start os).timer.isArmed with
        | true => simp [h.settable harmed]
        | false => cases canSet (max period nanosPerMilli) <;> simp [eq_comm]
    | succ n =>
        obtain ⟨tr, hstep⟩ := h.step_update_succ n
        simp [hstep]
  case reports => exact acknowledge_true_iff period start os
  case disarms =>
    intro hreport
    have hexpired : (after period start os).timer.hasExpired (after period start os).now = true := by
      by_contra hnot
      simp [outcome, Timed.step, IdleTimer.acknowledge, hnot] at hreport
    have hstep := h.step_acknowledge hexpired
    rw [outcome, after_concat, hstep]
    exact ⟨rfl, rfl⟩
  case discards =>
    rintro before n behind rfl hreport
    obtain ⟨earlier, later, hruns, hover⟩ := (acknowledge_true_iff _ _ _).mp hreport
    obtain ⟨between, rfl, rfl⟩ := hruns.begins_behind
    exact ⟨between, later, rfl, hruns.arms, hover⟩
  case keeps =>
    intro harmed
    have hstep := h.step_update_zero
    rw [harmed, if_pos rfl] at hstep
    simp [outcome, after_concat, hstep]

/-- An expiry of which nobody took notice is gone once the timer is armed again. -/
example : outcome 0 7 [.update 0, .passes nanosPerMilli, .update 1, .update 0] .acknowledge =
    .acknowledged false := by
  cbv

/-- A period of `2 ^ 63` seconds is refused, and the timer stays off. -/
theorem refuses_endless :
    outcome (2 ^ 63 * nanosPerSecond) 0 [] (.update 0) = .refused Errno.invalidArgument ∧
      (after (2 ^ 63 * nanosPerSecond) 0 [.update 0]).timer.isArmed = false := by
  decide +kernel

end Results

end LineKeeper.IdleTimer
