import LineKeeper.Proofs.Attention

/-!
# How long a ready receiver has to wait

A wait reports at most 16 of the receivers that are ready and puts them behind the ones
that it did not look at.  So a receiver that is listed moves to the front by 16 places with
each wait, until it is reported; then its event moves to the front of the events that are
handled one by one.

`Loop.delay` counts the steps that are left at most.  A step of the server that does not
wait in the device makes the delay smaller, or handles the event (`delay_step`), and nothing
around the server makes it larger but another order of the list (`delay_act`).
-/

namespace LineKeeper

/-- What never grows cannot become smaller again and again. -/
theorem not_forever {smaller : Nat → Prop} (measure : Nat → Nat) {n : Nat}
    (hagain : ∀ k, ∃ m, k ≤ m ∧ smaller m) (hle : ∀ m, n ≤ m → measure (m + 1) ≤ measure m)
    (hlt : ∀ m, n ≤ m → smaller m → measure (m + 1) < measure m) : False := by
  have hdown : ∀ m k, n ≤ m → measure (m + k) ≤ measure m := by
    intro m k hm
    induction k with
    | zero => exact Nat.le_refl _
    | succ k ih => exact Nat.le_trans (hle (m + k) (by omega)) ih
  induction hsize : measure n using Nat.strongRecOn generalizing n with
  | _ size ih =>
      subst hsize
      obtain ⟨m, hm, hsmaller⟩ := hagain n
      have hbelow : measure (m + 1) < measure n := by
        have hstart := hdown n (m - n) (Nat.le_refl n)
        rw [Nat.add_sub_cancel' hm] at hstart
        exact Nat.lt_of_lt_of_le (hlt m hm hsmaller) hstart
      refine ih (measure (m + 1)) hbelow (n := m + 1) ?_ ?_ ?_ rfl
      · exact fun k hk => hle k (by omega)
      · exact fun k hk => hlt k (by omega)
      · exact fun k j hk => hdown k j (by omega)

namespace Action

/-- The first actions of an endless run. -/
def first (σ : Nat → Action) (n : Nat) : List Action :=
  (List.range n).map σ

theorem first_succ (σ : Nat → Action) (n : Nat) : first σ (n + 1) = first σ n ++ [σ n] := by
  rw [first, List.range_succ, List.map_append]
  rfl

theorem mem_first {σ : Nat → Action} {n : Nat} {a : Action} (h : a ∈ first σ n) :
    ∃ k, σ k = a := by
  obtain ⟨k, -, hk⟩ := List.mem_map.mp h
  exact ⟨k, hk⟩

/-- What comes before one of the first actions are the first actions, too. -/
theorem eq_of_first {σ : Nat → Action} {n : Nat} {xs ys : List Action} {a : Action}
    (h : first σ n = xs ++ a :: ys) : ∃ k, σ k = a ∧ xs = first σ k := by
  induction n generalizing ys with
  | zero =>
      have hempty : first σ 0 = [] := rfl
      rw [hempty] at h
      exact absurd h.symm (List.append_ne_nil_of_right_ne_nil _ (List.cons_ne_nil a ys))
  | succ n ih =>
      rw [first_succ] at h
      rcases List.eq_nil_or_concat ys with rfl | ⟨zs, b, rfl⟩
      · obtain ⟨hxs, ha⟩ := List.append_inj' h rfl
        exact ⟨n, (List.cons.inj ha).1, hxs.symm⟩
      · have hsplit : xs ++ a :: (zs ++ [b]) = (xs ++ a :: zs) ++ [b] := by
          rw [List.append_assoc]
          rfl
        rw [List.concat_eq_append, hsplit] at h
        exact ih (List.append_inj' h rfl).1

end Action

namespace Loop

open Server

variable {l : Loop} {t : UInt64} {a : Action}

section Places

/-- A ready receiver that is not reported has moved to the front by as many places as were
reported. -/
theorem place_report (s : Server) (n : Nat) (ts : List UInt64) (h : t ∈ ts)
    (hready : isReady s t = true) :
    t ∈ (report s n ts).1 ∨
      t ∈ (report s n ts).2 ∧ (report s n ts).2.idxOf t + n ≤ ts.idxOf t := by
  induction ts generalizing n with
  | nil => cases h
  | cons u ts ih =>
      cases n with
      | zero => exact .inr ⟨h, Nat.le_refl _⟩
      | succ n =>
          by_cases hu : u = t
          · subst hu
            left
            simp only [report, hready, if_true]
            exact List.mem_cons_self
          · have hmem : t ∈ ts := (List.mem_cons.mp h).resolve_left (Ne.symm hu)
            rw [List.idxOf_cons_ne ts hu]
            simp only [report]
            split
            · dsimp only
              rcases ih n hmem with hfound | ⟨hrest, hplace⟩
              · exact .inl (List.mem_cons_of_mem _ hfound)
              · exact .inr ⟨hrest, by omega⟩
            · rcases ih (n + 1) hmem with hfound | ⟨hrest, hplace⟩
              · exact .inl hfound
              · exact .inr ⟨hrest, by omega⟩

theorem idxOf_filter_le (p : UInt64 → Bool) (ts : List UInt64) (hp : p t = true) :
    (ts.filter p).idxOf t ≤ ts.idxOf t := by
  induction ts with
  | nil => exact Nat.le_refl _
  | cons u ts ih =>
      by_cases hu : u = t
      · subst hu
        have hfront : ((u :: ts).filter p).idxOf u = 0 := by
          rw [List.filter_cons_of_pos hp, List.idxOf_cons_self]
        exact Nat.le_trans (Nat.le_of_eq hfront) (Nat.zero_le _)
      · rw [List.idxOf_cons_ne ts hu]
        by_cases hkept : p u = true
        · rw [List.filter_cons_of_pos hkept, List.idxOf_cons_ne _ hu]
          exact Nat.succ_le_succ ih
        · rw [List.filter_cons_of_neg hkept]
          exact Nat.le_succ_of_le ih

/-- What becomes ready is listed behind what is listed. -/
theorem place_refresh (h : t ∈ l.ready) (hwatched : t ∈ l.server.watched) :
    l.refresh.ready.idxOf t ≤ l.ready.idxOf t := by
  have hkeep : l.server.watched.contains t = true := by
    rw [List.contains_eq_mem, decide_eq_true hwatched]
  unfold refresh
  dsimp only
  rw [List.idxOf_append_of_mem (List.mem_filter.mpr ⟨h, hkeep⟩)]
  exact idxOf_filter_le _ _ hkeep

end Places

section Delays

/-- How many steps it takes at most until an event of a receiver that is listed is handled. -/
def delay (l : Loop) (t : UInt64) : Nat :=
  (if l.job.isSome then 1 else 0) +
    match l.phase with
    | .waiting => 40 + 4 * l.ready.idxOf t
    | .handling es =>
        if t ∈ es.map Readiness.token then 2 * (es.map Readiness.token).idxOf t
        else 2 * es.length + 41 + 4 * l.ready.idxOf t

theorem delay_le {m : Loop} (hjob : m.job = l.job) (hphase : m.phase = l.phase)
    (hready : m.ready.idxOf t ≤ l.ready.idxOf t) : m.delay t ≤ l.delay t := by
  unfold delay
  rw [hjob, hphase]
  refine Nat.add_le_add_left ?_ _
  split
  · omega
  · split
    · exact Nat.le_refl _
    · omega

theorem delay_withServer {s : Server} (h : t ∈ l.ready) (hwatched : t ∈ s.watched) :
    (l.withServer s).delay t ≤ l.delay t :=
  delay_le rfl rfl (place_refresh (l := { l with server := s }) h hwatched)

/-- Nothing that is done around the server makes a receiver wait longer, but another order. -/
theorem delay_act (ha : a ≠ .serve) (horder : ∀ ready, a ≠ .reorder ready)
    (h : t ∈ l.ready) (hwatched : t ∈ l.server.watched) : (l.act a).delay t ≤ l.delay t := by
  cases a with
  | serve => exact absurd rfl ha
  | reorder ready => exact absurd rfl (horder ready)
  | replug chips => exact Nat.le_refl _
  | gate closed => exact Nat.le_refl _
  | raise signal => exact delay_withServer h hwatched
  | pass nanos => exact delay_withServer h hwatched
  | connect peer => exact delay_withServer h hwatched
  | send link bytes => exact delay_withServer h hwatched
  | take link count => exact delay_withServer h hwatched
  | shutdown link => exact delay_withServer h hwatched
  | close link => exact delay_withServer h hwatched

/-- A wait reports the receiver or brings it nearer to the front. -/
theorem delay_wait (hjob : l.job = none) (hphase : l.phase = .waiting) (h : t ∈ l.ready)
    (hready : isReady l.server t = true) : l.wait.delay t < l.delay t := by
  have hbefore : l.delay t = 40 + 4 * l.ready.idxOf t := by
    simp only [delay, hjob, hphase, Option.isSome_none, Bool.false_eq_true, if_false, Nat.zero_add]
  have hplace := place_report l.server maxEvents l.ready h hready
  have hlength := report_length l.server maxEvents l.ready
  have hjob' : l.wait.job = none := hjob
  rw [hbefore]
  unfold delay
  rw [hjob']
  simp only [wait, Option.isSome_none, Bool.false_eq_true, if_false, Nat.zero_add]
  generalize (report l.server maxEvents l.ready).1 = found at *
  generalize (report l.server maxEvents l.ready).2 = rest at *
  have htokens : (found.map fun u => (⟨u, isHungUp l.server u⟩ : Readiness)).map Readiness.token =
      found := by
    rw [List.map_map]
    exact List.map_id found
  cases hempty : found.isEmpty with
  | true =>
      obtain rfl := List.isEmpty_iff.mp hempty
      obtain ⟨-, hfront⟩ := hplace.resolve_left List.not_mem_nil
      simp only [if_true, List.append_nil, maxEvents] at hfront ⊢
      omega
  | false =>
      simp only [Bool.false_eq_true, if_false, htokens, List.length_map]
      by_cases hfound : t ∈ found
      · have hindex := List.idxOf_lt_length_of_mem hfound
        rw [if_pos hfound]
        simp only [maxEvents] at hlength
        omega
      · obtain ⟨hrest, hfront⟩ := hplace.resolve_left hfound
        rw [if_neg hfound, List.idxOf_append_of_mem hrest]
        simp only [maxEvents] at hlength hfront
        omega

/-- A step handles the event of a receiver that is ready or makes its delay smaller, unless the
server has to wait in the device. -/
theorem delay_step (hend : l.ending = none) (hstop : l.server.stop = none)
    (hopen : l.isStuck = false) (h : t ∈ l.ready) (hready : isReady l.server t = true)
    (hwatched : t ∈ l.step.server.watched) (hgoes : l.step.ending = none) :
    (l.job = none ∧ ∃ e es, l.phase = .handling (e :: es) ∧ e.token = t) ∨
      l.step.delay t < l.delay t := by
  obtain ⟨-, hidle⟩ | ⟨job, -, hjob, -, hm⟩ | ⟨-, hjob, hphase, hm⟩ |
      ⟨-, -, -, -, -, hsome, -⟩ | ⟨e, es, -, hjob, hphase, -, -, hm⟩ | ⟨why, -, -, -, hwhy, -⟩ |
      ⟨s, -, hjob, hphase, -, -, hm⟩ | ⟨e, -, -, -, -, -, hm⟩ := l.steps
  · rw [hend, hopen] at hidle
    rcases hidle with hended | hstuck
    · cases hended
    · cases hstuck
  · right
    rw [hm] at hwatched ⊢
    refine Nat.lt_of_le_of_lt (delay_withServer (l := { l with job := none }) h hwatched) ?_
    simp only [delay, hjob, Option.isSome_some, Option.isSome_none, Bool.false_eq_true, if_true,
      if_false]
    omega
  · right
    rw [hm]
    exact delay_wait hjob hphase h hready
  · rw [hstop] at hsome
    cases hsome
  · by_cases he : e.token = t
    · exact .inl ⟨hjob, e, es, hphase, he⟩
    right
    generalize hbrings : l.step.job = job at hm
    rw [hm]
    refine Nat.lt_of_le_of_lt (delay_withServer (l := { l with
      phase := .handling es
      job := job }) h hwatched) ?_
    have hbusy : (if job.isSome then 1 else 0) ≤ 1 := by
      split <;> omega
    simp only [delay, hjob, hphase, Option.isSome_none, Bool.false_eq_true, if_false,
      List.map_cons, List.mem_cons, Ne.symm he, false_or, List.idxOf_cons_ne _ he,
      List.length_cons]
    by_cases hmem : t ∈ es.map Readiness.token
    · rw [if_pos hmem, if_pos hmem]
      omega
    · rw [if_neg hmem, if_neg hmem]
      omega
  · rw [hstop] at hwhy
    cases hwhy
  · right
    rw [hm] at hwatched ⊢
    refine Nat.lt_of_le_of_lt (delay_withServer (l := { l with phase := .waiting }) h hwatched) ?_
    simp only [delay, hjob, hphase, Option.isSome_none, Bool.false_eq_true, if_false,
      List.map_nil, List.not_mem_nil, List.length_nil]
    omega
  · rw [hm] at hgoes
    cases hgoes

end Delays

section Schedules

variable {σ : Nat → Action} {n k : Nat}

/-- The loop after the first actions of an endless run. -/
def playFor (l : Loop) (σ : Nat → Action) (n : Nat) : Loop :=
  l.play (Action.first σ n)

theorem playFor_succ (l : Loop) (σ : Nat → Action) (n : Nat) :
    l.playFor σ (n + 1) = (l.playFor σ n).act (σ n) := by
  rw [playFor, Action.first_succ]
  exact play_concat l _ (σ n)

/-- The server has its turn again and again while the device lets requests pass, and what is ready
is listed in another order only finitely often. -/
structure Fair (l : Loop) (σ : Nat → Action) : Prop where
  serves : ∀ n, ∃ m, n ≤ m ∧ σ m = .serve ∧ (l.playFor σ m).gateClosed = false
  settles : ∃ n, ∀ m, n ≤ m → ∀ ready, σ m ≠ .reorder ready

/-- The server runs and watches a receiver that is ready. -/
structure Awaits (l : Loop) (t : UInt64) : Prop where
  ending : l.ending = none
  stop : l.server.stop = none
  watched : t ∈ l.server.watched
  ready : isReady l.server t = true
  listed : t ∈ l.ready

/-- The next step handles an event of the receiver. -/
def Reaches (l : Loop) (t : UInt64) : Prop :=
  l.job = none ∧ ∃ e es, l.phase = .handling (e :: es) ∧ e.token = t

theorem isStuck_of_open (h : l.gateClosed = false) : l.isStuck = false := by
  unfold isStuck
  split
  · rw [h, Bool.and_false, Bool.false_and]
  · rfl

/-- A receiver that stays ready has its event handled. -/
theorem Fair.reaches (h : Fair l σ) (hawaits : ∀ m, n ≤ m → Awaits (l.playFor σ m) t) :
    ∃ m, n ≤ m ∧ σ m = .serve ∧ Reaches (l.playFor σ m) t := by
  by_contra hnever
  obtain ⟨k, hsettled⟩ := h.settles
  have hserve : ∀ m, n ≤ m → σ m = .serve → (l.playFor σ m).isStuck = false →
      (l.playFor σ (m + 1)).delay t < (l.playFor σ m).delay t := by
    intro m hm hserves hopen
    have hnow := hawaits m hm
    have hnext := hawaits (m + 1) (Nat.le_succ_of_le hm)
    rw [playFor_succ, hserves] at hnext ⊢
    rcases delay_step hnow.ending hnow.stop hopen hnow.listed hnow.ready hnext.watched
      hnext.ending with hreaches | hless
    · exact absurd ⟨m, hm, hserves, hreaches⟩ hnever
    · exact hless
  refine not_forever (fun m => (l.playFor σ m).delay t) (n := max n k) h.serves ?_ ?_
  · intro m hm
    have hnow := hawaits m (by omega)
    by_cases hserves : σ m = .serve
    · cases hstuck : (l.playFor σ m).isStuck with
      | false => exact Nat.le_of_lt (hserve m (by omega) hserves hstuck)
      | true =>
          have hsame : l.playFor σ (m + 1) = l.playFor σ m := by
            rw [playFor_succ, hserves]
            exact step_of_stuck hstuck
          exact Nat.le_of_eq (by rw [hsame])
    · rw [playFor_succ]
      exact delay_act hserves (hsettled m (by omega)) hnow.listed hnow.watched
  · rintro m hm ⟨hserves, hgate⟩
    exact hserve m (by omega) hserves (isStuck_of_open hgate)

end Schedules

end Loop
end LineKeeper
