import Mathlib.Data.List.Count
import LineKeeper.Launch

/-!
# Launchers that race for one name

Any number of launchers look for a server of the same name, each by its own steps, and the
steps are mixed in any order.  `Contest` has the launchers and what they share; `Contest.run`
lets them take turns as a schedule says.

**Standing.** After any turns a contest stands in one of three ways (`Standing`):

* there was a server before, and each launcher has met it or has not looked yet;
* there was none, and nobody has bound the name yet;
* there was none, and one launcher has bound the name.  Its server runs in the background or
  is about to, and is the one that all others meet.

**Turns.** A launcher takes at most five (`LaunchStage.left`).

**Result.** `Contest.one_server`.
-/

namespace LineKeeper

namespace Addresses

variable {a : Addresses} {name : String} {server : Nat}

/-- The servers that own a name. -/
def owners (a : Addresses) (name : String) : List Nat :=
  (a.bound.filter (·.1 = name)).map (·.2)

theorem owner?_eq_head? (a : Addresses) (name : String) : a.owner? name = (a.owners name).head? := by
  rw [owner?, owners, List.head?_map, List.head?_filter]

theorem owners_of_none (h : a.owner? name = none) : a.owners name = [] := by
  rwa [owner?_eq_head?, List.head?_eq_none_iff] at h

theorem owners_concat (a : Addresses) (name : String) (server : Nat) :
    owners ⟨a.bound ++ [(name, server)]⟩ name = a.owners name ++ [server] := by
  simp [owners]

/-- Who binds a name that nobody owns owns it. -/
theorem owner?_concat (h : a.owner? name = none) (server : Nat) :
    owner? ⟨a.bound ++ [(name, server)]⟩ name = some server := by
  rw [owner?_eq_head?, owners_concat, owners_of_none h]
  rfl

theorem tryConnect_eq (h : check name = .ok ()) (a : Addresses) :
    a.tryConnect name = .ok (a.owner? name) := by
  rw [tryConnect, h]
  rfl

theorem bind_of_none (hname : check name = .ok ()) (h : a.owner? name = none) (server : Nat) :
    a.bind name server = .ok ⟨a.bound ++ [(name, server)]⟩ := by
  simp only [bind, hname, h]

end Addresses

/-- The turns that are left of a launcher at a stage. -/
def LaunchStage.left : LaunchStage → Nat
  | connecting => 5
  | preparing => 4
  | binding => 3
  | detaching => 2
  | reconnecting => 1
  | connected _ => 0
  | failed _ => 0

/-- The stages before a launcher has met a server or bound the name. -/
inductive LaunchStage.Early : LaunchStage → Prop
  | connecting : Early .connecting
  | preparing : Early .preparing
  | binding : Early .binding

/-- The stages of a launcher that meets a server, or has met it. -/
inductive LaunchStage.Late (server : Nat) : LaunchStage → Prop
  | reconnecting : Late server .reconnecting
  | connected : Late server (.connected server)

namespace Launcher

variable {l : Launcher} {site : LaunchSite} {server : Nat}

section Steps

theorem step_connecting (hname : Addresses.check l.name = .ok ()) (h : l.stage = .connecting) :
    l.step site =
      (match site.addresses.owner? l.name with
        | some server => l.toStage (.connected server)
        | none => l.toStage .preparing, site) := by
  simp only [step, h, Addresses.tryConnect_eq hname]
  cases site.addresses.owner? l.name <;> rfl

/-- The launcher can prepare its log file, if that is what it does next. -/
def LogReady (l : Launcher) (files : FileTree) : Prop :=
  l.stage = .preparing → ∀ f ∈ l.logFile, (f.prepare files).1 = .ok ()

instance (l : Launcher) (files : FileTree) : Decidable (l.LogReady files) :=
  inferInstanceAs (Decidable (_ → _))

/-- A launcher prepares its log file, if it has one, and goes on. -/
theorem step_preparing (h : l.stage = .preparing) (hready : l.LogReady site.files) :
    ∃ files, l.step site = (l.toStage .binding, { site with files := files }) := by
  simp only [step, h]
  cases hlog : l.logFile with
  | none => exact ⟨site.files, rfl⟩
  | some f => exact ⟨(f.prepare site.files).2, by simp only [hready h f hlog]⟩

theorem step_binding_of_none (hname : Addresses.check l.name = .ok ()) (h : l.stage = .binding)
    (hnone : site.addresses.owner? l.name = none) :
    l.step site = (l.toStage .detaching,
      { site with addresses := ⟨site.addresses.bound ++ [(l.name, l.number)]⟩ }) := by
  simp only [step, h, Addresses.bind_of_none hname hnone]

/-- Where the name is taken, the launcher has lost the race. -/
theorem step_binding_of_some (hname : Addresses.check l.name = .ok ()) (h : l.stage = .binding)
    (howner : site.addresses.owner? l.name = some server) :
    l.step site = (l.toStage .reconnecting, site) := by
  have hbind := Addresses.bind_taken l.number hname howner
  simp only [step, h, hbind, BindError.isInUse, decide_true, if_true]

theorem step_detaching (h : l.stage = .detaching) :
    l.step site = (l.toStage .reconnecting,
      { site with detached := site.detached ++ [l.number] }) := by
  simp only [step, h]

theorem step_reconnecting (hname : Addresses.check l.name = .ok ()) (h : l.stage = .reconnecting)
    (howner : site.addresses.owner? l.name = some server) :
    l.step site = (l.toStage (.connected server), site) := by
  simp only [step, h, Addresses.tryConnect_eq hname, howner]

/-- A launcher that meets a server that is there, or has met it, ends up connected to it. -/
theorem late_step (hname : Addresses.check l.name = .ok ()) (h : l.stage.Late server)
    (howner : site.addresses.owner? l.name = some server) :
    l.step site = (l.toStage (.connected server), site) := by
  generalize hstage : l.stage = stage at h
  cases h with
  | reconnecting => exact step_reconnecting hname hstage howner
  | connected =>
      rw [step_connected site hstage, toStage, ← hstage]

/-- Where the name is owned, a step of a launcher that has not met another server changes at most the
files, and leads it towards the owner. -/
theorem step_of_owned (hname : Addresses.check l.name = .ok ())
    (howner : site.addresses.owner? l.name = some server) (hready : l.LogReady site.files)
    (h : l.stage.Early ∨ l.stage.Late server) :
    ∃ stage files, l.step site = (l.toStage stage, { site with files := files }) ∧
      (stage.Early ∨ stage.Late server) := by
  rcases h with hearly | hlate
  · generalize hstage : l.stage = stage at hearly
    cases hearly with
    | connecting =>
        refine ⟨.connected server, site.files, ?_, .inr .connected⟩
        rw [step_connecting hname hstage, howner]
    | preparing =>
        obtain ⟨files, hstep⟩ := step_preparing hstage hready
        exact ⟨_, files, hstep, .inl .binding⟩
    | binding =>
        exact ⟨_, site.files, step_binding_of_some hname hstage howner, .inr .reconnecting⟩
  · exact ⟨_, site.files, late_step hname hlate howner, .inr .connected⟩

/-- A step changes the stage of a launcher only. -/
theorem step_fst (l : Launcher) (site : LaunchSite) : ∃ stage, (l.step site).1 = l.toStage stage := by
  unfold step
  repeat' split
  all_goals exact ⟨_, rfl⟩

/-- Each step takes a turn from those that are left. -/
theorem left_step (l : Launcher) (site : LaunchSite) :
    (l.step site).1.stage.left ≤ l.stage.left - 1 := by
  unfold step
  repeat' split
  all_goals simp only [toStage, LaunchStage.left, *]
  all_goals decide

end Steps

end Launcher

/-- Launchers, and what they share. -/
structure Contest where
  launchers : List Launcher
  site : LaunchSite

namespace Contest

variable {name : String} {logs : List (Option LogFile)} {first : Nat} {before : LaunchSite}
  {sched : List Nat} {c : Contest} {l : Launcher} {i : Nat}

section Turns

/-- Fresh launchers that look for a server of one name, each with its log file.  A server of their
own would have a number from `first` on. -/
def start (name : String) (logs : List (Option LogFile)) (first : Nat) (site : LaunchSite) :
    Contest :=
  ⟨logs.zipIdx.map fun (log, i) => Launcher.fresh name log (first + i), site⟩

/-- A launcher takes a step. -/
def turn (c : Contest) (i : Nat) : Contest :=
  match c.launchers[i]? with
  | none => c
  | some l =>
      let (l, site) := l.step c.site
      ⟨c.launchers.set i l, site⟩

/-- Launchers take steps, in the order of a schedule. -/
def run (c : Contest) (sched : List Nat) : Contest :=
  sched.foldl turn c

/-- Each launcher can prepare its log file in its turn. -/
def LogsReady (c : Contest) : List Nat → Prop
  | [] => True
  | i :: sched => (∀ l ∈ c.launchers[i]?, l.LogReady c.site.files) ∧ (c.turn i).LogsReady sched

instance decidableLogsReady : (c : Contest) → (sched : List Nat) → Decidable (c.LogsReady sched)
  | _, [] => .isTrue trivial
  | c, i :: sched =>
      have := decidableLogsReady (c.turn i) sched
      inferInstanceAs (Decidable (_ ∧ _))

theorem run_cons (c : Contest) (i : Nat) (sched : List Nat) :
    c.run (i :: sched) = (c.turn i).run sched := rfl

theorem turn_of_none (h : c.launchers[i]? = none) : c.turn i = c := by
  rw [turn, h]

theorem turn_of_some (h : c.launchers[i]? = some l) :
    c.turn i = ⟨c.launchers.set i (l.step c.site).1, (l.step c.site).2⟩ := by
  rw [turn, h]

/-- What no stage is part of is as at the start. -/
theorem map_turn {α : Type} {f : Launcher → α} (hf : ∀ l stage, f (l.toStage stage) = f l)
    (c : Contest) (i : Nat) : (c.turn i).launchers.map f = c.launchers.map f := by
  cases hl : c.launchers[i]? with
  | none => rw [turn_of_none hl]
  | some l =>
      obtain ⟨stage, hstage⟩ := l.step_fst c.site
      obtain ⟨hlt, rfl⟩ := List.getElem?_eq_some_iff.mp hl
      rw [turn_of_some hl, hstage, List.map_set, hf]
      refine List.ext_getElem? fun j => ?_
      rw [List.getElem?_set]
      split
      · next hj =>
        subst hj
        rw [if_pos (by rwa [List.length_map]), List.getElem?_map, hl]
        rfl
      · rfl

theorem map_run {α : Type} {f : Launcher → α} (hf : ∀ l stage, f (l.toStage stage) = f l)
    (c : Contest) (sched : List Nat) : (c.run sched).launchers.map f = c.launchers.map f := by
  induction sched generalizing c with
  | nil => rfl
  | cons i sched ih => rw [run_cons, ih, map_turn hf]

/-- After its turns, a launcher has at most as many left as it has not taken. -/
theorem left_run (h : (c.run sched).launchers[i]? = some l) :
    ∃ l₀, c.launchers[i]? = some l₀ ∧ l.stage.left ≤ l₀.stage.left - sched.count i := by
  induction sched generalizing c with
  | nil => exact ⟨l, h, Nat.le_refl _⟩
  | cons j sched ih =>
      obtain ⟨l₁, hl₁, hleft⟩ := ih h
      cases hj : c.launchers[j]? with
      | none =>
          rw [turn_of_none hj] at hl₁
          have hne : j ≠ i := by
            rintro rfl
            rw [hj] at hl₁
            cases hl₁
          exact ⟨l₁, hl₁, by rwa [List.count_cons_of_ne hne]⟩
      | some l₀ =>
          rw [turn_of_some hj, List.getElem?_set] at hl₁
          split at hl₁
          · next heq =>
            subst heq
            rw [if_pos (List.getElem?_eq_some_iff.mp hj).1] at hl₁
            cases hl₁
            have hstep := l₀.left_step c.site
            refine ⟨l₀, hj, ?_⟩
            rw [List.count_cons_self]
            omega
          · next hne => exact ⟨l₁, hl₁, by rwa [List.count_cons_of_ne hne]⟩

end Turns

section Standing

/-- How launchers of one name stand that began with the site `before`. -/
inductive Standing (name : String) (before : LaunchSite) (c : Contest) : Prop
  | served (server : Nat) (howner : before.addresses.owner? name = some server)
      (haddresses : c.site.addresses = before.addresses)
      (hdetached : c.site.detached = before.detached)
      (hstages : ∀ l ∈ c.launchers, l.stage = .connecting ∨ l.stage = .connected server)
  | seeking (hnone : before.addresses.owner? name = none)
      (haddresses : c.site.addresses = before.addresses)
      (hdetached : c.site.detached = before.detached)
      (hstages : ∀ l ∈ c.launchers, l.stage.Early)
  | won (w : Nat) (winner : Launcher) (hnone : before.addresses.owner? name = none)
      (hwinner : c.launchers[w]? = some winner)
      (haddresses : c.site.addresses = ⟨before.addresses.bound ++ [(name, winner.number)]⟩)
      (hstands : winner.stage = .detaching ∧ c.site.detached = before.detached ∨
        winner.stage.Late winner.number ∧
          c.site.detached = before.detached ++ [winner.number])
      (hothers : ∀ i l, c.launchers[i]? = some l → i ≠ w →
        l.stage.Early ∨ l.stage.Late winner.number)

theorem forall_mem_set {P : Launcher → Prop} {ls : List Launcher} (h : ∀ l ∈ ls, P l) (hl : P l)
    (i : Nat) : ∀ l' ∈ ls.set i l, P l' := by
  intro l' hl'
  rcases List.mem_or_eq_of_mem_set hl' with hold | rfl
  · exact h l' hold
  · exact hl

/-- The server that was there is met by every launcher that looks for it. -/
theorem standing_served {server : Nat} (hname : Addresses.check name = .ok ())
    (howner : before.addresses.owner? name = some server)
    (haddresses : c.site.addresses = before.addresses)
    (hdetached : c.site.detached = before.detached)
    (hstages : ∀ l ∈ c.launchers, l.stage = .connecting ∨ l.stage = .connected server)
    (hl : c.launchers[i]? = some l) (hlname : l.name = name) : Standing name before (c.turn i) := by
  subst hlname
  have howner' : c.site.addresses.owner? l.name = some server := by rw [haddresses, howner]
  have hstep : l.step c.site = (l.toStage (.connected server), c.site) := by
    rcases hstages l (List.mem_of_getElem? hl) with hstage | hstage
    · rw [Launcher.step_connecting hname hstage, howner']
    · exact Launcher.late_step hname (hstage ▸ .connected) howner'
  rw [turn_of_some hl, hstep]
  exact .served server howner haddresses hdetached
    (forall_mem_set hstages (.inr rfl) i)

/-- While nobody has bound the name, a launcher comes closer to binding it, or binds it. -/
theorem standing_seeking (hname : Addresses.check name = .ok ())
    (hnone : before.addresses.owner? name = none)
    (haddresses : c.site.addresses = before.addresses)
    (hdetached : c.site.detached = before.detached) (hstages : ∀ l ∈ c.launchers, l.stage.Early)
    (hready : l.LogReady c.site.files) (hl : c.launchers[i]? = some l) (hlname : l.name = name) :
    Standing name before (c.turn i) := by
  subst hlname
  have hnone' : c.site.addresses.owner? l.name = none := by rw [haddresses, hnone]
  have hearly := hstages l (List.mem_of_getElem? hl)
  generalize hstage : l.stage = stage at hearly
  cases hearly with
  | connecting =>
      rw [turn_of_some hl, Launcher.step_connecting hname hstage, hnone']
      exact .seeking hnone haddresses hdetached (forall_mem_set hstages .preparing i)
  | preparing =>
      obtain ⟨files, hstep⟩ := Launcher.step_preparing hstage hready
      rw [turn_of_some hl, hstep]
      exact .seeking hnone haddresses hdetached (forall_mem_set hstages .binding i)
  | binding =>
      rw [turn_of_some hl, Launcher.step_binding_of_none hname hstage hnone', haddresses]
      have hlt := (List.getElem?_eq_some_iff.mp hl).1
      refine .won i (l.toStage .detaching) hnone (List.getElem?_set_self hlt) rfl
        (.inl ⟨rfl, hdetached⟩) ?_
      intro j l' hl' hne
      rw [List.getElem?_set_ne (Ne.symm hne)] at hl'
      exact .inl (hstages l' (List.mem_of_getElem? hl'))

/-- Once a launcher has bound the name, it spawns its server, and all launchers meet this one. -/
theorem standing_won {w : Nat} {winner : Launcher} (hname : Addresses.check name = .ok ())
    (hnone : before.addresses.owner? name = none) (hwinner : c.launchers[w]? = some winner)
    (haddresses : c.site.addresses = ⟨before.addresses.bound ++ [(name, winner.number)]⟩)
    (hstands : winner.stage = .detaching ∧ c.site.detached = before.detached ∨
      winner.stage.Late winner.number ∧ c.site.detached = before.detached ++ [winner.number])
    (hothers : ∀ i l, c.launchers[i]? = some l → i ≠ w →
      l.stage.Early ∨ l.stage.Late winner.number)
    (hready : l.LogReady c.site.files) (hl : c.launchers[i]? = some l) (hlname : l.name = name) :
    Standing name before (c.turn i) := by
  subst hlname
  have howner : c.site.addresses.owner? l.name = some winner.number := by
    rw [haddresses, Addresses.owner?_concat hnone]
  have hlt := (List.getElem?_eq_some_iff.mp hl).1
  by_cases hi : i = w
  · subst hi
    cases hl.symm.trans hwinner
    have hothers' : ∀ stage j l', (c.launchers.set i (l.toStage stage))[j]? = some l' → j ≠ i →
        l'.stage.Early ∨ l'.stage.Late l.number := by
      intro stage j l' hl' hne
      rw [List.getElem?_set_ne (Ne.symm hne)] at hl'
      exact hothers j l' hl' hne
    rcases hstands with ⟨hstage, hdetached⟩ | ⟨hlate, hdetached⟩
    · rw [turn_of_some hl, Launcher.step_detaching hstage, hdetached]
      exact .won i _ hnone (List.getElem?_set_self hlt) haddresses (.inr ⟨.reconnecting, rfl⟩)
        (hothers' _)
    · rw [turn_of_some hl, Launcher.late_step hname hlate howner]
      exact .won i _ hnone (List.getElem?_set_self hlt) haddresses
        (.inr ⟨.connected, hdetached⟩) (hothers' _)
  · obtain ⟨stage, files, hstep, hstage⟩ :=
      Launcher.step_of_owned hname howner hready (hothers i l hl hi)
    rw [turn_of_some hl, hstep]
    refine .won w winner hnone ?_ haddresses hstands ?_
    · rwa [List.getElem?_set_ne hi]
    · intro j l' hl' hne
      by_cases hj : i = j
      · subst hj
        rw [List.getElem?_set_self hlt] at hl'
        cases hl'
        exact hstage
      · rw [List.getElem?_set_ne hj] at hl'
        exact hothers j l' hl' hne

/-- A turn keeps how the launchers stand. -/
theorem Standing.turn (h : Standing name before c) (hname : Addresses.check name = .ok ())
    (hnames : ∀ l ∈ c.launchers, l.name = name)
    (hready : ∀ l ∈ c.launchers[i]?, l.LogReady c.site.files) :
    Standing name before (c.turn i) := by
  cases hl : c.launchers[i]? with
  | none => rwa [turn_of_none hl]
  | some l =>
      have hlname := hnames l (List.mem_of_getElem? hl)
      cases h with
      | served _ howner haddresses hdetached hstages =>
          exact standing_served hname howner haddresses hdetached hstages hl hlname
      | seeking hnone haddresses hdetached hstages =>
          exact standing_seeking hname hnone haddresses hdetached hstages (hready l hl) hl hlname
      | won _ _ hnone hwinner haddresses hstands hothers =>
          exact standing_won hname hnone hwinner haddresses hstands hothers (hready l hl)
            hl hlname

theorem names_turn (hnames : ∀ l ∈ c.launchers, l.name = name) (i : Nat) :
    ∀ l ∈ (c.turn i).launchers, l.name = name := by
  have hmap := map_turn (f := Launcher.name) (fun _ _ => rfl) c i
  rwa [← List.forall_mem_map (f := Launcher.name) (P := (· = name)), hmap, List.forall_mem_map]

/-- So do all turns of a schedule. -/
theorem Standing.run (h : Standing name before c) (hname : Addresses.check name = .ok ())
    (hnames : ∀ l ∈ c.launchers, l.name = name) (hready : c.LogsReady sched) :
    Standing name before (c.run sched) := by
  induction sched generalizing c with
  | nil => exact h
  | cons i sched ih =>
      exact ih (h.turn hname hnames hready.1) (names_turn hnames i) hready.2

theorem names_start : ∀ l ∈ (start name logs first before).launchers, l.name = name := by
  intro l hl
  obtain ⟨_, -, rfl⟩ := List.mem_map.mp hl
  rfl

theorem stages_start : ∀ l ∈ (start name logs first before).launchers, l.stage = .connecting := by
  intro l hl
  obtain ⟨_, -, rfl⟩ := List.mem_map.mp hl
  rfl

theorem standing_start (name : String) (logs : List (Option LogFile)) (first : Nat)
    (before : LaunchSite) : Standing name before (start name logs first before) := by
  cases howner : before.addresses.owner? name with
  | some server =>
      exact .served server howner rfl rfl fun l hl => .inl (stages_start l hl)
  | none =>
      exact .seeking howner rfl rfl fun l hl => stages_start l hl ▸ .connecting

end Standing

section Results

/-- What came of `n` launchers that began with the site `before` and took turns as the schedule says.
A server of their own would have a number from `first` on. -/
structure Outcome (name : String) (n first : Nat) (before : LaunchSite) (sched : List Nat)
    (c : Contest) : Prop where
  single : (c.site.addresses.owners name).length ≤ 1
  unfailed : ∀ l ∈ c.launchers, ∀ e, l.stage ≠ .failed e
  connected : ∀ l ∈ c.launchers, ∀ server, l.stage = .connected server →
    c.site.addresses.owner? name = some server
  returned : ∀ i < n, 5 ≤ sched.count i →
    ∃ l server, c.launchers[i]? = some l ∧ l.stage = .connected server
  served : ∀ server, before.addresses.owner? name = some server →
    c.site.addresses = before.addresses ∧ c.site.detached = before.detached
  spawned : before.addresses.owner? name = none → c.site.detached = before.detached ∨
    ∃ w < n, c.site.addresses.owner? name = some (first + w) ∧
      c.site.detached = before.detached ++ [first + w]
  finished : before.addresses.owner? name = none → 0 < n → (∀ i < n, 5 ≤ sched.count i) →
    c.site.detached ≠ before.detached

/-- A launcher is early, or about to spawn its server, or it meets the server that owns the name. -/
theorem Standing.stage_cases (h : Standing name before c) (hl : l ∈ c.launchers) :
    l.stage.Early ∨ l.stage = .detaching ∨
      ∃ server, l.stage.Late server ∧ c.site.addresses.owner? name = some server := by
  cases h with
  | served server howner haddresses _ hstages =>
      rcases hstages l hl with hstage | hstage
      · exact .inl (hstage ▸ .connecting)
      · exact .inr (.inr ⟨server, hstage ▸ .connected, haddresses ▸ howner⟩)
  | seeking _ _ _ hstages => exact .inl (hstages l hl)
  | won w winner hnone hwinner haddresses hstands hothers =>
      have howner : c.site.addresses.owner? name = some winner.number := by
        rw [haddresses, Addresses.owner?_concat hnone]
      obtain ⟨i, hi⟩ := List.getElem?_of_mem hl
      by_cases hw : i = w
      · subst hw
        cases hi.symm.trans hwinner
        rcases hstands with ⟨hstage, -⟩ | ⟨hlate, -⟩
        · exact .inr (.inl hstage)
        · exact .inr (.inr ⟨_, hlate, howner⟩)
      · rcases hothers i l hi hw with hearly | hlate
        · exact .inl hearly
        · exact .inr (.inr ⟨_, hlate, howner⟩)

theorem Standing.unfailed (h : Standing name before c) (hl : l ∈ c.launchers) (e : LaunchError) :
    l.stage ≠ .failed e := by
  intro hfailed
  rcases h.stage_cases hl with hearly | hdetaching | ⟨_, hlate, -⟩
  · rw [hfailed] at hearly
    cases hearly
  · cases hfailed.symm.trans hdetaching
  · rw [hfailed] at hlate
    cases hlate

/-- Who is connected is connected to the server that owns the name. -/
theorem Standing.connected {server : Nat} (h : Standing name before c) (hl : l ∈ c.launchers)
    (hstage : l.stage = .connected server) : c.site.addresses.owner? name = some server := by
  rcases h.stage_cases hl with hearly | hdetaching | ⟨_, hlate, howner⟩
  · rw [hstage] at hearly
    cases hearly
  · cases hstage.symm.trans hdetaching
  · rw [hstage] at hlate
    cases hlate
    exact howner

/-- A launcher that has no turns left is connected. -/
theorem Standing.exists_connected (h : Standing name before c) (hl : l ∈ c.launchers)
    (hleft : l.stage.left = 0) : ∃ server, l.stage = .connected server := by
  cases hstage : l.stage with
  | connected server => exact ⟨server, rfl⟩
  | failed e => exact absurd hstage (h.unfailed hl e)
  | _ =>
      rw [hstage] at hleft
      cases hleft

theorem Standing.single (h : Standing name before c)
    (hstart : (before.addresses.owners name).length ≤ 1) :
    (c.site.addresses.owners name).length ≤ 1 := by
  cases h with
  | served _ _ haddresses _ _ => rwa [haddresses]
  | seeking _ haddresses _ _ => rwa [haddresses]
  | won _ _ hnone _ haddresses _ _ =>
      rw [haddresses, Addresses.owners_concat, Addresses.owners_of_none hnone]
      exact Nat.le_refl 1

/-- Where nobody owned the name, a launcher that bound it has its server run in the background, or is
about to. -/
theorem Standing.spawned (h : Standing name before c)
    (hnone : before.addresses.owner? name = none) :
    c.site.detached = before.detached ∨ ∃ (w : Nat) (winner : Launcher),
      c.launchers[w]? = some winner ∧
      c.site.addresses.owner? name = some winner.number ∧
      c.site.detached = before.detached ++ [winner.number] := by
  cases h with
  | served _ howner _ _ _ => cases hnone.symm.trans howner
  | seeking _ _ hdetached _ => exact .inl hdetached
  | won w winner _ hwinner haddresses hstands _ =>
      rcases hstands with ⟨-, hdetached⟩ | ⟨-, hdetached⟩
      · exact .inl hdetached
      · refine .inr ⟨w, winner, hwinner, ?_, hdetached⟩
        rw [haddresses, Addresses.owner?_concat hnone]

/-- When all launchers are connected, and there are any, a server runs in the background that did not
before. -/
theorem Standing.finished (h : Standing name before c)
    (hnone : before.addresses.owner? name = none) (hsome : c.launchers ≠ [])
    (hall : ∀ l ∈ c.launchers, ∃ server, l.stage = .connected server) :
    c.site.detached ≠ before.detached := by
  cases h with
  | served _ howner _ _ _ => cases hnone.symm.trans howner
  | seeking _ _ _ hstages =>
      obtain ⟨l, hl⟩ := List.exists_mem_of_ne_nil _ hsome
      obtain ⟨server, hstage⟩ := hall l hl
      have hearly := hstages l hl
      rw [hstage] at hearly
      cases hearly
  | won w winner _ hwinner _ hstands _ =>
      obtain ⟨server, hstage⟩ := hall winner (List.mem_of_getElem? hwinner)
      rcases hstands with ⟨hdetaching, -⟩ | ⟨-, hdetached⟩
      · cases hstage.symm.trans hdetaching
      · intro hsame
        have hlength := congrArg List.length (hdetached.symm.trans hsame)
        rw [List.length_append, List.length_singleton] at hlength
        omega

theorem length_run (name : String) (logs : List (Option LogFile)) (first : Nat)
    (before : LaunchSite) (sched : List Nat) :
    ((start name logs first before).run sched).launchers.length = logs.length := by
  have hmap := congrArg List.length
    (map_run (f := Launcher.number) (fun _ _ => rfl) (start name logs first before) sched)
  rw [List.length_map, List.length_map] at hmap
  rw [hmap, start, List.length_map, List.length_zipIdx]

/-- The launcher at place `w` keeps the number that its server would have. -/
theorem number_run {w : Nat}
    (hl : ((start name logs first before).run sched).launchers[w]? = some l) :
    w < logs.length ∧ l.number = first + w := by
  have hw := (List.getElem?_eq_some_iff.mp hl).1
  rw [length_run] at hw
  refine ⟨hw, ?_⟩
  have hplace : (((start name logs first before).run sched).launchers.map Launcher.number)[w]? =
      ((start name logs first before).launchers.map Launcher.number)[w]? := by
    rw [map_run fun _ _ => rfl]
  rw [List.getElem?_map, hl] at hplace
  simpa [start, Launcher.fresh, List.getElem?_eq_getElem hw] using hplace

/-- **One server for all.** Launchers of one name, whose log files can be prepared, take turns in any
order.  At most one server owns the name, and nobody fails.  Whoever has had five turns is
connected, and to the server that owns the name.  If there was one before, no other is spawned;
otherwise at most one is, and one is when all have had their turns. -/
theorem one_server (hname : Addresses.check name = .ok ())
    (hstart : (before.addresses.owners name).length ≤ 1)
    (hready : (start name logs first before).LogsReady sched) :
    Outcome name logs.length first before sched ((start name logs first before).run sched) := by
  have hstanding := (standing_start name logs first before).run hname names_start hready
  have hreturned : ∀ i < logs.length, 5 ≤ sched.count i → ∃ l server,
      ((start name logs first before).run sched).launchers[i]? = some l ∧
        l.stage = .connected server := by
    intro i hi hcount
    rw [← length_run name logs first before sched] at hi
    have hl := List.getElem?_eq_getElem hi
    obtain ⟨l₀, hl₀, hleft⟩ := left_run hl
    rw [stages_start l₀ (List.mem_of_getElem? hl₀)] at hleft
    have hnone : (((start name logs first before).run sched).launchers[i]).stage.left = 0 :=
      Nat.le_zero.mp (Nat.le_trans hleft (Nat.le_of_eq (Nat.sub_eq_zero_of_le hcount)))
    obtain ⟨server, hstage⟩ := hstanding.exists_connected (List.mem_of_getElem? hl) hnone
    exact ⟨_, server, hl, hstage⟩
  constructor
  case single => exact hstanding.single hstart
  case unfailed => exact fun l hl => hstanding.unfailed hl
  case connected => exact fun l hl _ => hstanding.connected hl
  case returned => exact hreturned
  case served =>
    intro server howner
    cases hstanding with
    | served _ _ haddresses hdetached _ => exact ⟨haddresses, hdetached⟩
    | seeking hnone _ _ _ => cases hnone.symm.trans howner
    | won _ _ hnone _ _ _ _ => cases hnone.symm.trans howner
  case spawned =>
    intro hnone
    refine (hstanding.spawned hnone).imp_right ?_
    rintro ⟨w, winner, hwinner, howner, hdetached⟩
    obtain ⟨hw, hnumber⟩ := number_run hwinner
    exact ⟨w, hw, hnumber ▸ howner, hnumber ▸ hdetached⟩
  case finished =>
    intro hnone hsome hcount
    refine hstanding.finished hnone ?_ ?_
    · rw [← List.length_pos_iff, length_run]
      exact hsome
    · intro l hl
      obtain ⟨i, hi⟩ := List.getElem?_of_mem hl
      have hlt := (number_run hi).1
      obtain ⟨l', server, hl', hstage⟩ := hreturned i hlt (hcount i hlt)
      cases hi.symm.trans hl'
      exact ⟨server, hstage⟩

/-- Two launchers, of which one has a log file, find nobody at the same time. -/
def tied : Contest :=
  start "gpioctl-0" [some (LogFile.new none [47] [108]), none] 7 ⟨.empty, [], .empty⟩

/-- Their turns.  The second one binds the name before the first one tries to. -/
def tiedTurns : List Nat :=
  [0, 1, 0, 1, 1, 0, 1, 0, 0, 1]

/-- Both are connected to the server of the second one, which is the only one. -/
theorem tied_one_server :
    Addresses.check "gpioctl-0" = .ok () ∧ Addresses.empty.owners "gpioctl-0" = [] ∧
      tied.LogsReady tiedTurns ∧
      (tied.run tiedTurns).launchers.map (·.stage) = [.connected 8, .connected 8] ∧
      Outcome "gpioctl-0" 2 7 ⟨.empty, [], .empty⟩ tiedTurns (tied.run tiedTurns) := by
  have hname : Addresses.check "gpioctl-0" = .ok () := by decide +kernel
  have hready : tied.LogsReady tiedTurns := by decide +kernel
  exact ⟨hname, rfl, hready, by decide +kernel, one_server hname (by decide) hready⟩

end Results

end Contest
end LineKeeper
