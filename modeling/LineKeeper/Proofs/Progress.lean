import Mathlib.Data.Nat.Init
import LineKeeper.Proofs.Calls
import LineKeeper.Proofs.Fairness

/-!
# Every call is answered

A server that has its turn again and again (`Loop.Fair`) answers the call of a client that
nobody disturbs (`Undisturbed`).

* Its link moves to the front of those that wait, and the attempts to accept it that fail
  come to an end (`Fair.accepts`).
* Then the message is an event that stays ready, until it is read (`Fair.reads`).
* A request that was read is carried out, and the answer to a STOP comes when the events
  that are left have been forgotten (`Fair.pays`).
-/

namespace LineKeeper
namespace Loop

open Server

variable {l : Loop} {i k n : Nat} {m : Message} {σ : Nat → Action} {id : ClientId}

section Seats

/-- How many attempts it takes until the link `i`, which stands in line, has had its last one, if
each link `k` has `f k` of them. -/
def attemptsTo (f : Nat → Nat) (i : Nat) : List Nat → Nat
  | [] => 0
  | k :: ks => f k + if k = i then 0 else attemptsTo f i ks

theorem attemptsTo_mono {f g : Nat → Nat} {ks : List Nat} (h : ∀ k ∈ ks, f k ≤ g k) :
    attemptsTo f i ks ≤ attemptsTo g i ks := by
  induction ks with
  | nil => exact Nat.le_refl _
  | cons k ks ih =>
      have hrest := ih fun j hj => h j (List.mem_cons_of_mem _ hj)
      simp only [attemptsTo]
      refine Nat.add_le_add (h k List.mem_cons_self) ?_
      split
      · exact Nat.le_refl _
      · exact hrest

/-- Those who leave the line bring the link nearer to the front. -/
theorem attemptsTo_le_of_sublist (f : Nat → Nat) {xs ys : List Nat} (h : xs.Sublist ys)
    (hapart : ys.Nodup) (hi : i ∈ xs) : attemptsTo f i xs ≤ attemptsTo f i ys := by
  induction h with
  | slnil => exact Nat.le_refl _
  | @cons xs ys k hsub ih =>
      obtain ⟨hk, hapart⟩ := List.nodup_cons.mp hapart
      have hne : k ≠ i := by
        rintro rfl
        exact hk (hsub.subset hi)
      rw [attemptsTo, if_neg hne]
      exact Nat.le_trans (ih hapart hi) (Nat.le_add_left _ _)
  | @cons_cons xs ys k _ ih =>
      obtain ⟨-, hapart⟩ := List.nodup_cons.mp hapart
      rw [attemptsTo, attemptsTo]
      refine Nat.add_le_add_left ?_ _
      by_cases hk : k = i
      · rw [if_pos hk]
        exact Nat.zero_le _
      · rw [if_neg hk, if_neg hk]
        exact ih hapart ((List.mem_cons.mp hi).resolve_left (Ne.symm hk))

/-- Those who come later do not. -/
theorem attemptsTo_append (f : Nat → Nat) {xs : List Nat} (hi : i ∈ xs) (ys : List Nat) :
    attemptsTo f i (xs ++ ys) = attemptsTo f i xs := by
  induction xs with
  | nil => cases hi
  | cons k xs ih =>
      rw [List.cons_append, attemptsTo, attemptsTo]
      by_cases hk : k = i
      · rw [if_pos hk, if_pos hk]
      · rw [if_neg hk, if_neg hk, ih ((List.mem_cons.mp hi).resolve_left (Ne.symm hk))]

/-- The attempts to accept a link that are still to come. -/
def attempts (net : Net) (k : Nat) : Nat :=
  (net.originOf k).failures.length + 1

/-- The attempts to accept a link that are still to come, and those of the links before it. -/
def ahead (net : Net) (i : Nat) : Nat :=
  attemptsTo (attempts net) i net.waiting

theorem attempts_congr {net net' : Net} {k : Nat} (h : net'.originOf k = net.originOf k) :
    attempts net' k = attempts net k := by
  rw [attempts, h, attempts]

theorem mem_ids_of_linkOf? (h : linkOf? l.server id = some i) : id ∈ l.server.sessions.ids := by
  obtain ⟨session, hs, -⟩ := Option.map_eq_some_iff.mp h
  exact Sessions.mem_ids_iff.mpr ⟨session, hs⟩

/-- A client that is still connected has kept its identifier. -/
theorem linkOf?_step (hl : Coherent l) (hid : linkOf? l.server id = some i)
    (huses : l.step.server.Uses i) : linkOf? l.step.server id = some i := by
  obtain ⟨session, hs, rfl⟩ := Option.map_eq_some_iff.mp hid
  obtain ⟨other, hother⟩ := huses.resolve_right (not_waiting_step hl (hl.not_waiting hid))
  have hseating := seating_step hl
  have hkept : l.step.server.sessions.entries.Sublist l.server.sessions.entries →
      linkOf? l.step.server id = some session.link := by
    intro hentries
    obtain ⟨session', hs', hlink⟩ := Option.map_eq_some_iff.mp hother
    have hapart : (l.server.sessions.entries.map fun e => e.2.link).Nodup :=
      (List.nodup_append.mp hl.links.apart).1
    have hsame := List.inj_on_of_nodup_map hapart (hentries.subset (Sessions.mem_of_get? hs'))
      (Sessions.mem_of_get? hs) hlink
    cases hsame
    exact hother
  generalize l.draws? = p at hseating
  cases hseating with
  | kept hentries _ _ _ _ => exact hkept hentries
  | retried _ _ hsessions _ => exact hkept (by rw [hsessions])
  | passed _ _ _ hsessions _ _ => exact hkept (by rw [hsessions])
  | seated new _ _ hsessions _ =>
      rw [linkOf?, hsessions, Sessions.get?_insert_of_some new hs]
      rfl

/-- A step that accepts a connection, or tries to, brings those that still wait nearer to the end of
their waiting. -/
theorem ahead_accepts (hl : Coherent l) (haccepts : l.accepts? = some k)
    (h : i ∈ l.step.server.net.waiting) :
    ahead l.step.server.net i < ahead l.server.net i := by
  have hapart : l.server.net.waiting.Nodup := (List.nodup_append.mp hl.links.apart).2.1
  -- The links behind the first one are as before.
  have hbehind : ∀ ks, l.server.net.waiting = k :: ks → ∀ j ∈ ks,
      attempts l.step.server.net j = attempts l.server.net j := by
    intro ks hwaiting j hj
    rw [hwaiting, List.nodup_cons] at hapart
    refine attempts_congr (Net.originOf_congr ?_)
    rw [(accept_of_accepts? haccepts).2.2]
    refine l.server.accepts.links_of_ne ?_
    rw [hwaiting]
    rintro ⟨⟩
    exact hapart.1 hj
  have hfirst : ∀ ks, l.server.net.waiting = k :: ks → l.step.server.net.waiting = ks →
      ahead l.step.server.net i < ahead l.server.net i := by
    intro ks hwaiting hnext
    have hrest := hbehind ks hwaiting
    rw [hwaiting, List.nodup_cons] at hapart
    have hne : k ≠ i := by
      rintro rfl
      exact hapart.1 (hnext ▸ h)
    rw [ahead, ahead, hnext, hwaiting, attemptsTo, if_neg hne]
    have hle := attemptsTo_mono (i := i) fun j hj => Nat.le_of_eq (hrest j hj)
    exact Nat.lt_of_le_of_lt hle (Nat.lt_add_of_pos_left (Nat.succ_pos _))
  cases received haccepts with
  | turnedAway ks report hwaiting _ _ hstep => exact hfirst ks hwaiting (by rw [hstep]; rfl)
  | seatedBriefly ks errno hwaiting _ _ hstep => exact hfirst ks hwaiting (by rw [hstep]; rfl)
  | seated ks hwaiting _ _ hstep => exact hfirst ks hwaiting (by rw [hstep]; rfl)
  | failed ks errno hwaiting _ _ hfails hstep =>
      have hrest := hbehind ks hwaiting
      have hnext : l.step.server.net.waiting = k :: ks := by rw [hstep]; exact hwaiting
      have hless : attempts l.step.server.net k < attempts l.server.net k := by
        obtain ⟨errnos, hfailures⟩ := List.head?_eq_some_iff.mp hfails
        have htail : (l.step.server.net.originOf k).failures = errnos := by
          rw [hstep]
          exact (Net.originOf_retried _ k).trans (congrArg List.tail hfailures)
        rw [attempts, attempts, htail, hfailures]
        exact Nat.lt_succ_self _
      rw [ahead, ahead, hnext, hwaiting, attemptsTo, attemptsTo]
      refine Nat.add_lt_add_of_lt_of_le hless ?_
      split
      · exact Nat.le_refl _
      · exact attemptsTo_mono fun j hj => Nat.le_of_eq (hrest j hj)

/-- No step puts others before them. -/
theorem ahead_step (hl : Coherent l) (h : i ∈ l.step.server.net.waiting) :
    ahead l.step.server.net i ≤ ahead l.server.net i := by
  cases haccepts : l.accepts? with
  | some k => exact Nat.le_of_lt (ahead_accepts hl haccepts h)
  | none =>
      have hapart : l.server.net.waiting.Nodup := (List.nodup_append.mp hl.links.apart).2.1
      have hseating := seating_step hl
      rw [draws?_of_none haccepts] at hseating
      cases hseating with
      | kept _ _ hwaiting hlinks _ =>
          refine Nat.le_trans (attemptsTo_mono fun j hj => ?_)
            (attemptsTo_le_of_sublist _ hwaiting hapart h)
          exact Nat.le_of_eq (attempts_congr (Net.originOf_congr (hlinks j hj)))
      | retried k hk _ _ => cases haccepts.symm.trans hk

end Seats

section Owing

/-- A server that owes the answer to a message gives it. -/
theorem Fair.pays (h : Fair l σ) (hsound : ∀ k, Sound (l.playFor σ k))
    (hspares : ∀ k, (σ k).Spares i) (howes : Owes (l.playFor σ n) i m) :
    ∃ k reply, σ k = .serve ∧ Answers (l.playFor σ k) i m reply ∧
      Kept (l.playFor σ (k + 1)) i reply := by
  by_contra hnever
  have hserve : ∀ k, σ k = .serve → Owes (l.playFor σ k) i m →
      Owes (l.playFor σ (k + 1)) i m ∧ ((l.playFor σ k).isStuck = true ∨
        (l.playFor σ (k + 1)).pending.length < (l.playFor σ k).pending.length) := by
    intro k hk howes
    rw [playFor_succ, hk]
    rcases howes.step (hsound k).coherent with hstill | ⟨reply, hanswers, hkept⟩
    · exact hstill
    · refine absurd ⟨k, reply, hk, hanswers, ?_⟩ hnever
      rw [playFor_succ, hk]
      exact hkept
  have hforever : ∀ k, n ≤ k → Owes (l.playFor σ k) i m := by
    intro k hk
    induction k, hk using Nat.le_induction with
    | base => exact howes
    | succ k hk ih =>
        by_cases hserves : σ k = .serve
        · exact (hserve k hserves ih).1
        · rw [playFor_succ]
          exact ih.act hserves (hspares k)
  refine not_forever (fun k => (l.playFor σ k).pending.length) (n := n) h.serves ?_ ?_
  · intro k hk
    by_cases hserves : σ k = .serve
    · rcases (hserve k hserves (hforever k hk)).2 with hstuck | hless
      · have hsame : l.playFor σ (k + 1) = l.playFor σ k := by
          rw [playFor_succ, hserves]
          exact step_of_stuck hstuck
        exact Nat.le_of_eq (by rw [hsame])
      · exact Nat.le_of_lt hless
    · have hpending : (l.playFor σ (k + 1)).pending = (l.playFor σ k).pending := by
        rw [playFor_succ, pending, (around_act _ hserves).phase, pending]
      exact Nat.le_of_eq (by rw [hpending])
  · rintro k hk ⟨hserves, hopen⟩
    refine (hserve k hserves (hforever k hk)).2.resolve_left ?_
    rw [isStuck_of_open hopen]
    rintro ⟨⟩

end Owing

section Asking

theorem Holds.congr {x y x' y' : List UInt8} (h : Holds l i x y) (h' : Holds l i x' y') :
    x = x' ∧ y = y' := by
  obtain ⟨origin, hlink⟩ := h.link
  obtain ⟨origin', hlink'⟩ := h'.link
  have hsame := Option.some.inj (hlink.symm.trans hlink')
  exact ⟨congrArg (fun a : Link => a.client.inbox) hsame,
    congrArg (fun a : Link => a.server.inbox) hsame⟩

theorem Owes.not_holds {x y : List UInt8} (h : Owes l i m) (hy : y ≠ []) : ¬ Holds l i x y := by
  intro hholds
  obtain ⟨origin, hlink⟩ := h.link
  obtain ⟨origin', hlink'⟩ := hholds.link
  have hsame := Option.some.inj (hlink.symm.trans hlink')
  exact hy (congrArg (fun a : Link => a.server.inbox) hsame).symm

/-- The message of a client that has been accepted does not wait for ever. -/
theorem Fair.reads (h : Fair l σ) (hsound : ∀ k, Sound (l.playFor σ k)) (hm : m.isCall = true)
    (hid : linkOf? (l.playFor σ n).server id = some i) :
    ¬ ∀ k, n ≤ k → Holds (l.playFor σ k) i [] m.encode := by
  intro hasks
  have hlink : ∀ k, n ≤ k → linkOf? (l.playFor σ k).server id = some i := by
    intro k hk
    induction k, hk using Nat.le_induction with
    | base => exact hid
    | succ k hk ih =>
        have huses := (hasks (k + 1) (Nat.le_succ_of_le hk)).uses
        rw [playFor_succ] at huses ⊢
        by_cases hserves : σ k = .serve
        · rw [hserves] at huses ⊢
          exact linkOf?_step (hsound k).coherent ih huses
        · rw [(around_act _ hserves).linkOf?]
          exact ih
  have htoken : Receiver.ofToken? (Receiver.client id).token = some (.client id) := by
    refine Receiver.ofToken?_token ?_
    rintro _ ⟨⟩
    exact (hsound n).known (hasks n (Nat.le_refl n)).ending id (mem_ids_of_linkOf? hid)
  have hawaits : ∀ k, n ≤ k → Awaits (l.playFor σ k) (Receiver.client id).token := by
    intro k hk
    have hholds := hasks k hk
    obtain ⟨_, hatt⟩ := (hsound k).attentive hholds.ending
    obtain ⟨origin, hcarries⟩ := hholds.link
    have hwatched := hatt.watches id (mem_ids_of_linkOf? (hlink k hk))
    have hready : isReady (l.playFor σ k).server (Receiver.client id).token = true := by
      simp only [isReady, htoken, hlink k hk, Option.any_some, Net.isReadable, hcarries]
      exact Link.isReadable_carrying (encode_ne_nil m) origin []
    exact ⟨hholds.ending, hholds.stop, hwatched, hready, hatt.lists _ hwatched hready⟩
  obtain ⟨k, hk, hserves, hjob, e, es, hphase, he⟩ := h.reaches hawaits
  have hholds := hasks k hk
  obtain ⟨origin, hcarries⟩ := hholds.link
  have hheard : (l.playFor σ k).hears? = some (id, Message.decode (m.encode.take frameSize)) := by
    simp only [hears?, hholds.ending, hjob, hholds.stop, hphase]
    exact hears?_of_carrying (he ▸ htoken) (hlink k hk) hcarries (encode_ne_nil m)
  have hnext := hasks (k + 1) (Nat.le_succ_of_le hk)
  rw [playFor_succ, hserves] at hnext
  rcases hholds.reads hm hheard (hlink k hk) with howes | ⟨reply, -, hreplied⟩
  · exact howes.not_holds (encode_ne_nil m) hnext
  · exact encode_ne_nil m (hnext.congr hreplied).2

/-- Nothing that is done around the server puts others before a link that waits. -/
theorem ahead_after {net : Net} (a : Action) (hplaced : ∀ k ∈ net.waiting, k < net.links.length)
    (h : i ∈ net.waiting) : ahead (net.after a) i ≤ ahead net i := by
  have hsame : ∀ k ∈ net.waiting, attempts (net.after a) k ≤ attempts net k := fun k hk =>
    Nat.le_of_eq (attempts_congr (originOf_after net a (hplaced k hk)))
  have hline : attemptsTo (attempts (net.after a)) i (net.after a).waiting =
      attemptsTo (attempts (net.after a)) i net.waiting := by
    cases hlink : a.link? with
    | some j => rw [congrArg Net.waiting (after_of_link? net hlink)]; rfl
    | none =>
        rcases after_of_link?_none net hlink with hidle | ⟨-, origin, -, hafter⟩
        · rw [congrArg Net.waiting hidle]
        · rw [congrArg Net.waiting hafter]
          exact attemptsTo_append _ h _
  rw [ahead, hline]
  exact attemptsTo_mono hsame

/-- The link of a client does not wait for ever to be accepted. -/
theorem Fair.accepts {x y : List UInt8} (h : Fair l σ) (hsound : ∀ k, Sound (l.playFor σ k))
    (hholds : ∀ k, Holds (l.playFor σ k) i x y) :
    ∃ k, i ∉ (l.playFor σ k).server.net.waiting := by
  by_contra hnever
  have hwaits : ∀ k, i ∈ (l.playFor σ k).server.net.waiting := by
    intro k
    by_contra hk
    exact hnever ⟨k, hk⟩
  have hawaits : ∀ k, Awaits (l.playFor σ k) Receiver.listener.token := by
    intro k
    obtain ⟨_, hatt⟩ := (hsound k).attentive (hholds k).ending
    have hready : isReady (l.playFor σ k).server Receiver.listener.token = true := by
      have hnonempty := List.isEmpty_eq_false_iff.mpr (List.ne_nil_of_mem (hwaits k))
      show (!(l.playFor σ k).server.net.waiting.isEmpty) = true
      rw [hnonempty]
      rfl
    exact ⟨(hholds k).ending, (hholds k).stop, hatt.listener, hready,
      hatt.lists _ hatt.listener hready⟩
  have hagain : ∀ n, ∃ k, n ≤ k ∧ σ k = .serve ∧
      Reaches (l.playFor σ k) Receiver.listener.token :=
    fun n => h.reaches fun k _ => hawaits k
  -- An attempt to accept leaves one attempt less ahead of the link, and nothing adds any.
  refine not_forever (fun k => ahead (l.playFor σ k).server.net i) (n := 0) hagain ?_ ?_
  · intro k _
    by_cases hserves : σ k = .serve
    · have hnext := hwaits (k + 1)
      rw [playFor_succ, hserves] at hnext ⊢
      exact ahead_step (hsound k).coherent hnext
    · rw [playFor_succ, net_act _ hserves]
      refine ahead_after _ (fun j hj => ?_) (hwaits k)
      exact (hsound k).coherent.links.placed j (List.mem_append_right _ hj)
  · rintro k _ ⟨hserves, hjob, e, es, hphase, he⟩
    have hnext := hwaits (k + 1)
    rw [playFor_succ, hserves] at hnext ⊢
    have htoken : Receiver.ofToken? e.token = some .listener := he ▸ rfl
    have haccepts := accepts?_of_token (hholds k).ending hjob (hholds k).stop hphase htoken
    obtain ⟨j, waiting, hwaiting⟩ := List.exists_cons_of_ne_nil (List.ne_nil_of_mem (hwaits k))
    rw [hwaiting] at haccepts
    exact ahead_accepts (hsound k).coherent haccepts hnext

end Asking

section Replying

/-- Nobody else ends the server or touches the link, no signal ends the server, and it accepts fewer
clients than there are tokens. -/
structure Undisturbed (l : Loop) (i : Nat) (σ : Nat → Action) : Prop where
  spares : ∀ n, (σ n).Spares i
  runs : ∀ n, σ n = .serve → ¬ Overtaken (l.playFor σ n) i
  bound : ∀ n, (l.playFor σ n).server.net.links.length ≤ 2 ^ 64 - 16

variable {chips : Chips} {period : Nat} {c : Client.Call}

/-- Such a call is on its way, or it has its reply. -/
theorem Undisturbed.stands (h : Undisturbed l i σ) (hl : Played chips period l)
    (hsent : Holds l i [] c.message.encode) (n : Nat) :
    Holds (l.playFor σ n) i [] c.message.encode ∨ Owes (l.playFor σ n) i c.message ∨
      ∃ xs ys reply, Action.first σ n = xs ++ .serve :: ys ∧
        Answers (l.play xs) i c.message reply ∧ Kept (l.playFor σ n) i reply := by
  have hspares : ∀ a ∈ Action.first σ n, a.Spares i := by
    intro a ha
    obtain ⟨k, rfl⟩ := Action.mem_first ha
    exact h.spares k
  cases course hl hsent hspares (h.bound n) with
  | asking hholds => exact .inl hholds
  | owing howes => exact .inr (.inl howes)
  | answered xs ys reply hfirst hanswers hkept =>
      exact .inr (.inr ⟨xs, ys, reply, hfirst, hanswers, hkept⟩)
  | overtaken xs ys hfirst hovertaken =>
      obtain ⟨k, hserves, rfl⟩ := Action.eq_of_first hfirst
      exact absurd hovertaken (h.runs k hserves)

theorem Fair.replied (h : Fair l σ) (hquiet : Undisturbed l i σ) (hl : Played chips period l)
    (hsent : Holds l i [] c.message.encode) :
    ∃ n xs ys reply, Action.first σ n = xs ++ .serve :: ys ∧
      Answers (l.play xs) i c.message reply ∧ Kept (l.playFor σ n) i reply := by
  by_contra hnever
  have hsound : ∀ n, Sound (l.playFor σ n) := fun n => (hl.play _).sound (hquiet.bound n)
  have hasks : ∀ n, Holds (l.playFor σ n) i [] c.message.encode := by
    intro n
    rcases hquiet.stands hl hsent n with hholds | howes | hreplied
    · exact hholds
    · obtain ⟨k, reply, hserves, hanswers, hkept⟩ := h.pays hsound hquiet.spares howes
      refine absurd ⟨k + 1, Action.first σ k, [], reply, ?_, hanswers, hkept⟩ hnever
      rw [Action.first_succ, hserves]
    · exact absurd ⟨n, hreplied⟩ hnever
  obtain ⟨k, hseat⟩ := h.accepts hsound hasks
  obtain ⟨id, hid⟩ := (hasks k).uses.resolve_right hseat
  exact h.reads hsound (isCall_message c) hid fun n _ => hasks n

end Replying

end Loop
end LineKeeper
