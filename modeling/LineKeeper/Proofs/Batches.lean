import LineKeeper.Proofs.Calls
import LineKeeper.Proofs.Countdown
import LineKeeper.Proofs.Registrations

/-!
# What a wait reports

What is ready stands in the list of a server once (`Played.nodup_ready`).  So a wait reports
all of it, as long as no more receivers are ready than fit into a batch
(`mem_report_of_few`).  At a server that nobody uses these are its own receivers at most, and
therefore a client that waits is reported by every wait (`Asks.reports_listener`).

Whatever is to be handled was reported by the last wait (`exists_reports`), and no turn begins
before it has been handled (`Reports.unused`).
-/

namespace LineKeeper

namespace Server

variable {s : Server}

section Standing

/-- What is ready at a server that nobody uses does not belong to a client. -/
theorem standing_of_isReady {token : UInt64} (h : s.Unused)
    (hready : Loop.isReady s token = true) : token ∈ Receiver.standing.map Receiver.token := by
  cases htoken : Receiver.ofToken? token with
  | none =>
      simp only [Loop.isReady, htoken] at hready
      cases hready
  | some r =>
      refine List.mem_map.mpr ⟨r, ?_, Receiver.token_of_ofToken? htoken⟩
      cases r with
      | client id => exact absurd htoken (not_client_of_isReady (unused_iff.mp h) hready)
      | listener => exact List.mem_cons_self
      | signals => exact List.mem_cons_of_mem _ List.mem_cons_self
      | idleTimer => exact List.mem_cons_of_mem _ (List.mem_cons_of_mem _ List.mem_cons_self)

end Standing

end Server

namespace Loop

open Server

variable {l : Loop} {chips : Chips} {period n : Nat} {t : UInt64} {a : Action}
  {as bs cs : List Action}

section Listing

/-- A server with fewer connections than there are tokens watches what it should. -/
theorem Played.registered (h : Played chips period l)
    (hbound : l.server.net.links.length < 2 ^ 64 - 16) :
    Registered l.server ∧ l.server.sessions.ids.Nodup := by
  obtain ⟨as, rfl⟩ := h
  rw [← Chronicle.loop_chronicle] at hbound ⊢
  have hsmall := Nat.le_trans (Nat.le_of_lt hbound) (Nat.sub_le (2 ^ 64) 16)
  have hcount := (Chronicle.tabled_chronicle hsmall).count
  rw [Chronicle.links, List.length_append, List.length_map] at hcount
  have hseats := Nat.lt_of_le_of_lt (Nat.le_trans (Nat.le_add_right _ _) hcount) hbound
  have henrolled := Chronicle.enrolled_chronicle hseats
  exact ⟨henrolled.registered, henrolled.nodup (by omega)⟩

theorem Played.nodup_watched (h : Played chips period l)
    (hbound : l.server.net.links.length < 2 ^ 64 - 16) : l.server.watched.Nodup := by
  obtain ⟨hregistered, hids⟩ := h.registered hbound
  exact hregistered.nodup_watched hids

theorem nodup_refresh (hready : l.ready.Nodup) (hwatched : l.server.watched.Nodup) :
    l.refresh.ready.Nodup := by
  unfold refresh
  dsimp only
  refine List.Nodup.append (hready.filter _) (hwatched.filter _) fun t hkept hfresh => ?_
  have hnot := (List.mem_filter.mp hfresh).2
  rw [List.contains_eq_mem, decide_eq_true hkept, Bool.not_true, Bool.and_false] at hnot
  cases hnot

/-- A wait only puts what is listed in another order, and forgets what is not ready. -/
theorem subperm_report (s : Server) (n : Nat) (ts : List UInt64) :
    ((report s n ts).2 ++ (report s n ts).1).Subperm ts := by
  induction ts generalizing n with
  | nil => cases n <;> exact List.Subperm.refl _
  | cons t ts ih =>
      cases n with
      | zero => exact (List.append_nil (t :: ts)).symm ▸ List.Subperm.refl _
      | succ n =>
          simp only [report]
          split
          · exact List.perm_middle.subperm.trans ((List.subperm_cons t).mpr (ih n))
          · exact (ih (n + 1)).cons_right t

theorem nodup_ready_step (h : l.ready.Nodup) (hwatched : l.step.server.watched.Nodup) :
    l.step.ready.Nodup := by
  obtain ⟨hm, -⟩ | ⟨job, -, -, -, hm⟩ | ⟨-, -, -, hm⟩ | ⟨e, es, -, -, -, -, hm⟩ |
      ⟨e, es, -, -, -, -, -, hm⟩ | ⟨why, -, -, -, -, hm⟩ | ⟨s, -, -, -, -, -, hm⟩ |
      ⟨e, -, -, -, -, -, hm⟩ := l.steps
  · rwa [hm]
  · rw [hm] at hwatched ⊢
    exact nodup_refresh h hwatched
  · rw [hm]
    obtain ⟨ts, hperm, hsub⟩ := subperm_report l.server maxEvents l.ready
    exact hperm.nodup_iff.mp (h.sublist hsub)
  · rwa [hm]
  · rw [hm]
    exact nodup_refresh h hwatched
  · rw [hm]
    exact List.nodup_nil
  · rw [hm] at hwatched ⊢
    exact nodup_refresh h hwatched
  · rw [hm]
    exact List.nodup_nil

theorem nodup_ready_act (ha : a ≠ .serve) (h : l.ready.Nodup) (hwatched : l.server.watched.Nodup) :
    (l.act a).ready.Nodup := by
  cases a with
  | serve => exact absurd rfl ha
  | replug chips => exact h
  | gate closed => exact h
  | reorder ready =>
      simp only [act]
      split
      · next hperm => exact (List.isPerm_iff.mp hperm).nodup_iff.mpr h
      · exact h
  | _ => exact nodup_refresh h hwatched

/-- What is listed is listed once. -/
theorem Played.nodup_ready (h : Played chips period l)
    (hbound : l.server.net.links.length < 2 ^ 64 - 16) : l.ready.Nodup := by
  revert hbound
  refine h.induction (P := fun l => l.server.net.links.length < 2 ^ 64 - 16 → l.ready.Nodup)
    (fun _ => List.nodup_nil) ?_
  intro l a hl ih hbound
  have hbefore := Nat.lt_of_le_of_lt (length_le_act hl.coherent a) hbound
  by_cases ha : a = .serve
  · subst ha
    exact nodup_ready_step (ih hbefore) (hl.step.nodup_watched hbound)
  · exact nodup_ready_act ha (ih hbefore) (hl.nodup_watched hbefore)

end Listing

section Reporting

/-- If no more receivers are ready than a wait can report, it reports all of them. -/
theorem mem_report_of_few {s : Server} {ts : List UInt64} (h : t ∈ ts) (hready : isReady s t = true)
    (hfew : (ts.filter (isReady s)).length ≤ n) : t ∈ (report s n ts).1 := by
  induction ts generalizing n with
  | nil => cases h
  | cons u ts ih =>
      by_cases hu : isReady s u = true
      · rw [List.filter_cons_of_pos hu, List.length_cons] at hfew
        obtain ⟨n, rfl⟩ := Nat.exists_eq_succ_of_ne_zero (Nat.ne_zero_of_lt hfew)
        simp only [report, hu, if_true]
        rcases List.mem_cons.mp h with rfl | hlater
        · exact List.mem_cons_self
        · exact List.mem_cons_of_mem _ (ih hlater (Nat.le_of_succ_le_succ hfew))
      · rw [List.filter_cons_of_neg hu] at hfew
        have hlater : t ∈ ts := (List.mem_cons.mp h).resolve_left fun htu => hu (htu ▸ hready)
        cases n with
        | zero =>
            have hnone := List.filter_eq_nil_iff.mp
              (List.eq_nil_of_length_eq_zero (Nat.le_zero.mp hfew)) t hlater
            exact absurd hready hnone
        | succ n =>
            simp only [report, hu]
            exact ih hlater hfew

/-- A client that waits is reported at once by a wait of a server that nobody uses. -/
theorem Asks.reports_listener (h : l.Asks) (hl : Played chips period l)
    (hbound : l.server.net.links.length < 2 ^ 64 - 16) (hunused : l.server.Unused)
    (hwaits : l.server.net.waiting ≠ []) :
    ∃ e ∈ l.step.pending, Receiver.ofToken? e.token = some .listener := by
  obtain ⟨_, hattentive⟩ := (hl.sound (Nat.le_of_lt hbound)).attentive h.ending
  have hready : isReady l.server Receiver.listener.token = true := by
    show (!l.server.net.waiting.isEmpty) = true
    rw [List.isEmpty_eq_false_iff.mpr hwaits]
    rfl
  have hfew : (l.ready.filter (isReady l.server)).length ≤ maxEvents := by
    have hsub : l.ready.filter (isReady l.server) ⊆ Receiver.standing.map Receiver.token :=
      fun t ht => standing_of_isReady hunused (List.mem_filter.mp ht).2
    have hlength := (((hl.nodup_ready hbound).filter _).subperm hsub).length_le
    exact Nat.le_trans hlength (by decide)
  have hfound := mem_report_of_few (hattentive.lists _ hattentive.listener hready) hready hfew
  rw [h.step_eq, pending_wait]
  exact ⟨_, List.mem_map_of_mem hfound, rfl⟩

/-- The wait that follows `bs` has reported what is still handled after `cs`. -/
structure Reports (l : Loop) (bs cs : List Action) : Prop where
  asks : (l.play bs).Asks
  left : ∀ ds, ds <+: cs → (l.play (bs ++ .serve :: ds)).pending ≠ []

theorem Reports.concat (h : Reports l bs cs)
    (hleft : (l.play (bs ++ .serve :: (cs ++ [a]))).pending ≠ []) : Reports l bs (cs ++ [a]) where
  asks := h.asks
  left := by
    intro ds hds
    rcases List.prefix_concat_iff.mp hds with rfl | hds
    · exact hleft
    · exact h.left ds hds

/-- Whatever is to be handled was reported by a wait, and has not been used up since. -/
theorem exists_reports (h : ((start chips period).play as).pending ≠ []) :
    ∃ bs cs, as = bs ++ .serve :: cs ∧ Reports (start chips period) bs cs := by
  induction as using List.reverseRecOn with
  | nil => exact absurd rfl h
  | append_singleton as a ih =>
      have hearlier : ((start chips period).play as).pending ≠ [] →
          ∃ bs cs, as ++ [a] = bs ++ .serve :: cs ∧ Reports (start chips period) bs cs := by
        intro hbefore
        obtain ⟨bs, cs, rfl, hreports⟩ := ih hbefore
        refine ⟨bs, cs ++ [a], List.append_assoc bs (.serve :: cs) [a], hreports.concat ?_⟩
        rwa [List.append_assoc] at h
      by_cases ha : a = .serve
      · subst ha
        rcases pending_step ((start chips period).play as) with hsub | hasks
        · refine hearlier fun hnone => h ?_
          rw [play_concat]
          exact List.subset_nil.mp (hnone ▸ hsub)
        · refine ⟨as, [], rfl, hasks, fun ds hds => ?_⟩
          rw [List.prefix_nil.mp hds]
          exact h
      · refine hearlier ?_
        rw [play_concat, pending, (around_act _ ha).phase] at h
        exact h

/-- Nobody has used the server since before the batch was reported, if nobody has used it since a
turn:  no turn begins while a batch is handled. -/
theorem Reports.unused (h : Reports l bs cs) {t P : Nat}
    (hsince : UnusedSince P l (bs ++ .serve :: (cs ++ [.serve])) t) :
    (l.play bs).server.Unused ∧
      ∀ ds, ds <+: cs ++ [.serve] → (l.play (bs ++ .serve :: ds)).server.Unused := by
  obtain ⟨xs, ys, hsplit, -, hrestarts, hunused⟩ := hsince
  have hturns := hrestarts.turns.phase
  rcases List.append_eq_append_iff.mp hsplit with ⟨zs, rfl, hzs⟩ | ⟨zs, rfl, hzs⟩
  · exfalso
    cases zs with
    | nil =>
        rw [List.append_nil, h.asks.phase] at hturns
        cases hturns
    | cons z zs =>
        obtain ⟨rfl, hcs⟩ := List.cons.inj hzs
        refine h.left zs ?_ (by rw [pending, hturns])
        refine (List.prefix_concat_iff.mp ⟨_, hcs.symm⟩).resolve_left ?_
        rintro rfl
        exact List.cons_ne_nil _ _ (List.self_eq_append_right.mp hcs)
  · cases zs with
    | nil =>
        rw [List.append_nil] at h
        have hasks := h.asks.phase
        rw [hturns] at hasks
        cases hasks
    | cons z zs =>
        obtain ⟨rfl, rfl⟩ := List.cons.inj hzs
        refine ⟨hunused zs (List.prefix_append _ _), fun ds hds => ?_⟩
        rw [List.append_assoc]
        refine hunused (zs ++ .serve :: ds) ?_
        exact (List.prefix_append_right_inj zs).mpr (List.cons_prefix_cons.mpr ⟨rfl, hds⟩)

end Reporting

end Loop

end LineKeeper
