import LineKeeper.Proofs.Chronicle
import LineKeeper.Proofs.Serving

/-!
# The dialogue with each client

**Invariants of a chronicle.**
* `Stands`: what passed with a client is the turns of its handled messages, in order, and
  then at most the one message that is read and not yet handled.  A client that is gone had
  the end of its session as its last turn.
* `Reads`: what was read from a client is the front of what it sent, cut into the reads.
* `Parted`: a STOP that was handled is the end of the run.

**Result.** `converses_chronicle`.
-/

namespace LineKeeper

/-- The message that was written, if the turn was a writing. -/
def Turn.said? : Turn → Option Message
  | .said m => some m
  | _ => none

/-- The reply to a message that was handled, if it was written. -/
def Handled.reply? (h : Handled) : Option Message :=
  h.outcome.said?

/-- What the server has written to a client. -/
def Server.writtenTo (s : Server) (client : ClientId) : List Message :=
  (s.talkWith client).filterMap Turn.said?

namespace Chronicle

open Server
open Loop (linkOf? Coherent Around Moves Joins)

variable {w : Chronicle} {a : Action} {as : List Action} {chips : Chips} {period : Nat}
  {client : ClientId} {k : Nat}

section Standing

/-- How a client stands with the server. -/
inductive Stands (w : Chronicle) (client : ClientId) : Prop
  | unknown (hseat : client ∉ w.clients) (hout : client ∉ w.loop.server.sessions.ids)
      (htalk : w.loop.server.talkWith client = []) (hhandled : w.handledOf client = [])
      (howed : w.loop.owedTo client = [])
  | present (hseat : client ∈ w.clients) (hin : client ∈ w.loop.server.sessions.ids)
      (htalk : w.loop.server.talkWith client =
        (w.handledOf client).flatMap Handled.turns ++ w.loop.owedTo client)
      (hopen : .closed ∉ w.loop.server.talkWith client)
  | gone (hseat : client ∈ w.clients) (hout : client ∉ w.loop.server.sessions.ids)
      (before : List Turn) (hopen : .closed ∉ before)
      (htalk : w.loop.server.talkWith client = before ++ [.closed])
      (hturns : (w.handledOf client).flatMap Handled.turns = before ∨
        (w.handledOf client).flatMap Handled.turns = before ++ [.closed])
      (howed : w.loop.owedTo client = [])

theorem stands_start (chips : Chips) (period : Nat) (client : ClientId) :
    Stands (start chips period) client :=
  .unknown List.not_mem_nil List.not_mem_nil rfl rfl rfl

theorem closed_notMem_turns {h : Handled} (hsaid : h.outcome ≠ .closed) : .closed ∉ h.turns := by
  simp [Handled.turns, Ne.symm hsaid]

theorem notMem_of_talk {before owed talk : List Turn} (htalk : talk = before ++ owed)
    (hopen : .closed ∉ talk) : .closed ∉ before ∧ .closed ∉ owed := by
  rwa [htalk, List.mem_append, not_or] at hopen

/-- A client to which nothing happens stands as before. -/
theorem Stands.quiet {v : Chronicle} (h : Stands w client)
    (htalk : v.loop.server.talkWith client = w.loop.server.talkWith client)
    (hids : client ∈ v.loop.server.sessions.ids ↔ client ∈ w.loop.server.sessions.ids)
    (howed : v.loop.owedTo client = w.loop.owedTo client)
    (hhandled : v.handledOf client = w.handledOf client)
    (hkept : client ∈ w.clients ↔ client ∈ v.clients) : Stands v client := by
  cases h with
  | unknown hseat hout htalk' hhandled' howed' =>
      exact .unknown (hkept.not.mp hseat) (hids.not.mpr hout) (htalk.trans htalk')
        (hhandled.trans hhandled') (howed.trans howed')
  | present hseat hin htalk' hopen =>
      refine .present (hkept.mp hseat) (hids.mpr hin) ?_ (htalk.symm ▸ hopen)
      rw [htalk, htalk', hhandled, howed]
  | gone hseat hout before hopen htalk' hturns howed' =>
      exact .gone (hkept.mp hseat) (hids.not.mpr hout) before hopen (htalk.trans htalk')
        (hhandled.symm ▸ hturns) (howed.trans howed')

/-- What passed with a client that has a session is what was handled, and what is owed. -/
theorem Stands.of_mem (h : Stands w client) (hin : client ∈ w.loop.server.sessions.ids) :
    client ∈ w.clients ∧
      w.loop.server.talkWith client =
        (w.handledOf client).flatMap Handled.turns ++ w.loop.owedTo client ∧
      .closed ∉ w.loop.server.talkWith client := by
  cases h with
  | unknown _ hout _ _ _ => exact absurd hin hout
  | present hseat _ htalk hopen => exact ⟨hseat, htalk, hopen⟩
  | gone _ hout _ _ _ _ _ => exact absurd hin hout

/-- A client whose message is handled stays, or is gone if there was no answer for it. -/
theorem Stands.answered {v : Chronicle} {handled : Handled} (h : Stands w client)
    (hin : client ∈ w.loop.server.sessions.ids)
    (hids : client ∈ v.loop.server.sessions.ids ↔ handled.outcome ≠ .closed)
    (htalk : ∃ before, handled.turns = w.loop.owedTo client ++ before ∧
      v.loop.server.talkWith client = w.loop.server.talkWith client ++ before)
    (howed : v.loop.owedTo client = [])
    (hhandled : v.handledOf client = w.handledOf client ++ [handled])
    (hkept : client ∈ w.clients ↔ client ∈ v.clients) : Stands v client := by
  obtain ⟨before, hturns, htalk⟩ := htalk
  obtain ⟨hseat, htalk', hopen⟩ := h.of_mem hin
  obtain ⟨hbefore, -⟩ := notMem_of_talk htalk' hopen
  have hall : v.loop.server.talkWith client =
      (w.handledOf client).flatMap Handled.turns ++ handled.turns := by
    rw [htalk, htalk', List.append_assoc, ← hturns]
  have hturns' : (v.handledOf client).flatMap Handled.turns =
      (w.handledOf client).flatMap Handled.turns ++ handled.turns := by
    rw [hhandled, List.flatMap_append, List.flatMap_singleton]
  by_cases hclosed : handled.outcome = .closed
  · have hout : client ∉ v.loop.server.sessions.ids := by
      rw [hids]
      exact fun h => h hclosed
    have hlast : (w.handledOf client).flatMap Handled.turns ++ handled.turns =
        ((w.handledOf client).flatMap Handled.turns ++ [.heard handled.read]) ++ [.closed] := by
      rw [Handled.turns, hclosed, List.append_assoc]
      rfl
    refine .gone (hkept.mp hseat) hout _ ?_ (hall.trans hlast) (.inr (hturns'.trans hlast)) howed
    rw [List.mem_append, List.mem_singleton, not_or]
    exact ⟨hbefore, Turn.noConfusion⟩
  · refine .present (hkept.mp hseat) (hids.mpr hclosed) ?_ ?_
    · rw [hall, hturns', howed, List.append_nil]
    · rw [hall, List.mem_append, not_or]
      exact ⟨hbefore, closed_notMem_turns hclosed⟩

/-- What a step means to a client that gets no identifier in it keeps how it stands. -/
theorem Stands.moves {v : Chronicle} {news : List Handled} (h : Stands w client)
    (hm : Moves client w.loop v.loop news)
    (hhandled : v.handledOf client = w.handledOf client ++ news)
    (hkept : client ∈ w.clients ↔ client ∈ v.clients) : Stands v client := by
  cases hm with
  | quiet htalk hids howed =>
      rw [List.append_nil] at hhandled
      exact h.quiet htalk hids howed hhandled hkept
  | asked msg hin hin' htalk howed howed' =>
      obtain ⟨hseat, htalk', hopen⟩ := h.of_mem hin
      rw [List.append_nil] at hhandled
      refine .present (hkept.mp hseat) hin' ?_ ?_
      · rw [htalk, htalk', hhandled, howed, howed', List.append_nil]
      · rw [htalk, List.mem_append, List.mem_singleton, not_or]
        exact ⟨hopen, Turn.noConfusion⟩
  | answered handled hin hids htalk howed' =>
      exact h.answered hin hids htalk howed' hhandled hkept
  | parted handled hin hgone hsaid hread htalk howed' =>
      obtain ⟨hseat, htalk', hopen⟩ := h.of_mem hin
      obtain ⟨hbefore, -⟩ := notMem_of_talk htalk' hopen
      refine .gone (hkept.mp hseat) hgone
        ((w.handledOf client).flatMap Handled.turns ++ handled.turns) ?_ ?_ (.inl ?_) howed'
      · rw [List.mem_append, not_or]
        exact ⟨hbefore, closed_notMem_turns hsaid⟩
      · rw [htalk, htalk', hread, List.append_assoc, List.append_assoc]
        rfl
      · rw [hhandled, List.flatMap_append, List.flatMap_singleton]
  | closed hin hgone htalk howed howed' =>
      obtain ⟨hseat, htalk', hopen⟩ := h.of_mem hin
      rw [List.append_nil] at hhandled
      refine .gone (hkept.mp hseat) hgone _ hopen htalk (.inl ?_) howed'
      rw [htalk', hhandled, howed, List.append_nil]

/-- Who gets an identifier has a session from then on, or had one that ended at once. -/
theorem Stands.joins {v : Chronicle} (h : Stands w client) (hj : Joins client w.loop v.loop)
    (hnew : client ∉ w.clients) (hseat : client ∈ v.clients)
    (hhandled : v.handledOf client = w.handledOf client) : Stands v client := by
  cases h with
  | unknown _ hout htalk' hhandled' _ =>
      rw [hhandled'] at hhandled
      cases hj with
      | stays hin htalk howed =>
          refine .present hseat hin ?_ ?_
          · rw [htalk, htalk', hhandled, howed]
            rfl
          · rw [htalk, htalk']
            exact List.not_mem_nil
      | passes hids htalk howed =>
          refine .gone hseat (hids.not.mpr hout) [] List.not_mem_nil ?_ (.inl ?_) howed
          · rw [htalk, htalk']
          · rw [hhandled]
            rfl
  | present hseat' _ _ _ => exact absurd hseat' hnew
  | gone hseat' _ _ _ _ _ _ => exact absurd hseat' hnew

/-- Who gets an identifier never got one before, and was waiting in line. -/
theorem Tabled.draws (h : Tabled w) (hbound : w.loop.server.net.links.length ≤ 2 ^ 64)
    (hdraws : w.loop.draws? = some (client, k)) :
    client ∉ w.clients ∧ k ∈ w.loop.server.net.waiting := by
  obtain ⟨haccepts, rfl, -⟩ := Loop.eq_of_draws? hdraws
  obtain ⟨hend, -, -, -, -, ks, -, -, hwaiting⟩ := Loop.eq_of_accepts? haccepts
  exact ⟨(h.fresh hend hwaiting hbound).2, hwaiting ▸ List.mem_cons_self⟩

theorem mem_clients_serve : client ∈ (w.note .serve).clients ↔
    client ∈ w.clients ∨ ∃ k, w.loop.draws? = some (client, k) := by
  rw [clients, seats_note_serve, List.map_append, List.mem_append]
  refine or_congr Iff.rfl ?_
  cases w.loop.draws? with
  | none => simp
  | some p => simp [Prod.ext_iff, eq_comm]

theorem stands_chronicle (client : ClientId)
    (hbound : (chronicle chips period as).loop.server.net.links.length ≤ 2 ^ 64) :
    Stands (chronicle chips period as) client := by
  induction as using List.reverseRecOn with
  | nil => exact stands_start chips period client
  | append_singleton as a ih =>
      have hl := coherent_chronicle chips period as
      rw [chronicle_concat] at hbound ⊢
      have hbefore := Nat.le_trans (Loop.length_le_act hl a) hbound
      have htabled := tabled_chronicle hbefore
      have hstands := ih hbefore
      generalize chronicle chips period as = w at hl hbefore htabled hstands ⊢
      by_cases ha : a = .serve
      · subst ha
        have hhandled := w.handledOf_note_serve client
        by_cases hdraws : ∃ k, w.loop.draws? = some (client, k)
        · have hseat := mem_clients_serve.mpr (.inr hdraws)
          obtain ⟨k, hdraws⟩ := hdraws
          obtain ⟨hjoins, hnothing⟩ := Loop.joins_step hdraws
          rw [hnothing, List.append_nil] at hhandled
          exact hstands.joins hjoins (htabled.draws hbefore hdraws).1 hseat hhandled
        · refine hstands.moves (Loop.moves_step hl (not_exists.mp hdraws)) hhandled ?_
          rw [mem_clients_serve, or_iff_left hdraws]
      · have haround : Around w.loop (w.note a).loop := Loop.around_act w.loop ha
        have hclients : (w.note a).clients = w.clients := by
          rw [clients, seats_note_of_ne w ha, clients]
        have howed : (w.note a).loop.owedTo client = w.loop.owedTo client := by
          rw [Loop.owedTo, Loop.owed?_congr haround.ending haround.job haround.stop, Loop.owedTo]
        refine hstands.quiet ?_ (by rw [haround.sessions]) howed (handledOf_note_of_ne w ha)
          (by rw [hclients])
        rw [talkWith, haround.talk, talkWith]

end Standing

section Reading

/-- What was read from a client, cut into the reads. -/
structure Reads (w : Chronicle) (client : ClientId) (k : Nat) (reads : List (List UInt8)) :
    Prop where
  frames : ∀ bytes ∈ reads, bytes ≠ [] ∧ bytes.length ≤ frameSize
  heard : w.loop.server.heardFrom client = reads.map Message.decode
  front : reads.flatten <+: w.sent k
  rest : client ∈ w.loop.server.sessions.ids →
    reads.flatten ++ w.loop.server.net.unread k = w.sent k

theorem Stands.talkWith_of_new (h : Stands w client) (hseat : client ∉ w.clients) :
    w.loop.server.talkWith client = [] := by
  cases h with
  | unknown _ _ htalk _ _ => exact htalk
  | present hmem _ _ _ => exact absurd hmem hseat
  | gone hmem _ _ _ _ _ _ => exact absurd hmem hseat

/-- A client that has no session is told nothing, and tells nothing. -/
theorem talkWith_of_out {l m : Loop} {news : List Handled} (h : Moves client l m news)
    (hout : client ∉ l.server.sessions.ids) :
    m.server.talkWith client = l.server.talkWith client := by
  cases h with
  | quiet htalk _ _ => exact htalk
  | asked _ hin _ _ _ _ => exact absurd hin hout
  | answered _ hin _ _ _ => exact absurd hin hout
  | parted _ hin _ _ _ _ _ => exact absurd hin hout
  | closed hin _ _ _ _ => exact absurd hin hout

/-- A client that has no session has none after a step in which it gets no identifier. -/
theorem out_of_out {l m : Loop} {news : List Handled} (h : Moves client l m news)
    (hout : client ∉ l.server.sessions.ids) : client ∉ m.server.sessions.ids := by
  cases h with
  | quiet _ hids _ => exact hids.not.mpr hout
  | asked _ hin _ _ _ _ => exact absurd hin hout
  | answered _ hin _ _ _ => exact absurd hin hout
  | parted _ hin _ _ _ _ _ => exact absurd hin hout
  | closed hin _ _ _ _ => exact absurd hin hout

theorem Reads.note_serve {reads : List (List UInt8)} (h : Reads w client k reads)
    (hl : Coherent w.loop) (htabled : Tabled w)
    (hbound : w.loop.server.net.links.length ≤ 2 ^ 64) (hseat : (client, k) ∈ w.seats) :
    ∃ reads', Reads (w.note .serve) client k reads' := by
  have hloop : (w.note .serve).loop = w.loop.step := rfl
  have hsent := congrFun w.sent_note_serve k
  have hmoves : Moves client w.loop w.loop.step (w.loop.handlesOf client) := by
    refine Loop.moves_step hl fun j hj => ?_
    exact (htabled.draws hbound hj).1 (List.mem_map_of_mem (f := Prod.fst) hseat)
  by_cases hin : client ∈ w.loop.server.sessions.ids
  · obtain ⟨session, hs⟩ := Sessions.mem_ids_iff.mp hin
    have hrest := h.rest hin
    obtain rfl := htabled.link_eq hs hseat
    cases Loop.takes_step hl hs with
    | read bytes hne hlength hheard hfront hrest' =>
        refine ⟨reads ++ [bytes], ?_, ?_, ?_, ?_⟩
        · intro other hother
          rcases List.mem_append.mp hother with hold | hlast
          · exact h.frames other hold
          · rw [List.mem_singleton.mp hlast]
            exact ⟨hne, hlength⟩
        · rw [hloop, hheard, h.heard, List.map_append]
          rfl
        · obtain ⟨later, hlater⟩ := hfront
          refine ⟨later, ?_⟩
          rw [hsent, List.flatten_append, List.flatten_singleton, List.append_assoc, hlater, hrest]
        · intro hstays
          rw [hsent, hloop, List.flatten_append, List.flatten_singleton, List.append_assoc,
            hrest' hstays, hrest]
    | nothing hheard hrest' =>
        refine ⟨reads, h.frames, ?_, ?_, ?_⟩
        · rw [hloop, hheard, h.heard]
        · rw [hsent]
          exact h.front
        · intro hstays
          rw [hsent, hloop, hrest' hstays, hrest]
  · refine ⟨reads, h.frames, ?_, ?_, ?_⟩
    · rw [hloop, heardFrom_congr (talkWith_of_out hmoves hin), h.heard]
    · rw [hsent]
      exact h.front
    · intro hstays
      exact absurd hstays (out_of_out hmoves hin)

theorem Reads.note_of_ne {reads : List (List UInt8)} (h : Reads w client k reads)
    (ha : a ≠ .serve) : Reads (w.note a) client k reads := by
  have haround : Around w.loop (w.note a).loop := Loop.around_act w.loop ha
  have hnet : (w.note a).loop.server.net = w.loop.server.net.after a := Loop.net_act w.loop ha
  have hsent : (w.note a).sent k = w.sent k ++ w.loop.server.net.arriving a k := rfl
  refine ⟨h.frames, ?_, ?_, ?_⟩
  · rw [← h.heard]
    refine heardFrom_congr ?_
    rw [talkWith, haround.talk, talkWith]
  · rw [hsent]
    exact h.front.trans (List.prefix_append _ _)
  · rw [haround.sessions, hnet, Net.unread_after, hsent, ← List.append_assoc]
    intro hin
    rw [h.rest hin]

/-- A client that has just got its identifier has not been read from. -/
theorem reads_drawn (htabled : Tabled w) (hfed : Fed w) (hstands : Stands w client)
    (hbound : w.loop.server.net.links.length ≤ 2 ^ 64)
    (hdraws : w.loop.draws? = some (client, k)) : Reads (w.note .serve) client k [] := by
  obtain ⟨hnew, hwaits⟩ := htabled.draws hbound hdraws
  have hloop : (w.note .serve).loop = w.loop.step := rfl
  refine ⟨by rintro bytes ⟨⟩, ?_, List.nil_prefix, ?_⟩
  · rw [hloop, heardFrom]
    cases (Loop.joins_step hdraws).1 with
    | stays _ htalk _ =>
        rw [htalk, hstands.talkWith_of_new hnew]
        rfl
    | passes _ htalk _ =>
        rw [htalk, hstands.talkWith_of_new hnew]
        rfl
  · rw [hloop, sent_note_serve, ← hfed.waiting k hwaits]
    intro hin
    obtain ⟨haccepts, rfl, -⟩ := Loop.eq_of_draws? hdraws
    cases Loop.received haccepts with
    | failed _ _ _ hnone _ _ _ => cases hnone.symm.trans hdraws
    | turnedAway _ _ _ hnone _ _ => cases hnone.symm.trans hdraws
    | seatedBriefly ks errno _ _ _ hserver =>
        rw [hserver, ids_seatBriefly] at hin
        exact absurd (htabled.mem_clients hin) hnew
    | seated ks _ _ _ hserver => exact Net.unread_congr (by rw [hserver]; rfl)

theorem reads_chronicle
    (hbound : (chronicle chips period as).loop.server.net.links.length ≤ 2 ^ 64)
    (hseat : (client, k) ∈ (chronicle chips period as).seats) :
    ∃ reads, Reads (chronicle chips period as) client k reads := by
  induction as using List.reverseRecOn with
  | nil => cases hseat
  | append_singleton as a ih =>
      have hl := coherent_chronicle chips period as
      have hfed := fed_chronicle chips period as
      rw [chronicle_concat] at hbound hseat ⊢
      have hbefore := Nat.le_trans (Loop.length_le_act hl a) hbound
      have htabled := tabled_chronicle hbefore
      have hstands := stands_chronicle client hbefore
      have ih := ih hbefore
      generalize chronicle chips period as = w at *
      by_cases ha : a = .serve
      · subst ha
        rw [seats_note_serve, List.mem_append] at hseat
        rcases hseat with hold | hnew
        · obtain ⟨reads, hreads⟩ := ih hold
          exact hreads.note_serve hl htabled hbefore hold
        · exact ⟨[], reads_drawn htabled hfed hstands hbefore (Option.mem_toList.mp hnew)⟩
      · rw [seats_note_of_ne w ha] at hseat
        obtain ⟨reads, hreads⟩ := ih hseat
        exact ⟨reads, hreads.note_of_ne ha⟩

end Reading

section Parting

/-- A message that was handled ended the run, and its sender was told last. -/
structure Parted (w : Chronicle) (h : Handled) : Prop where
  last : ∃ earlier, w.handled = earlier ++ [h]
  ending : w.loop.ending = some (.stopped .stopRequested)
  words : ∃ before, w.loop.server.talk = before ++
    (if h.server.writable h.client then [.said .ok, .closed] else [.closed]).map
      (Prod.mk h.client)

theorem parted_step {l : Loop} {h : Handled} (hl : Coherent l) (hhandles : l.handles? = some h)
    (hread : h.read = .ok .stop) :
    l.ending = none ∧ l.step.ending = some (.stopped .stopRequested) ∧
      ∃ before, l.step.server.talk = before ++
        (if h.server.writable h.client then [.said .ok, .closed] else [.closed]).map
          (Prod.mk h.client) := by
  cases Loop.handles_of_handles? hhandles with
  | finishes job _ _ _ => cases hread
  | parts id hend hjob hphase hstop =>
      have hshut := shutsDown_drain (.requested id) hl.links.apart
        fun other => hl.stopper _ other hstop hend
      rw [Loop.step_drains hend hjob hphase hstop]
      exact ⟨hend, rfl, talk_drain hshut rfl⟩
  | reads id r _ hnow =>
      cases hread
      cases hnow

theorem parted_chronicle (chips : Chips) (period : Nat) (as : List Action) :
    ∀ h ∈ (chronicle chips period as).handled, h.read = .ok .stop →
      Parted (chronicle chips period as) h := by
  induction as using List.reverseRecOn with
  | nil => rintro h ⟨⟩
  | append_singleton as a ih =>
      have hl := coherent_chronicle chips period as
      rw [chronicle_concat]
      generalize chronicle chips period as = w at hl ih ⊢
      by_cases ha : a = .serve
      · subst ha
        have hloop : (w.note .serve).loop = w.loop.step := rfl
        have hhandled : (w.note .serve).handled = w.handled ++ w.loop.handles?.toList := rfl
        intro h hmem hread
        rw [hhandled, List.mem_append] at hmem
        rcases hmem with hold | hnew
        · -- The run had ended before.
          have hparted := ih h hold hread
          have hended : w.loop.ending.isSome = true := by rw [hparted.ending]; rfl
          have hnothing := Loop.handles?_of_stayed (.inl hended)
          rw [hnothing, Option.toList_none, List.append_nil] at hhandled
          constructor
          · rw [hhandled]
            exact hparted.last
          · rw [hloop, Loop.step_of_ending hended]
            exact hparted.ending
          · rw [hloop, Loop.step_of_ending hended]
            exact hparted.words
        · obtain ⟨-, hending, hwords⟩ := parted_step hl (Option.mem_toList.mp hnew) hread
          refine ⟨⟨w.handled, ?_⟩, hending, hwords⟩
          rw [hhandled, Option.mem_toList.mp hnew, Option.toList_some]
      · have haround : Around w.loop (w.note a).loop := Loop.around_act w.loop ha
        rw [handled_note_of_ne w ha]
        intro h hmem hread
        have hparted := ih h hmem hread
        refine ⟨?_, haround.ending.trans hparted.ending, ?_⟩
        · rw [handled_note_of_ne w ha]
          exact hparted.last
        · rw [haround.talk]
          exact hparted.words

end Parting

section Conversing

/-- Which replies a message can get. -/
inductive Answer : Message → Message → Prop
  | ping : Answer .ping .ok
  | stop : Answer .stop .ok
  | granted (spec : LineSpec) (id : RequestId) : Answer (.request spec) (.reqOk id)
  | refused (spec : LineSpec) (e : Errno) : Answer (.request spec) (.error e)
  | released (id : RequestId) : Answer (.release id) .ok
  | unknown (id : RequestId) : Answer (.release id) (.error Errno.noEntry)

theorem answer_of_respond {s : Server} {m reply : Message} (h : s.respond m = some reply) :
    Answer m reply := by
  cases m with
  | ping =>
      cases h
      exact .ping
  | stop =>
      cases h
      exact .stop
  | request spec =>
      simp only [respond] at h
      split at h
      · cases h
        exact .granted spec _
      · cases h
        exact .refused spec _
  | release id =>
      simp only [respond] at h
      split at h
      · cases h
        exact .released id
      · cases h
        exact .unknown id
  | ok => cases h
  | error n => cases h
  | reqOk id => cases h

/-- A message is answered, or it ends the session. -/
theorem outcome_cases (h : Handled) :
    (∃ m reply, h.read = .ok m ∧ h.server.respond m = some reply ∧ h.outcome = .said reply) ∨
      h.outcome = .closed ∧ (Forbidden h.read ∨ h.server.writable h.client = false) := by
  cases hread : h.read with
  | error e =>
      have hforbidden : Forbidden h.read := by
        rw [hread]
        rintro m ⟨⟩
      exact .inr ⟨Loop.outcome_of_forbidden hforbidden, .inl (hread ▸ hforbidden)⟩
  | ok m =>
      cases hrespond : h.server.respond m with
      | none =>
          have hforbidden : Forbidden h.read := by
            rw [hread]
            rintro _ ⟨⟩
            rw [← Bool.not_eq_true, ← isSome_respond h.server, hrespond]
            exact Bool.false_ne_true
          exact .inr ⟨Loop.outcome_of_forbidden hforbidden, .inl (hread ▸ hforbidden)⟩
      | some reply =>
          have houtcome := Loop.outcome_of_respond hread hrespond
          cases hw : h.server.writable h.client with
          | true =>
              rw [turnFor, hw, if_pos rfl] at houtcome
              exact .inl ⟨m, reply, rfl, hrespond, houtcome⟩
          | false =>
              rw [turnFor, hw, if_neg Bool.false_ne_true] at houtcome
              exact .inr ⟨houtcome, .inr rfl⟩

theorem heard?_outcome (h : Handled) : h.outcome.heard? = none := by
  rcases outcome_cases h with ⟨m, reply, -, -, houtcome⟩ | ⟨houtcome, -⟩ <;> rw [houtcome] <;> rfl

/-- What was heard in the turns of handled messages is the messages. -/
theorem heard_turns (hs : List Handled) :
    (hs.flatMap Handled.turns).filterMap Turn.heard? = hs.map Handled.read := by
  induction hs with
  | nil => rfl
  | cons h hs ih =>
      have hone : h.turns.filterMap Turn.heard? = [h.read] := by
        show h.read :: [h.outcome].filterMap Turn.heard? = _
        rw [List.filterMap_cons_none (heard?_outcome h)]
        rfl
      rw [List.flatMap_cons, List.filterMap_append, ih, hone]
      rfl

/-- What was said in them is the replies. -/
theorem said_turns (hs : List Handled) :
    (hs.flatMap Handled.turns).filterMap Turn.said? = hs.filterMap Handled.reply? := by
  induction hs with
  | nil => rfl
  | cons h hs ih =>
      rw [List.flatMap_cons, List.filterMap_append, ih]
      show [h.outcome].filterMap Turn.said? ++ _ = _
      have hreply : h.reply? = h.outcome.said? := rfl
      cases hsaid : h.outcome.said? with
      | none =>
          rw [List.filterMap_cons_none hsaid, List.filterMap_cons_none (hreply.trans hsaid)]
          rfl
      | some reply =>
          rw [List.filterMap_cons_some hsaid, List.filterMap_cons_some (hreply.trans hsaid)]
          rfl

theorem said_owedTo (l : Loop) (client : ClientId) :
    (l.owedTo client).filterMap Turn.said? = [] := by
  unfold Loop.owedTo
  split
  · rfl
  · split <;> rfl

/-- The messages of a client, in the order in which it sent them, were all handled, but for one at
most. -/
theorem Stands.heard (h : Stands w client) :
    w.loop.server.heardFrom client = (w.handledOf client).map Handled.read ++
      (w.loop.owedTo client).filterMap Turn.heard? := by
  cases h with
  | unknown _ _ htalk hhandled howed =>
      rw [heardFrom, htalk, hhandled, howed]
      rfl
  | present _ _ htalk _ =>
      rw [heardFrom, htalk, List.filterMap_append, heard_turns]
  | gone _ _ before _ htalk hturns howed =>
      rw [heardFrom, htalk, howed, ← heard_turns]
      rcases hturns with hturns | hturns
      · rw [hturns, List.filterMap_append]
        rfl
      · rw [hturns]
        exact (List.append_nil _).symm

theorem Stands.written (h : Stands w client) :
    w.loop.server.writtenTo client = (w.handledOf client).filterMap Handled.reply? := by
  cases h with
  | unknown _ _ htalk hhandled _ =>
      rw [writtenTo, htalk, hhandled]
      rfl
  | present _ _ htalk _ =>
      rw [writtenTo, htalk, List.filterMap_append, said_turns, said_owedTo, List.append_nil]
  | gone _ _ before _ htalk hturns _ =>
      rw [writtenTo, htalk, ← said_turns]
      rcases hturns with hturns | hturns
      · rw [hturns, List.filterMap_append]
        exact List.append_nil _
      · rw [hturns]

/-- A client whose message ended its session is gone. -/
theorem Stands.out_of_closed (h : Stands w client) {handled : Handled}
    (hmem : handled ∈ w.handledOf client) (hclosed : handled.outcome = .closed) :
    client ∉ w.loop.server.sessions.ids := by
  cases h with
  | unknown _ hout _ _ _ => exact hout
  | gone _ hout _ _ _ _ _ => exact hout
  | present _ _ htalk hopen =>
      obtain ⟨hbefore, -⟩ := notMem_of_talk htalk hopen
      refine absurd (List.mem_flatMap.mpr ⟨handled, hmem, ?_⟩) hbefore
      simp [Handled.turns, hclosed]

/-- The dialogues with all clients, up to the present and in the next step. -/
structure Converses (w : Chronicle) : Prop where
  apart : w.clients.Nodup ∧ (w.seats.map Prod.snd).Nodup
  reads : ∀ client k, (client, k) ∈ w.seats → ∃ reads, Reads w client k reads
  heard : ∀ client, w.loop.server.heardFrom client =
    (w.handledOf client).map Handled.read ++ (w.loop.owedTo client).filterMap Turn.heard?
  written : ∀ client,
    w.loop.server.writtenTo client = (w.handledOf client).filterMap Handled.reply?
  answers : ∀ h ∈ w.handled, ∀ reply, h.reply? = some reply →
    ∃ m, h.read = .ok m ∧ h.server.respond m = some reply ∧ Answer m reply
  unanswered : ∀ h ∈ w.handled, h.reply? = none →
    (Forbidden h.read ∨ h.server.writable h.client = false) ∧
      h.client ∉ w.loop.server.sessions.ids
  stands : ∀ client, Stands w client
  parted : ∀ h ∈ w.handled, h.read = .ok .stop → Parted w h
  arrives : ∀ h reply k, w.loop.handles? = some h → h.outcome = .said reply →
    linkOf? w.loop.server h.client = some k →
      ∃ a b, w.loop.server.net.links[k]? = some a ∧
        w.loop.step.server.net.links[k]? = some b ∧
        b.client.inbox = a.client.inbox ++ reply.encode
  expelled : ∀ client r, w.loop.hears? = some (client, r) → Forbidden r →
    w.loop.serves? = some client ∧ Loop.Expelled w.loop client r w.loop.step
  confined : ∀ client, w.loop.serves? = some client →
    Confined client w.loop.server w.loop.step.server
  spared : ∀ client other k, w.loop.serves? = some client → other ≠ client →
    linkOf? w.loop.server other = some k → linkOf? w.loop.step.server other = some k ∧
      w.loop.step.server.net.links[k]? = w.loop.server.net.links[k]?

theorem converses_chronicle
    (hbound : (chronicle chips period as).loop.server.net.links.length ≤ 2 ^ 64) :
    Converses (chronicle chips period as) := by
  have hl := coherent_chronicle chips period as
  have htabled := tabled_chronicle hbound
  have hstands := fun client => stands_chronicle client hbound
  constructor
  · exact ⟨htabled.own, (List.nodup_append.mp htabled.apart).1⟩
  · exact fun client k hseat => reads_chronicle hbound hseat
  · exact fun client => (hstands client).heard
  · exact fun client => (hstands client).written
  · intro h _ reply hreply
    rcases outcome_cases h with ⟨m, said, hread, hrespond, houtcome⟩ | ⟨hclosed, -⟩
    · rw [Handled.reply?, houtcome] at hreply
      cases hreply
      exact ⟨m, hread, hrespond, answer_of_respond hrespond⟩
    · rw [Handled.reply?, hclosed] at hreply
      cases hreply
  · intro h hmem hreply
    rcases outcome_cases h with ⟨m, said, -, -, houtcome⟩ | ⟨hclosed, hwhy⟩
    · rw [Handled.reply?, houtcome] at hreply
      cases hreply
    · refine ⟨hwhy, (hstands h.client).out_of_closed ?_ hclosed⟩
      exact List.mem_filter.mpr ⟨hmem, decide_eq_true rfl⟩
  · exact hstands
  · exact parted_chronicle chips period as
  · exact fun h reply k hhandles hsaid hlink => Loop.arrives_step hl hhandles hsaid hlink
  · intro client r hheard hr
    exact ⟨Loop.serves?_of_hears? hheard, Loop.expelled_step hheard hr⟩
  · exact fun client hserves => Loop.confined_step hserves
  · intro client other k hserves hne hlink
    have hconfined := Loop.confined_step hserves
    obtain ⟨session, hs, rfl⟩ := Option.map_eq_some_iff.mp hlink
    refine ⟨?_, hconfined.links _ (linkOf?_ne_of_apart hl.links.apart hs (Ne.symm hne))⟩
    rw [linkOf?, hconfined.get?_of_ne hne]
    exact hlink

/-- Two clients: the first one asks whether the server is there, and the second one sends what only
a server may send. -/
def twoClients : List Action :=
  [.serve, .connect (.usual ⟨0, 0, ""⟩), .connect (.usual ⟨1, 0, ""⟩)] ++ List.replicate 6 .serve ++
    [.send 0 Message.ping.encode, .send 1 Message.ok.encode] ++ List.replicate 4 .serve

theorem twoClients_converse :
    (chronicle Chips.none 0 twoClients).loop.server.net.links.length ≤ 2 ^ 64 ∧
      (chronicle Chips.none 0 twoClients).handled.map Handled.client = [⟨0⟩, ⟨1⟩] ∧
      (chronicle Chips.none 0 twoClients).loop.server.writtenTo ⟨0⟩ = [.ok] ∧
      (chronicle Chips.none 0 twoClients).loop.server.sessions.ids = [⟨0⟩] ∧
      Converses (chronicle Chips.none 0 twoClients) := by
  have hbound : (chronicle Chips.none 0 twoClients).loop.server.net.links.length ≤
      2 ^ 64 := by decide +kernel
  refine ⟨hbound, ?_, ?_, ?_, converses_chronicle hbound⟩ <;> decide +kernel

end Conversing

end Chronicle
end LineKeeper
