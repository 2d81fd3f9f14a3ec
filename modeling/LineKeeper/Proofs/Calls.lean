import LineKeeper.Exchange
import LineKeeper.Proofs.FrameLayout
import LineKeeper.Proofs.OpenLinks
import LineKeeper.Proofs.Serving

/-!
# The course of a call

A client that is connected and makes a call sends one message, which then waits at the
server (`Loop.Holds`).  The server reads it and answers at once, or it reads it and owes the
answer (`Loop.Owes`).  The answer waits at the client until the client takes it, whatever
becomes of the server meanwhile (`Loop.Kept`).

`Loop.Course` says where a call stands after some actions.  It is kept by every action that
is not about the client's link and is no terminating signal (`Course.concat`).
-/

namespace LineKeeper

namespace Net

variable {net : Net} {a : Action} {i k : Nat} {l : Link}

section Replies

/-- The bytes that wait at the client's end of a link. -/
def replies (net : Net) (k : Nat) : List UInt8 :=
  match net.links[k]? with
  | some l => l.client.inbox
  | none => []

theorem replies_of_some (h : net.links[k]? = some l) : net.replies k = l.client.inbox := by
  simp only [replies, h]

theorem replies_congr {net' : Net} (h : net'.links[k]? = net.links[k]?) :
    net'.replies k = net.replies k := by
  rw [replies, h, replies]

theorem replies_modify {f : Link → Link} (hf : ∀ l, (f l).client.inbox = l.client.inbox) :
    (net.modify i f).replies k = net.replies k := by
  by_cases hk : i = k
  · subst hk
    cases hl : net.links[i]? with
    | none =>
        refine replies_congr ?_
        rw [links_modify, if_pos rfl, hl]
        rfl
    | some l => rw [replies_of_some (links_modify_self f hl), replies_of_some hl, hf]
  · exact replies_congr (links_modify_of_ne f (Ne.symm hk))

/-- A link that the server no longer listens for keeps what waits for the client. -/
theorem replies_stopListening (net : Net) (k : Nat) :
    net.stopListening.replies k = net.replies k := by
  have hfold : ∀ (waiting : List Nat) (net : Net),
      ({ net with links := (waiting.foldl (fun links i => links.modify i Link.abandon)
        net.links) }).replies k = net.replies k := by
    intro waiting
    induction waiting with
    | nil => exact fun _ => rfl
    | cons i waiting ih =>
        intro net
        exact (ih (net.modify i Link.abandon)).trans (replies_modify fun _ => rfl)
  exact hfold net.waiting net

/-- Nothing that is done elsewhere takes what waits for the client. -/
theorem replies_after (h : a.link? ≠ some k) (hk : net.replies k ≠ []) :
    (net.after a).replies k = net.replies k := by
  have hlt : k < net.links.length := by
    rw [← Nat.not_le]
    intro hle
    refine hk ?_
    simp only [replies, List.getElem?_eq_none hle]
  exact replies_congr (Loop.links_after_of_ne net hlt h)

end Replies

end Net

namespace Server

open Loop (linkOf?)

variable {s t : Server} {id : ClientId} {i : Nat}

section Replies

theorem replies_dropClient (s : Server) (id : ClientId) (i : Nat) :
    (s.dropClient id).net.replies i = s.net.replies i := by
  unfold dropClient
  split
  · rfl
  · refine Net.replies_modify fun l => ?_
    unfold Link.close
    dsimp only
    split <;> rfl

theorem replies_foldl (s : Server) (ids : List ClientId) (i : Nat) :
    (ids.foldl dropClient s).net.replies i = s.net.replies i := by
  induction ids generalizing s with
  | nil => rfl
  | cons id ids ih => rw [List.foldl_cons, ih, replies_dropClient]

theorem Confined.replies (h : Confined id s t) (hne : linkOf? s id ≠ some i) :
    t.net.replies i = s.net.replies i :=
  Net.replies_congr (h.links i hne)

/-- What waits for a client outlives the server, and nothing is added to it unless the client asked
for the stop. -/
theorem replies_drain {why : Stop} (hapart : s.linksInUse.Nodup)
    (h : ∀ id, why.stopper? = some id → linkOf? s id ≠ some i) :
    (s.drain why).net.replies i = s.net.replies i := by
  have hcleared := cleared s why
  set began := (s.log (.exiting s.sessions.length s.requests.length)).stopListening with hbegan
  have hbefore : (began.releaseAll.dropAllBut why.stopper?).net.replies i =
      s.net.replies i := by
    rw [dropAllBut, replies_foldl, began.releaseAll_returned.2.net]
    exact Net.replies_stopListening s.net i
  unfold drain
  dsimp only
  rw [← hbegan]
  generalize began.releaseAll.dropAllBut why.stopper? = t at hcleared hbefore
  split
  · next id hwhy =>
    have hlink : linkOf? t id ≠ some i := by
      cases hs : s.sessions.get? id with
      | some session =>
          rw [linkOf?, (hcleared.stopper hapart hwhy hs).1, ← hs]
          exact h id hwhy
      | none =>
          have hgone : id ∉ t.sessions.ids := by
            rw [Sessions.ids, hcleared.sessions]
            intro hmem
            exact Sessions.get?_eq_none_iff.mp hs
              ((List.filter_sublist.map Prod.fst).subset hmem)
          rw [linkOf?_of_none (Sessions.get?_eq_none_iff.mpr hgone)]
          rintro ⟨⟩
    show ((t.reply id .ok).dropClient id).net.replies i = _
    rw [replies_dropClient, (confined_reply t id .ok).replies hlink, hbefore]
  · exact hbefore

end Replies

end Server

namespace Loop

open Server

variable {l : Loop} {n i : Nat} {m reply : Message} {a : Action} {id : ClientId}

section Soundness

/-- What holds of a server with fewer connections than there are tokens. -/
structure Sound (l : Loop) : Prop where
  coherent : Coherent l
  attentive : l.ending = none → ∃ n, Attentive n l
  fresh : l.ending = none → l.server.sessions.next ∉ l.server.sessions.ids
  known : l.ending = none → ∀ id ∈ l.server.sessions.ids, id.number.toNat < 2 ^ 64 - 16

theorem Played.sound {chips : Chips} {period : Nat} (h : Played chips period l)
    (hbound : l.server.net.links.length ≤ 2 ^ 64 - 16) : Sound l := by
  obtain ⟨as, has⟩ := h
  have hloop := Chronicle.loop_chronicle chips period as
  rw [← has] at hloop
  rw [← hloop] at hbound ⊢
  have htabled := Chronicle.tabled_chronicle (Nat.le_trans hbound (Nat.sub_le _ _))
  have hcount := htabled.count
  rw [Chronicle.links, List.length_append, List.length_map] at hcount
  refine ⟨Chronicle.coherent_chronicle chips period as,
    fun hend => ⟨_, Chronicle.attentive_chronicle hbound hend⟩, fun hend hmem => ?_,
    fun hend id hid => ?_⟩
  · have hnumber := (htabled.numbered hend).below _ hmem
    rw [(htabled.numbered hend).next_toNat (by omega)] at hnumber
    exact Nat.lt_irrefl _ hnumber
  · have hnumber := (htabled.numbered hend).below id hid
    omega

end Soundness

section Owing

/-- The server has read a message of the client, and owes the answer. -/
structure Owes (l : Loop) (i : Nat) (m : Message) : Prop where
  ending : l.ending = none
  signals : l.server.signals.waiting = []
  owed : ∃ id, l.owed? = some (id, m) ∧ linkOf? l.server id = some i
  link : ∃ origin, l.server.net.links[i]? = some (Link.carrying origin [] [])

/-- The reply waits for the client.  Meanwhile the server runs, or it ends for somebody else, or it
has ended. -/
inductive Kept (l : Loop) (i : Nat) (reply : Message) : Prop
  | running (h : Holds l i reply.encode []) (hseat : i ∉ l.server.net.waiting)
  | stopping (hend : l.ending = none) (why : Stop) (hstop : l.server.stop = some why)
      (hother : ∀ id, why.stopper? = some id → linkOf? l.server id ≠ some i)
      (hreply : l.server.net.replies i = reply.encode)
  | ended (hend : l.ending.isSome = true) (hreply : l.server.net.replies i = reply.encode)

theorem encode_ne_nil (m : Message) : m.encode ≠ [] := by
  intro hnil
  have hlength := m.encode_length
  rw [hnil] at hlength
  cases hlength

theorem Kept.replies (h : Kept l i reply) : l.server.net.replies i = reply.encode := by
  cases h with
  | running hholds _ =>
      obtain ⟨origin, hlink⟩ := hholds.link
      exact Net.replies_of_some hlink
  | stopping _ _ _ _ hreply => exact hreply
  | ended _ hreply => exact hreply

theorem Owes.act (h : Owes l i m) (ha : a ≠ .serve) (hspares : a.Spares i) :
    Owes (l.act a) i m := by
  have haround := around_act l ha
  obtain ⟨id, howed, hid⟩ := h.owed
  obtain ⟨origin, hlink⟩ := h.link
  have hlt : i < l.server.net.links.length := (List.getElem?_eq_some_iff.mp hlink).1
  refine ⟨haround.ending.trans h.ending, signals_of_spares ha hspares h.signals,
    ⟨id, ?_, ?_⟩, ⟨origin, ?_⟩⟩
  · rw [owed?_congr haround.ending haround.job haround.stop, howed]
  · rw [haround.linkOf?, hid]
  · rw [net_act l ha, links_after_of_ne _ hlt hspares.1, hlink]

theorem Kept.act (h : Kept l i reply) (ha : a ≠ .serve) (hspares : a.Spares i) :
    Kept (l.act a) i reply := by
  have haround := around_act l ha
  have hreplies : (l.act a).server.net.replies i = reply.encode := by
    rw [net_act l ha, Net.replies_after hspares.1, h.replies]
    rw [h.replies]
    exact encode_ne_nil reply
  cases h with
  | running hholds hseat =>
      refine .running (hholds.act ha hspares) fun hwaits => ?_
      obtain ⟨origin, hlink⟩ := hholds.link
      rw [net_act l ha] at hwaits
      rcases waiting_after l.server.net a hwaits with hold | hnew
      · exact hseat hold
      · have hlt := (List.getElem?_eq_some_iff.mp hlink).1
        exact Nat.lt_irrefl _ (hnew ▸ hlt)
  | stopping hend why hstop hother _ =>
      refine .stopping (haround.ending.trans hend) why (haround.stop.trans hstop) ?_ hreplies
      intro id hid
      rw [haround.linkOf?]
      exact hother id hid
  | ended hend _ =>
      refine .ended ?_ hreplies
      rw [haround.ending]
      exact hend

/-- A link that belongs to a session does not wait. -/
theorem Coherent.not_waiting (hl : Coherent l) (hlink : linkOf? l.server id = some i) :
    i ∉ l.server.net.waiting := by
  obtain ⟨session, hs, rfl⟩ := Option.map_eq_some_iff.mp hlink
  exact link_not_waiting hl.links.apart hs

theorem not_waiting_step (hl : Coherent l) (h : i ∉ l.server.net.waiting) :
    i ∉ l.step.server.net.waiting :=
  fun hwaits => h ((seating_step hl).waiting hwaits)

theorem Kept.step (h : Kept l i reply) (hsound : Sound l) : Kept l.step i reply := by
  have hl := hsound.coherent
  cases h with
  | running hholds hseat =>
      obtain ⟨n, hatt⟩ := hsound.attentive hholds.ending
      rcases hholds.step hatt hl (hsound.fresh hholds.ending) with
        hnext | hovertaken | ⟨id, r, hheard, hlink⟩
      · exact .running hnext (not_waiting_step hl hseat)
      · cases hovertaken with
        | stopped other hheard hother =>
            obtain ⟨hend, -, -, e, es, session, -, -, hs, hstep⟩ := eq_of_hears? hheard
            have hserves := confined_step (serves?_of_hears? hheard)
            have hreplies := (Kept.running hholds hseat).replies
            refine .stopping (by rw [hstep]; exact hend) (.requested other) (by rw [hstep]; rfl)
              ?_ ?_
            · rintro _ ⟨⟩
              exact hserves.linkOf?_ne hother
            · rw [hserves.replies hother, hreplies]
        | expired hwaits _ => exact absurd hwaits hseat
        | failed hwaits _ _ => exact absurd hwaits hseat
        | refused haccepts _ _ =>
            obtain ⟨-, -, -, -, -, ks, -, -, hwaiting⟩ := eq_of_accepts? haccepts
            rw [hwaiting, List.mem_cons, not_or] at hseat
            exact absurd rfl hseat.1
      · exact absurd hheard (hholds.unheard hlink)
  | stopping hend why hstop hother hreply =>
      obtain ⟨es, hphase⟩ := hl.stopping why hstop hend
      have hjob := hl.job_of_stop hstop
      cases es with
      | nil =>
          rw [step_drains hend hjob hphase hstop]
          refine .ended rfl ?_
          exact (replies_drain hl.links.apart hother).trans hreply
      | cons e es =>
          rw [step_forgets hend hjob hphase hstop]
          exact .stopping hend why hstop hother hreply
  | ended hend hreply =>
      rw [step_of_ending hend]
      exact .ended hend hreply

end Owing

section Answering

/-- The next step handles the message of the client on link `i`, and this is the reply to it. -/
structure Answers (l : Loop) (i : Nat) (m reply : Message) : Prop where
  handles : ∃ id, l.handles? = some ⟨id, .ok m, l.server⟩ ∧ linkOf? l.server id = some i
  responds : l.server.respond m = some reply

/-- After the reply has been written to a client, the link carries it. -/
theorem Holds.replied {b u : Server} {x : Loop} {origin : Origin} (hsame : SameClients b u)
    (hlink : linkOf? b id = some i) (hl : b.net.links[i]? = some (Link.carrying origin [] []))
    (hstop : b.stop = none) (hsignals : b.signals.waiting = [])
    (hx : x.server = u.reply id reply) (hend : x.ending = none) (hjob : x.job = none) :
    Holds x i reply.encode [] := by
  have hulink : linkOf? u id = some i := by
    rw [linkOf?, hsame.sessions]
    exact hlink
  have hul : u.net.links[i]? = some (Link.carrying origin [] []) := by rw [hsame.net, hl]
  obtain ⟨session, hs, rfl⟩ := Option.map_eq_some_iff.mp hulink
  have hw : u.writable id = true := by
    rw [writable, hulink, Option.any_some, hul]
    rfl
  have hreply := reply_of_writable (m := reply) hs hw
  refine ⟨hend, ?_, ?_, .inl ⟨id, ?_⟩, ⟨origin, ?_⟩, ?_⟩
  · rw [hx, stop_reply, hsame.stop, hstop]
  · rw [hx, hreply]
    exact hsame.signals ▸ hsignals
  · rw [hx, hreply]
    exact hulink
  · rw [hx, hreply]
    exact Net.links_modify_self _ hul
  · rw [hjob]
    rintro job ⟨⟩

/-- Where the answer is owed and nothing is on its way. -/
theorem owes_of_same {b : Server} {x : Loop} {origin : Origin} (hend : x.ending = none)
    (howed : x.owed? = some (id, m)) (hsessions : x.server.sessions = b.sessions)
    (hnet : x.server.net = b.net) (hsignals : x.server.signals.waiting = [])
    (hlink : linkOf? b id = some i) (hl : b.net.links[i]? = some (Link.carrying origin [] [])) :
    Owes x i m := by
  refine ⟨hend, hsignals, ⟨id, howed, ?_⟩, ⟨origin, ?_⟩⟩
  · rw [linkOf?, hsessions]
    exact hlink
  · rw [hnet, hl]

/-- When the message of a call has been read, nothing is on its way. -/
theorem Holds.links_afterReading {session : Session} (h : Holds l i [] m.encode)
    (hlink : session.link = i) (id : ClientId) (r : Except WireError Message) :
    ∃ origin, (l.server.afterReading id session r).net.links[i]? =
      some (Link.carrying origin [] []) := by
  obtain ⟨origin, hl⟩ := h.link
  refine ⟨origin, ?_⟩
  show (l.server.netAfter session).links[i]? = _
  rw [netAfter_eq, hlink, Net.links_modify_self _ hl,
    Link.take_server_carrying (encode_ne_nil m), List.drop_of_length_le]
  exact Nat.le_of_eq m.encode_length

/-- The step that reads the message of a call answers it, or owes the answer. -/
theorem Holds.reads (h : Holds l i [] m.encode) (hm : m.isCall = true)
    {r : Except WireError Message} (hheard : l.hears? = some (id, r))
    (hlink : linkOf? l.server id = some i) :
    Owes l.step i m ∨ ∃ reply, Answers l i m reply ∧ Holds l.step i reply.encode [] := by
  obtain rfl : r = .ok m := by
    rw [h.heard (encode_ne_nil m) hlink hheard, List.take_of_length_le, m.decode_encode]
    exact Nat.le_of_eq m.encode_length
  obtain ⟨hend, hjob, hstop, e, es, session, hphase, hears, hs, hstep⟩ := eq_of_hears? hheard
  have hsession : session.link = i := by
    rw [linkOf?_of_get? hs] at hlink
    exact Option.some.inj hlink
  obtain ⟨origin, hbl⟩ := h.links_afterReading hsession id (.ok m)
  set b := l.server.afterReading id session (.ok m) with hb
  have hblink : linkOf? b id = some i := hlink
  have hhearing := hearing b id session.peer (.ok m)
  have hserver : l.step.server = (b.dispatch id session.peer (.ok m)).1 := by
    rw [hstep]
    rfl
  have hwaits : l.step.job = (b.dispatch id session.peer (.ok m)).2 := by
    rw [hstep]
    rfl
  have hend' : l.step.ending = none := by
    rw [hstep]
    exact hend
  rw [← hserver, ← hwaits] at hhearing
  generalize l.step = q at *
  obtain ⟨t, ht⟩ : ∃ t, q.server = t := ⟨_, rfl⟩
  obtain ⟨job, hj⟩ : ∃ job, q.job = job := ⟨_, rfl⟩
  rw [ht, hj] at hhearing
  cases hhearing with
  | @answered _ reply u hcall hsame hreply =>
      right
      have hnow : isPostponed (.ok m) = false := by
        rcases hcall with rfl | ⟨rid, rfl⟩ <;> rfl
      have hhandles : l.handles? = some ⟨id, .ok m, l.server⟩ := by
        simp only [handles?, hend, hjob, hphase, hstop, hears, hnow, Bool.false_eq_true, if_false]
      exact ⟨reply, ⟨⟨id, hhandles, hlink⟩, hreply⟩,
        Holds.replied hsame hblink hbl h.stop h.signals ht hend' hj⟩
  | asked spec hsame _ _ =>
      left
      refine owes_of_same hend' (owed?_of_job hend' hj) ?_ ?_ ?_ hblink hbl <;> rw [ht]
      · exact hsame.sessions
      · exact hsame.net
      · rw [hsame.signals]
        exact h.signals
  | @stopping u hsame =>
      left
      have howed := owed?_of_stop hend' hj (by rw [ht])
      refine owes_of_same hend' howed ?_ ?_ ?_ hblink hbl <;> rw [ht]
      · exact hsame.sessions
      · exact hsame.net
      · show u.signals.waiting = []
        rw [hsame.signals]
        exact h.signals
  | forbidden report hr =>
      rw [hr m rfl] at hm
      cases hm

/-- A line request that does not have to wait in the device is answered. -/
theorem Owes.finishes {job : Job} (h : Owes l i m) (hl : Coherent l) (hjob : l.job = some job)
    (hpasses : l.isStuck = false) : ∃ reply, Answers l i m reply ∧ Kept l.step i reply := by
  obtain ⟨id, howed, hlink⟩ := h.owed
  obtain ⟨origin, hcarries⟩ := h.link
  obtain ⟨rfl, rfl⟩ := Prod.mk.inj (Option.some.inj ((owed?_of_job h.ending hjob).symm.trans
    howed))
  have hstep := step_of_job h.ending hjob hpasses
  obtain ⟨u, reply, hsame, hreply, hfinish⟩ := l.server.finish_eq_reply job
  have hserver : l.step.server = u.reply job.client reply := by
    rw [hstep, ← hfinish]
    rfl
  have hhandles : l.handles? = some ⟨job.client, .ok (.request job.spec), l.server⟩ := by
    simp only [handles?, h.ending, hjob, hpasses, Bool.false_eq_true, if_false]
  have hholds : Holds l.step i reply.encode [] := by
    refine Holds.replied hsame hlink hcarries (hl.running job hjob).2 h.signals hserver ?_ ?_ <;>
      rw [hstep]
    · exact h.ending
    · rfl
  exact ⟨reply, ⟨⟨job.client, hhandles, hlink⟩, hreply⟩,
    .running hholds (not_waiting_step hl (hl.not_waiting hlink))⟩

/-- A client that asked for the stop has its answer when the server ends. -/
theorem Owes.parts {why : Stop} (h : Owes l i m) (hl : Coherent l) (hjob : l.job = none)
    (hphase : l.phase = .handling []) (hstop : l.server.stop = some why) :
    ∃ reply, Answers l i m reply ∧ Kept l.step i reply := by
  obtain ⟨id, howed, hlink⟩ := h.owed
  obtain ⟨origin, hcarries⟩ := h.link
  obtain ⟨rfl, hwhy⟩ := stop_of_owed hjob howed
  obtain rfl : why = .requested id := Option.some.inj (hstop.symm.trans hwhy)
  have hstopper : (Stop.requested id).stopper? = some id := rfl
  have hhandles : l.handles? = some ⟨id, .ok .stop, l.server⟩ := by
    simp only [handles?, h.ending, hjob, hphase, hstop]
  refine ⟨.ok, ⟨⟨id, hhandles, hlink⟩, rfl⟩, ?_⟩
  obtain ⟨session, hs, rfl⟩ := Option.map_eq_some_iff.mp hlink
  have hw : l.server.writable id = true := by
    rw [writable, linkOf?_of_get? hs, Option.any_some, hcarries]
    rfl
  obtain ⟨a, b, ha, hb, hinbox⟩ := inbox_drain hl.links.apart hstopper hs hw
  obtain rfl : a = Link.carrying origin [] [] := Option.some.inj (ha.symm.trans hcarries)
  rw [step_drains h.ending hjob hphase hstop]
  exact .ended rfl ((Net.replies_of_some hb).trans hinbox)

/-- A step of a server that owes the answer gives it, or the server still owes it: then it has to
wait in the device, or it has fewer events left to forget. -/
theorem Owes.step (h : Owes l i m) (hl : Coherent l) :
    (Owes l.step i m ∧ (l.isStuck = true ∨ l.step.pending.length < l.pending.length)) ∨
      ∃ reply, Answers l i m reply ∧ Kept l.step i reply := by
  cases hjob : l.job with
  | some job =>
      cases hstuck : l.isStuck with
      | true =>
          left
          rw [step_of_stuck hstuck]
          exact ⟨h, .inl rfl⟩
      | false => exact .inr (h.finishes hl hjob hstuck)
  | none =>
      obtain ⟨id, howed, hlink⟩ := h.owed
      obtain ⟨origin, hcarries⟩ := h.link
      obtain ⟨-, hstop⟩ := stop_of_owed hjob howed
      obtain ⟨es, hphase⟩ := hl.stopping _ hstop h.ending
      cases es with
      | nil => exact .inr (h.parts hl hjob hphase hstop)
      | cons e es =>
          left
          have hstep := step_forgets h.ending hjob hphase hstop
          have howed' : l.step.owed? = some (id, m) := by
            rw [hstep]
            exact howed
          refine ⟨owes_of_same ?_ howed' ?_ ?_ ?_ hlink hcarries, .inr ?_⟩ <;> rw [hstep]
          · exact h.ending
          · exact h.signals
          · simp only [pending, hphase, List.length_nil, List.length_cons]
            exact Nat.succ_pos _

end Answering

section Courses

/-- Where the call `c` over the link `i` stands after the actions `bs`, which began when its message
had been sent. -/
inductive Course (c : Client.Call) (i : Nat) (l : Loop) (bs : List Action) : Prop
  | asking (h : Holds (l.play bs) i [] c.message.encode)
  | owing (h : Owes (l.play bs) i c.message)
  | answered (xs ys : List Action) (reply : Message) (hbs : bs = xs ++ .serve :: ys)
      (hanswers : Answers (l.play xs) i c.message reply) (hkept : Kept (l.play bs) i reply)
  | overtaken (xs ys : List Action) (hbs : bs = xs ++ .serve :: ys)
      (h : Overtaken (l.play xs) i)

theorem isCall_message (c : Client.Call) : c.message.isCall = true := by
  cases c <;> rfl

/-- The next action keeps the call on its course. -/
theorem Course.concat {c : Client.Call} {bs : List Action} (h : Course c i l bs)
    (hsound : Sound (l.play bs)) (hspares : a.Spares i) : Course c i l (bs ++ [a]) := by
  have hplay := play_concat l bs a
  by_cases ha : a = .serve
  · subst ha
    have hstep : l.play (bs ++ [.serve]) = (l.play bs).step := hplay
    cases h with
    | asking h =>
        obtain ⟨n, hatt⟩ := hsound.attentive h.ending
        rcases h.step hatt hsound.coherent (hsound.fresh h.ending) with
          hnext | hovertaken | ⟨id, r, hheard, hlink⟩
        · exact .asking (hstep ▸ hnext)
        · exact .overtaken bs [] rfl hovertaken
        · rcases h.reads (isCall_message c) hheard hlink with howes | ⟨reply, hanswers, hholds⟩
          · exact .owing (hstep ▸ howes)
          · refine .answered bs [] reply rfl hanswers ?_
            rw [hstep]
            exact .running hholds
              (not_waiting_step hsound.coherent (hsound.coherent.not_waiting hlink))
    | owing h =>
        rcases h.step hsound.coherent with ⟨howes, -⟩ | ⟨reply, hanswers, hkept⟩
        · exact .owing (hstep ▸ howes)
        · exact .answered bs [] reply rfl hanswers (hstep ▸ hkept)
    | answered xs ys reply hbs hanswers hkept =>
        refine .answered xs (ys ++ [.serve]) reply (by rw [hbs, List.append_assoc]; rfl) hanswers ?_
        rw [hstep]
        exact hkept.step hsound
    | overtaken xs ys hbs h =>
        exact .overtaken xs (ys ++ [.serve]) (by rw [hbs, List.append_assoc]; rfl) h
  · cases h with
    | asking h => exact .asking (hplay ▸ h.act ha hspares)
    | owing h => exact .owing (hplay ▸ h.act ha hspares)
    | answered xs ys reply hbs hanswers hkept =>
        exact .answered xs (ys ++ [a]) reply (by rw [hbs, List.append_assoc]; rfl) hanswers
          (hplay ▸ hkept.act ha hspares)
    | overtaken xs ys hbs h =>
        exact .overtaken xs (ys ++ [a]) (by rw [hbs, List.append_assoc]; rfl) h

theorem course {chips : Chips} {period : Nat} {c : Client.Call} {bs : List Action}
    (hl : Played chips period l) (hsent : Holds l i [] c.message.encode)
    (hspares : ∀ a ∈ bs, a.Spares i)
    (hbound : (l.play bs).server.net.links.length ≤ 2 ^ 64 - 16) : Course c i l bs := by
  induction bs using List.reverseRecOn with
  | nil => exact .asking hsent
  | append_singleton bs b ih =>
      have hplayed := hl.play bs
      rw [play_concat] at hbound
      have hbefore := Nat.le_trans (length_le_act hplayed.coherent b) hbound
      have hcourse := ih (fun a ha => hspares a (List.mem_append_left _ ha)) hbefore
      exact hcourse.concat (hplayed.sound hbefore)
        (hspares b (List.mem_append_right _ List.mem_cons_self))

end Courses

end Loop
end LineKeeper
