import LineKeeper.Proofs.Ownership
import LineKeeper.Proofs.Progress

/-!
# Client and server agree on the protocol

A client that is `Connected` makes a call: it encodes a message and sends it, the server
reads, decodes and handles the message, and the client takes what comes back and decides
what it means (`Loop.resultOf`).

The result of every call agrees with the server that handled it (`Agrees`).  So it is never
a reply of another kind, never a message that cannot be decoded, and never a failure of the
connection.  Before the result is there, the client finds nothing on its link; when it has
taken the result from a server that still runs, it is connected as before and can make its
next call.

The other clients may do what they like meanwhile, but for a STOP (`Undisturbed`).

`Loop.call` makes a call and lets the server settle before the client looks at its link, and
what it gives is such a result (`Connected.call_outcome`).
-/

namespace LineKeeper
namespace Loop

open Server

variable {l : Loop} {i n : Nat} {x y x' y' : List UInt8} {m reply : Message} {a : Action}
  {c : Client.Call}

section Connecting

/-- The server runs, no signal ends it, and a client is connected to it over a link on which nothing
is on its way. -/
def Connected (l : Loop) (i : Nat) : Prop :=
  Holds l i [] []

theorem net_act_own (ha : a.link? = some i) :
    (l.act a).server.net = l.server.net.modify i a.change := by
  have hserve : a ≠ .serve := by
    rintro rfl
    cases ha
  rw [net_act l hserve, after_of_link? _ ha]

/-- What the client itself does with the link changes only what the link carries. -/
theorem Holds.own (h : Holds l i x y) (ha : a.link? = some i)
    (hchange : ∀ origin, a.change (Link.carrying origin x y) = Link.carrying origin x' y') :
    Holds (l.act a) i x' y' := by
  have hserve : a ≠ .serve := by
    rintro rfl
    cases ha
  have hraise : ∀ s, a ≠ .raise s := by
    rintro s rfl
    cases ha
  have haround := around_act l hserve
  have hnet := net_act_own (l := l) ha
  obtain ⟨origin, hlink⟩ := h.link
  constructor
  · rw [haround.ending]
    exact h.ending
  · rw [haround.stop]
    exact h.stop
  · rw [signals_act l hserve hraise]
    exact h.signals
  · refine h.uses.congr haround.sessions fun hwaits => ?_
    rw [hnet]
    exact hwaits
  · refine ⟨origin, ?_⟩
    rw [hnet, Net.links_modify_self _ hlink, hchange]
  · intro job hjob
    rw [haround.linkOf?]
    exact h.free job (haround.job ▸ hjob)

theorem Connected.sent (h : Connected l i) (bytes : List UInt8) :
    Holds (l.act (.send i bytes)) i [] bytes :=
  Holds.own h rfl fun _ => rfl

theorem Holds.taken (h : Holds l i x []) (hx : x.length ≤ frameSize) :
    Connected (l.act (.take i frameSize)) i := by
  refine h.own rfl fun origin => ?_
  have hside : ((Link.carrying origin x []).side .client).inbox = x := rfl
  simp only [Action.change, Link.take, hside]
  split
  · show Link.carrying origin (x.drop frameSize) [] = _
    rw [List.drop_of_length_le hx]
  · next hempty =>
    obtain rfl : x = [] := by simpa using hempty
    rfl

/-- A client that opens a connection to a server that runs is connected. -/
theorem connected_connect (hl : Coherent l) (origin : Origin) (hend : l.ending = none)
    (hstop : l.server.stop = none) (hsignals : l.server.signals.waiting = [])
    (hlistens : l.server.net.listens = true) :
    Connected (l.act (.connect origin)) l.server.net.links.length := by
  have hserve : Action.connect origin ≠ .serve := by rintro ⟨⟩
  have haround := around_act l hserve
  have hnet : (l.act (.connect origin)).server.net = { l.server.net with
      links := l.server.net.links ++ [Link.opened origin]
      waiting := l.server.net.waiting ++ [l.server.net.links.length] } := by
    rw [net_act l hserve]
    simp only [Net.after, Net.connect, hlistens, if_true]
  constructor
  · rw [haround.ending, hend]
  · rw [haround.stop, hstop]
  · rw [signals_act l hserve (by rintro s ⟨⟩), hsignals]
  · right
    rw [hnet]
    exact List.mem_append_right _ List.mem_cons_self
  · refine ⟨origin, ?_⟩
    rw [hnet]
    exact List.getElem?_concat_length
  · intro job _ hlink
    rw [haround.linkOf?] at hlink
    obtain ⟨session, hs, hsession⟩ := Option.map_eq_some_iff.mp hlink
    have hplaced := hl.links.placed session.link (mem_linksInUse hs)
    rw [hsession] at hplaced
    exact Nat.lt_irrefl _ hplaced

end Connecting

section Results

/-- What the client gets if it takes its reply now. -/
def replyAt (l : Loop) (i : Nat) : Except ClientError Message :=
  match l.server.net.links[i]? with
  | none => .error .disconnected
  | some a => (Client.takeReply a).1

/-- What a call gives if the client takes its reply now. -/
def resultOf (l : Loop) (i : Nat) (c : Client.Call) : Except ClientError Message :=
  (l.replyAt i).bind (Client.judge c.expects)

theorem resultOf_pending {origin : Origin}
    (h : l.server.net.links[i]? = some (Link.carrying origin [] y)) (c : Client.Call) :
    l.resultOf i c = .error .timeout := by
  rw [resultOf, replyAt, h]
  rfl

/-- A client whose waiting bytes begin with a reply gets this reply. -/
theorem replyAt_of_front (h : reply.encode <+: l.server.net.replies i) :
    l.replyAt i = .ok reply := by
  obtain ⟨rest, hrest⟩ := h
  cases hl : l.server.net.links[i]? with
  | none =>
      rw [Net.replies, hl] at hrest
      exact absurd (List.append_eq_nil_iff.mp hrest).1 (encode_ne_nil reply)
  | some a =>
      rw [Net.replies_of_some hl] at hrest
      have hside : (a.side .client).inbox = reply.encode ++ rest := hrest.symm
      have hlength := reply.encode_length
      have hne : (reply.encode ++ rest).isEmpty = false :=
        List.isEmpty_eq_false_iff.mpr (List.append_ne_nil_of_left_ne_nil (encode_ne_nil reply) _)
      have htake : (a.take .client frameSize).1 = .data reply.encode := by
        rw [Link.take, hside, hne, List.take_append_of_le_length (Nat.le_of_eq hlength.symm),
          List.take_of_length_le (Nat.le_of_eq hlength)]
        rfl
      rw [replyAt, hl]
      simp only [Client.takeReply, htake, hlength, if_true, reply.decode_encode]

theorem resultOf_of_front (h : reply.encode <+: l.server.net.replies i) (c : Client.Call) :
    l.resultOf i c = Client.judge c.expects reply := by
  rw [resultOf, replyAt_of_front h]
  rfl

theorem resultOf_replies (h : l.server.net.replies i = reply.encode) (c : Client.Call) :
    l.resultOf i c = Client.judge c.expects reply :=
  resultOf_of_front (h ▸ List.prefix_refl _) c

/-- The result of a call agrees with the server, which handles the message of the call in its next
step. -/
inductive Agrees (l : Loop) : Client.Call → Except ClientError Message → Prop
  | pinged : Agrees l .ping (.ok .ok)
  | stopped : Agrees l .stop (.ok .ok)
  | granted (spec : LineSpec) (id : RequestId) (held : Held Nat)
      (hgrants : (l.server.device.request spec).1 = .ok held.handle)
      (hheld : l.step.server.requests.get? id = some held)
      (hchip : held.chipPath = spec.chipPath.text) (hoffsets : held.offsets = spec.offsets.list) :
      Agrees l (.request spec) (.ok (.reqOk id))
  | refused (spec : LineSpec) (e : Errno)
      (hrefuses : (l.server.device.request spec).1 = .error e) :
      Agrees l (.request spec) (.error (.server e))
  | released (id : RequestId) (held : Held Nat)
      (hheld : l.server.requests.get? id = some held)
      (hgone : l.step.server.requests.get? id = none) : Agrees l (.release id) (.ok .ok)
  | unknown (id : RequestId) (hnone : l.server.requests.get? id = none) :
      Agrees l (.release id) (.error (.server Errno.noEntry))

/-- A call that fails was refused by the server. -/
theorem Agrees.server_of_error {result : Except ClientError Message} {e : ClientError}
    (h : Agrees l c result) (he : result = .error e) : ∃ errno, e = .server errno := by
  cases h with
  | pinged => cases he
  | stopped => cases he
  | granted _ _ _ _ _ _ _ => cases he
  | refused spec errno _ =>
      cases he
      exact ⟨errno, rfl⟩
  | released _ _ _ _ => cases he
  | unknown id _ =>
      cases he
      exact ⟨Errno.noEntry, rfl⟩

/-- Whatever is granted is registered under the identifier that the client gets. -/
theorem agrees_of_finishes {job : Job} (hend : l.ending = none) (hjob : l.job = some job)
    (hpasses : l.isStuck = false) (hsorted : l.server.requests.Sorted)
    (h : l.server.respond (.request job.spec) = some reply) :
    Agrees l (.request job.spec) (Client.judge .reqOk reply) := by
  cases hrequest : (l.server.device.request job.spec).1 with
  | error e =>
      simp only [respond, hrequest] at h
      cases h
      exact .refused job.spec e hrequest
  | ok handle =>
      simp only [respond, hrequest] at h
      cases h
      have hgranted := granted_finish hrequest
      have hhandle : l.server.device.issued + 1 = handle :=
        Except.ok.inj (hgranted.outcome.symm.trans hrequest)
      refine .granted job.spec _ (job.held handle) hrequest ?_ rfl rfl
      have hserver : l.step.server = l.server.finish job := by
        rw [step_of_job hend hjob hpasses]
        rfl
      rw [hserver, hgranted.requests, hhandle]
      exact Requests.get?_insert_self hsorted (job.held handle)

/-- A registered identifier is released, and no other is. -/
theorem agrees_of_release {client : ClientId} {id : RequestId}
    (hheard : l.hears? = some (client, .ok (.release id)))
    (h : l.server.respond (.release id) = some reply) :
    Agrees l (.release id) (Client.judge .ok reply) := by
  cases hget : l.server.requests.get? id with
  | none =>
      simp only [respond, hget] at h
      cases h
      exact .unknown id hget
  | some held =>
      simp only [respond, hget] at h
      cases h
      refine .released id held hget ?_
      obtain ⟨-, -, -, e, es, session, -, -, hs, hstep⟩ := eq_of_hears? hheard
      have hback : GaveBack client id held { l.server with net := l.server.netAfter session } _ :=
        gaveBack_release hget
      have hserver : l.step.server.requests = l.server.requests.remove id := by
        rw [hstep]
        exact hback.requests
      rw [hserver]
      exact Requests.get?_remove_self _ id

theorem Answers.agrees (h : Answers l i c.message reply)
    (hsorted : l.server.requests.Sorted) : Agrees l c (Client.judge c.expects reply) := by
  obtain ⟨⟨client, hhandles, -⟩, hresponds⟩ := h
  have hhandles := handles_of_handles? hhandles
  cases c with
  | ping =>
      cases hresponds
      exact .pinged
  | stop =>
      cases hresponds
      exact .stopped
  | request spec =>
      cases hhandles with
      | finishes job hend hjob hpasses =>
          exact agrees_of_finishes hend hjob hpasses hsorted hresponds
      | reads _ _ _ hnow => cases hnow
  | release id =>
      cases hhandles with
      | reads _ _ hheard _ => exact agrees_of_release hheard hresponds

end Results

section Calling

variable {σ : Nat → Action} {chips : Chips} {period timeout k : Nat}

/-- A call has its result after `n` actions: the action `k` was the step that handled its message,
and the client can make its next call if the server still runs. -/
structure Returned (l : Loop) (i : Nat) (c : Client.Call) (σ : Nat → Action) (n k : Nat) :
    Prop where
  before : k < n
  serves : σ k = .serve
  handles : ∃ client,
    (l.playFor σ k).handles? = some ⟨client, .ok c.message, (l.playFor σ k).server⟩ ∧
      linkOf? (l.playFor σ k).server client = some i
  agrees : Agrees (l.playFor σ k) c ((l.playFor σ n).resultOf i c)
  fails : ∀ e, (l.playFor σ n).resultOf i c = .error e → ∃ errno, e = .server errno
  next : (l.playFor σ n).ending = none → (l.playFor σ n).server.stop = none →
    Connected ((l.playFor σ n).act (.take i frameSize)) i

theorem returned_of_answers {xs ys : List Action} (hl : Played chips period l)
    (hfirst : Action.first σ n = xs ++ .serve :: ys)
    (hanswers : Answers (l.play xs) i c.message reply) (hkept : Kept (l.playFor σ n) i reply) :
    ∃ k, Returned l i c σ n k := by
  obtain ⟨k, hserves, rfl⟩ := Action.eq_of_first hfirst
  have hagrees : Agrees (l.playFor σ k) c ((l.playFor σ n).resultOf i c) := by
    rw [resultOf_replies hkept.replies]
    exact hanswers.agrees (hl.play _).reachable.balanced.sorted
  refine ⟨k, ?_, hserves, hanswers.handles, hagrees, fun e => hagrees.server_of_error, ?_⟩
  · have hlength := congrArg List.length hfirst
    simp only [Action.first, List.length_map, List.length_range, List.length_append,
      List.length_cons] at hlength
    omega
  · intro hend hstop
    cases hkept with
    | running hholds _ => exact hholds.taken (Nat.le_of_eq reply.encode_length)
    | stopping _ why hwhy _ _ =>
        rw [hstop] at hwhy
        cases hwhy
    | ended hended _ =>
        rw [hend] at hended
        cases hended

/-- While nobody disturbs a call, it waits for its reply or has a result that agrees. -/
theorem Undisturbed.outcome (h : Undisturbed l i σ) (hl : Played chips period l)
    (hsent : Holds l i [] c.message.encode) (n : Nat) :
    (l.playFor σ n).resultOf i c = .error .timeout ∨ ∃ k, Returned l i c σ n k := by
  rcases h.stands hl hsent n with hholds | howes | ⟨xs, ys, reply, hfirst, hanswers, hkept⟩
  · obtain ⟨origin, hlink⟩ := hholds.link
    exact .inl (resultOf_pending hlink c)
  · obtain ⟨origin, hlink⟩ := howes.link
    exact .inl (resultOf_pending hlink c)
  · exact .inr (returned_of_answers hl hfirst hanswers hkept)

/-- The client can send the message of its call. -/
theorem Connected.sends (h : Connected l i) (htimeout : timeout ≠ 0) (m : Message) :
    ∃ origin, l.server.net.links[i]? = some (Link.carrying origin [] []) ∧
      Client.send timeout (Link.carrying origin [] []) m = .ok (Link.carrying origin [] m.encode) ∧
      (l.act (.send i m.encode)).server.net.links[i]? =
        some (Link.carrying origin [] m.encode) := by
  obtain ⟨origin, hlink⟩ := h.link
  refine ⟨origin, hlink, ?_, ?_⟩
  · rw [Client.send, if_neg htimeout]
    rfl
  · have hnet := net_act_own (l := l) (a := .send i m.encode) rfl
    rw [hnet, Net.links_modify_self _ hlink]
    rfl

/-- A client that is connected and makes a call can send its message.  Then its reply has not come
yet, or the call has a result that agrees with the server; and if the server has its turns, the
call has a result at some time. -/
theorem Played.calls_agree (hl : Played chips period l) (hconnected : Connected l i)
    (c : Client.Call) (htimeout : timeout ≠ 0)
    (hquiet : Undisturbed (l.act (.send i c.message.encode)) i σ) :
    let asked := l.act (.send i c.message.encode)
    (∃ before after, l.server.net.links[i]? = some before ∧
      Client.send timeout before c.message = .ok after ∧
      asked.server.net.links[i]? = some after) ∧
    (∀ n, (asked.playFor σ n).resultOf i c = .error .timeout ∨ ∃ k, Returned asked i c σ n k) ∧
    (Fair asked σ → ∃ n k, Returned asked i c σ n k) := by
  have hplayed := hl.act (.send i c.message.encode)
  have hsent := hconnected.sent c.message.encode
  refine ⟨?_, ?_, ?_⟩
  · obtain ⟨origin, hlink, hsends, hasked⟩ := hconnected.sends htimeout c.message
    exact ⟨_, _, hlink, hsends, hasked⟩
  · exact hquiet.outcome hplayed hsent
  · intro hfair
    obtain ⟨n, xs, ys, reply, hfirst, hanswers, hkept⟩ := hfair.replied hquiet hplayed hsent
    exact ⟨n, returned_of_answers hplayed hfirst hanswers hkept⟩

/-- A server to which a client has just connected. -/
def newcomer : Loop :=
  (start Chips.twoLines 0).play [.serve, .connect (.usual ⟨0, 0, ""⟩)]

/-- A request for the first line of the chip that is there. -/
def firstLine : LineSpec :=
  (LineSpec.new "/dev/gpiochip0" [0]).toOption.get (by decide +kernel)

/-- The same server when the client has made this request. -/
def requested : Loop :=
  newcomer.act (.send 0 (Client.Call.request firstLine).message.encode)

/-- A server that waits where nothing is ready does nothing. -/
theorem step_of_idle (hjob : l.job = none) (hphase : l.phase = .waiting) (hready : l.ready = []) :
    l.step = l := by
  obtain ⟨server, ready, phase, job, gateClosed, ending⟩ := l
  cases hjob
  cases hphase
  cases hready
  cases ending <;> rfl

theorem requested_playFor (n : Nat) :
    ∃ k < 9, requested.playFor (fun _ => .serve) n = requested.playFor (fun _ => .serve) k := by
  induction n with
  | zero => exact ⟨0, by decide, rfl⟩
  | succ n ih =>
      obtain ⟨k, hk, hn⟩ := ih
      by_cases hlast : k < 8
      · exact ⟨k + 1, by omega, by rw [playFor_succ, playFor_succ, hn]⟩
      · refine ⟨8, by decide, ?_⟩
        obtain rfl : k = 8 := by omega
        have hidle := step_of_idle (l := requested.playFor (fun _ => .serve) 8) (by decide +kernel)
          (by decide +kernel) (by decide +kernel)
        rw [playFor_succ, hn]
        generalize requested.playFor (fun _ => .serve) 8 = q at hidle ⊢
        exact hidle

theorem requested_undisturbed : Undisturbed requested 0 fun _ => .serve := by
  have hfacts : ∀ k < 9, let q := requested.playFor (fun _ => .serve) k
      q.server.net.links.length = 1 ∧ q.hears?.map Prod.snd ≠ some (.ok .stop) ∧
        q.step.server.stop = none ∧ q.step.ending = none ∧
        q.accepts?.isSome = q.seats?.isSome := by decide +kernel
  refine ⟨fun _ => ⟨by rintro ⟨⟩, by rintro s ⟨⟩⟩, fun n _ hovertaken => ?_, fun n => ?_⟩
  · obtain ⟨k, hk, hn⟩ := requested_playFor n
    obtain ⟨-, hheard, hstop, hend, hadmits⟩ := hfacts k hk
    rw [hn] at hovertaken
    cases hovertaken with
    | stopped other hstopped _ => exact hheard (by rw [hstopped]; rfl)
    | expired _ hidle =>
        rw [hstop] at hidle
        cases hidle
    | failed _ e hfailed =>
        rw [hend] at hfailed
        cases hfailed
    | refused haccepts hseats _ =>
        rw [haccepts, hseats] at hadmits
        cases hadmits
  · obtain ⟨k, hk, hn⟩ := requested_playFor n
    rw [hn, (hfacts k hk).1]
    decide

theorem requested_fair : Fair requested fun _ => .serve := by
  refine ⟨fun n => ⟨n, Nat.le_refl n, rfl, ?_⟩, ⟨0, fun _ _ _ => by rintro ⟨⟩⟩⟩
  have hopen : ∀ k < 9, (requested.playFor (fun _ => .serve) k).gateClosed = false := by
    decide +kernel
  obtain ⟨k, hk, hn⟩ := requested_playFor n
  rw [hn, hopen k hk]

theorem newcomer_calls_agree :
    Connected newcomer 0 ∧ Undisturbed requested 0 (fun _ => .serve) ∧
      Fair requested (fun _ => .serve) ∧
      ∃ n k, Returned requested 0 (.request firstLine) (fun _ => .serve) n k := by
  have hplayed : Played Chips.twoLines 0 newcomer := ⟨_, rfl⟩
  have hbefore : Played Chips.twoLines 0 (start Chips.twoLines 0).step :=
    (Played.start Chips.twoLines 0).step
  have hconnected : Connected newcomer 0 :=
    connected_connect hbefore.coherent (.usual ⟨0, 0, ""⟩) (by decide +kernel) (by decide +kernel)
      (by decide +kernel) (by decide +kernel)
  have htimeout : Client.defaultTimeout ≠ 0 := by decide
  obtain ⟨-, -, hlive⟩ := hplayed.calls_agree hconnected (.request firstLine) htimeout
    requested_undisturbed
  exact ⟨hconnected, requested_undisturbed, requested_fair, hlive requested_fair⟩

end Calling

section Settling

/-- What has become ready is listed once. -/
theorem refresh_refresh (l : Loop) : l.refresh.refresh = l.refresh := by
  have hkept : l.refresh.ready.filter l.server.watched.contains = l.refresh.ready := by
    refine List.filter_eq_self.mpr fun t ht => ?_
    rw [List.contains_eq_mem, decide_eq_true_eq]
    unfold refresh at ht
    rcases List.mem_append.mp ht with hold | hnew
    · simpa using (List.mem_filter.mp hold).2
    · exact List.mem_of_mem_filter hnew
  have hfresh : (l.server.watched.filter fun t =>
      isReady l.server t && !l.refresh.ready.contains t) = [] := by
    refine List.filter_eq_nil_iff.mpr fun t ht hboth => ?_
    rw [Bool.and_eq_true] at hboth
    have hlisted := mem_refresh ht hboth.1
    rw [List.contains_eq_mem, decide_eq_true hlisted] at hboth
    cases hboth.2
  show ({ l.refresh with
    ready := l.refresh.ready.filter l.server.watched.contains ++
      l.server.watched.filter fun t => isReady l.server t &&
        !(l.refresh.ready.filter l.server.watched.contains).contains t } : Loop) = l.refresh
  rw [hkept, hfresh, List.append_nil]

/-- A server that settles takes some steps. -/
theorem settleFor_eq_playFor (n : Nat) (l : Loop) :
    ∃ k, settleFor n l = l.playFor (fun _ => .serve) k := by
  induction n generalizing l with
  | zero => exact ⟨0, rfl⟩
  | succ n ih =>
      cases hsettled : l.isSettled with
      | true =>
          refine ⟨0, ?_⟩
          rw [settleFor, hsettled]
          rfl
      | false =>
          obtain ⟨k, hk⟩ := ih l.step
          refine ⟨k + 1, ?_⟩
          rw [settleFor, hsettled, if_neg Bool.false_ne_true, hk, playFor, playFor, Action.first,
            Action.first, List.map_const', List.map_const', List.length_range, List.length_range,
            List.replicate_succ]
          rfl

/-- How long a client waits makes no difference to what it gets. -/
theorem awaitReply_fst (l : Loop) (timeout i : Nat) :
    (l.awaitReply timeout i).1 = l.replyAt i := by
  cases hlink : l.server.net.links[i]? with
  | none => simp only [awaitReply, onLink, replyAt, hlink]
  | some a =>
      simp only [awaitReply, onLink, replyAt, hlink]
      generalize Client.takeReply a = taken
      obtain ⟨e | reply, rest⟩ := taken
      · cases e <;> rfl
      · rfl

/-- What a client's call gives is the result of the call when the server has settled. -/
theorem Connected.call_eq (h : Connected l i) (c : Client.Call) (htimeout : timeout ≠ 0) :
    ∃ n, (l.call timeout i c).1 =
      ((l.act (.send i c.message.encode)).playFor (fun _ => .serve) n).resultOf i c := by
  obtain ⟨origin, hlink, hsends, -⟩ := h.sends htimeout c.message
  set asked := l.act (.send i c.message.encode) with hasked
  have hposted : l.post timeout i c.message = (.ok (), asked.settle) := by
    have hnet : (l.server.net.modify i fun _ => Link.carrying origin [] c.message.encode) =
        l.server.net.after (.send i c.message.encode) := by
      rw [after_of_link? (a := .send i c.message.encode) _ rfl, ← Net.set_eq_modify _ hlink,
        ← Net.set_eq_modify _ hlink]
      rfl
    simp only [post, onLink, hlink, hsends, hnet]
    rfl
  obtain ⟨n, hn⟩ := settleFor_eq_playFor asked.refresh.patience asked
  have hsettle : asked.settle = asked.playFor (fun _ => .serve) n := by
    have hrefresh : asked.refresh = asked := refresh_refresh _
    rw [← hn, settle, hrefresh]
  refine ⟨n, ?_⟩
  rw [← hsettle]
  simp only [call, hposted, awaitReply_fst, resultOf]

/-- So it is a timeout, or the result agrees with the server that handled the message. -/
theorem Connected.call_outcome (h : Connected l i) (hl : Played chips period l)
    (c : Client.Call) (htimeout : timeout ≠ 0)
    (hquiet : Undisturbed (l.act (.send i c.message.encode)) i fun _ => .serve) :
    (l.call timeout i c).1 = .error .timeout ∨
      ∃ k, Agrees ((l.act (.send i c.message.encode)).playFor (fun _ => .serve) k) c
        (l.call timeout i c).1 := by
  obtain ⟨n, hn⟩ := h.call_eq c htimeout
  rw [hn]
  rcases hquiet.outcome (hl.act _) (h.sent _) n with hpending | ⟨k, hreturned⟩
  · exact .inl hpending
  · exact .inr ⟨k, hreturned.agrees⟩

end Settling

end Loop
end LineKeeper
