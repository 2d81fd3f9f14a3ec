import LineKeeper.Proofs.Coherence
import LineKeeper.Proofs.Interchange

/-!
# Two clients heard in either order

A message from a client is read, carried out and answered, and all of that happens on the
client's own link (`Server.Answers`).  So a second client is heard as before, and what becomes of
the two links, of the sessions and of what is watched is the same in either order.

**The order of messages.**  Together with what independent messages do to the books this says
that two clients can be heard in either order, without any difference but the names of what is
granted.

**Results.**
* `Server.answers_handle`: what hearing a client does to the clients.
* `Loop.Played.commutes`: independent messages commute, both as they are carried out and as
  events.
-/

namespace LineKeeper

namespace Net

variable {net : Net} {i j : Nat} {f g : Link → Link}

/-- The link after a message was sent over it by the server: a link that does not deliver is
closed. -/
def answer (m : Message) (l : Link) : Link :=
  if delivers l then delivered l m.encode else l.close .server

/-- The link after a message was read from it and answered. -/
def served (m : Message) (l : Link) : Link :=
  answer m (l.take .server frameSize).2

theorem modify_modify (net : Net) (i : Nat) (f g : Link → Link) :
    (net.modify i f).modify i g = net.modify i (g ∘ f) := by
  simp only [modify, List.modify_modify_eq]

theorem modify_comm (net : Net) (hne : i ≠ j) (f g : Link → Link) :
    (net.modify i f).modify j g = (net.modify j g).modify i f := by
  simp only [modify, List.modify_modify_ne _ _ _ hne]

theorem modify_congr (h : ∀ l, net.links[i]? = some l → f l = g l) :
    net.modify i f = net.modify i g := by
  simp only [modify, List.modify_eq_set_getElem?]
  cases hl : net.links[i]? with
  | none => rfl
  | some l => simp [h l hl]

end Net

namespace Sessions

theorem remove_comm {σ : Type} (s : Sessions σ) (a b : ClientId) :
    (s.remove a).remove b = (s.remove b).remove a := by
  simp only [remove, List.filter_filter, Bool.and_comm]

end Sessions

namespace Server

open Loop (linkOf?)

variable {s t u : Server} {a b client : ClientId} {session : Session} {x y r m : Message}
  {e ea eb : Readiness} {l : Link}

section Answers

theorem writable_eq (hs : s.sessions.get? client = some session)
    (hl : s.net.links[session.link]? = some l) : s.writable client = Net.delivers l := by
  rw [writable, linkOf?_of_get? hs, Option.any_some, hl, Option.any_some]

theorem net_reply (hs : s.sessions.get? client = some session) (m : Message) :
    (s.reply client m).net = s.net.modify session.link (Net.answer m) := by
  cases hw : s.writable client with
  | true =>
      rw [reply_of_writable hs hw]
      refine Net.modify_congr fun l hl => ?_
      rw [Net.answer, if_pos ((writable_eq hs hl).symm.trans hw)]
  | false =>
      have hlog : (s.log (.sendFailed (s.refusal client))).sessions.get? client = some session := hs
      rw [reply_of_not_writable hs hw, dropClient, hlog]
      refine Net.modify_congr fun l hl => ?_
      rw [Net.answer, if_neg]
      rw [← writable_eq hs hl, hw]
      exact Bool.false_ne_true

theorem watched_reply (hs : s.sessions.get? client = some session) (m : Message) :
    (s.reply client m).watched = if s.writable client then s.watched
      else s.watched.filter (· ≠ (Receiver.client client).token) := by
  cases hw : s.writable client with
  | true =>
      rw [reply_of_writable hs hw]
      rfl
  | false =>
      have hlog : (s.log (.sendFailed (s.refusal client))).sessions.get? client = some session := hs
      rw [reply_of_not_writable hs hw, dropClient, hlog]
      rfl

/-- What reading `x` from a client and answering it with `r` does to the clients: all of it
happens on the client's own link, and the session is ended if the answer cannot be sent. -/
structure Answers (s : Server) (client : ClientId) (session : Session) (x r : Message)
    (t : Server) : Prop where
  sessions : t.sessions = if s.writable client then s.sessions else s.sessions.remove client
  watched : t.watched = if s.writable client then s.watched
    else s.watched.filter (· ≠ (Receiver.client client).token)
  net : t.net = s.net.modify session.link (Net.served r)
  stop : t.stop = s.stop
  signals : t.signals = s.signals
  timer : SameTimer s t
  talk : t.talk = s.talk ++ [(client, .heard (.ok x)), (client, s.turnFor client r)]

/-- A client is heard: what it asks for is carried out, and it is answered. -/
theorem answers_handle
    (hfresh : s.requests.get? (RequestId.numbered (s.requests.issued + 1)) = none)
    (hx : x.IsOrder) (h : s.hears? e = some (client, .ok x)) :
    ∃ session r, s.sessions.get? client = some session ∧ s.respond x = some r ∧
      Books s session.peer.pid x r (s.handle e) ∧
      Answers s client session x r (s.handle e) := by
  obtain ⟨session, hs, hhandle⟩ := handle_of_hears? h
  obtain ⟨r, hr, hbooks⟩ := books_carryOut (s := s.afterReading client session (.ok x)) hfresh
    client session.peer hx
  obtain ⟨v, r', hsame, hr', hcarry⟩ :=
    (s.afterReading client session (.ok x)).carryOut_eq_reply client session.peer hx
  obtain rfl : r = r' := Option.some_inj.mp (hr.symm.trans hr')
  have htimer := (s.afterReading client session (.ok x)).sameTimer_carryOut client session.peer hx
  have hv : v.sessions.get? client = some session := by
    rw [hsame.sessions]
    exact hs
  have hwritable : v.writable client = s.writable client := by
    rw [hsame.writable, writable_afterReading hs]
  refine ⟨session, r, hs, hr, ?_, ?_⟩
  · rw [hhandle]
    cases hbooks with
    | refused spec e hverdict h => exact .refused spec e hverdict ⟨h.1, h.2, h.3, h.4⟩
    | granted spec hverdict h => exact .granted spec hverdict ⟨h.1, h.2, h.3, h.4⟩
    | unknown id hnone h => exact .unknown id hnone ⟨h.1, h.2, h.3, h.4⟩
    | gaveBack id held hget h => exact .gaveBack id held hget ⟨h.1, h.2, h.3, h.4⟩
  · rw [hhandle]
    constructor
    case sessions =>
      rw [hcarry, sessions_reply hv, hwritable, hsame.sessions]
      rfl
    case watched =>
      rw [hcarry, watched_reply hv, hwritable, hsame.watched]
      rfl
    case net =>
      rw [hcarry, net_reply hv, hsame.net]
      show (s.netAfter session).modify _ _ = _
      rw [netAfter_eq, Net.modify_modify]
      rfl
    case stop =>
      rw [hcarry, stop_reply, hsame.stop]
      rfl
    case signals =>
      rw [hcarry, (confined_reply v client r).signals, hsame.signals]
      rfl
    case timer => exact ⟨htimer.idle, htimer.now⟩
    case talk =>
      have hturn : v.turnFor client r = s.turnFor client r := by
        rw [turnFor, hwritable, turnFor]
      rw [hcarry, talk_reply hv, hsame.talk, hturn, talk_afterReading, List.append_assoc]
      rfl

/-- Another client stays as it is. -/
theorem Answers.others (h : Answers s a session x r t) (hs : s.sessions.get? a = some session)
    (hapart : s.linksInUse.Nodup) (hne : b ≠ a) :
    t.sessions.get? b = s.sessions.get? b ∧
      ∀ k, linkOf? s b = some k → t.net.links[k]? = s.net.links[k]? := by
  constructor
  · rw [h.sessions]
    split
    · rfl
    · exact Sessions.get?_remove_of_ne hne
  · intro k hk
    rw [h.net]
    refine Net.links_modify_of_ne _ ?_
    rintro rfl
    exact linkOf?_ne_of_apart hapart hs hne hk

/-- So it is heard as before, and can be answered as before. -/
theorem Answers.hears? (h : Answers s a session x r t) (hs : s.sessions.get? a = some session)
    (hapart : s.linksInUse.Nodup) (hne : b ≠ a) (hb : s.hears? eb = some (b, .ok y)) :
    t.hears? eb = some (b, .ok y) := by
  obtain ⟨htoken, session', bytes, hs', htaken, hr⟩ := eq_of_hears? hb
  obtain ⟨hget, hlinks⟩ := h.others hs hapart hne
  rw [hears?_client htoken (hget.trans hs'), hr]
  have hsame : (t.net.take session'.link .server frameSize).1 =
      (s.net.take session'.link .server frameSize).1 := by
    rw [Net.take_eq, Net.take_eq, hlinks _ (linkOf?_of_get? hs')]
  rw [hsame, htaken]

theorem Answers.writable (h : Answers s a session x r t) (hs : s.sessions.get? a = some session)
    (hapart : s.linksInUse.Nodup) (hne : b ≠ a) : t.writable b = s.writable b := by
  obtain ⟨hget, hlinks⟩ := h.others hs hapart hne
  have hlink : linkOf? t b = linkOf? s b := by rw [linkOf?, hget, linkOf?]
  rw [Server.writable, Server.writable, hlink]
  cases hk : linkOf? s b with
  | none => rfl
  | some k => rw [Option.any_some, Option.any_some, hlinks k hk]

end Answers

section Orders

/-- What is left is the same. -/
structure Alike (t u : Server) : Prop where
  sessions : t.sessions = u.sessions
  watched : t.watched = u.watched
  stop : t.stop = u.stop
  signals : t.signals = u.signals
  timer : SameTimer t u

/-- Two clients are heard, `a` first in `t` and `b` first in `u`: each is served on its own link,
and nothing else about the clients differs. -/
structure ServesBoth (s : Server) (a b : ClientId) (x y ra rb ra' rb' : Message) (t u : Server) :
    Prop where
  alike : Alike t u
  links : ∃ ka kb, linkOf? s a = some ka ∧ linkOf? s b = some kb ∧ ka ≠ kb ∧
    t.net = (s.net.modify ka (Net.served ra)).modify kb (Net.served rb) ∧
    u.net = (s.net.modify ka (Net.served ra')).modify kb (Net.served rb')
  first : t.talk = s.talk ++ [(a, .heard (.ok x)), (a, s.turnFor a ra),
    (b, .heard (.ok y)), (b, s.turnFor b rb)]
  second : u.talk = s.talk ++ [(b, .heard (.ok y)), (b, s.turnFor b rb'),
    (a, .heard (.ok x)), (a, s.turnFor a ra')]

/-- The order in which two clients are served does not matter to the clients. -/
theorem servesBoth {session session' : Session} {ra rb ra' rb' : Message} {s₁ s₂ : Server}
    (hapart : s.linksInUse.Nodup) (hne : a ≠ b) (ha : s.sessions.get? a = some session)
    (hb : s.sessions.get? b = some session')
    (h₁ : Answers s a session x ra s₁) (ht : Answers s₁ b session' y rb t)
    (h₂ : Answers s b session' y rb' s₂) (hu : Answers s₂ a session x ra' u) :
    ServesBoth s a b x y ra rb ra' rb' t u := by
  have hwb : s₁.writable b = s.writable b := h₁.writable ha hapart hne.symm
  have hwa : s₂.writable a = s.writable a := h₂.writable hb hapart hne
  have hlinks : session.link ≠ session'.link := by
    intro heq
    exact linkOf?_ne_of_apart hapart ha hne.symm (heq ▸ linkOf?_of_get? hb)
  refine ⟨⟨?_, ?_, ?_, ?_, ?_⟩, ⟨session.link, session'.link, linkOf?_of_get? ha,
    linkOf?_of_get? hb, hlinks, ?_, ?_⟩, ?_, ?_⟩
  · rw [ht.sessions, h₁.sessions, hu.sessions, h₂.sessions, hwa, hwb]
    cases s.writable a <;> cases s.writable b
    · exact Sessions.remove_comm _ _ _
    all_goals rfl
  · rw [ht.watched, h₁.watched, hu.watched, h₂.watched, hwa, hwb]
    cases s.writable a <;> cases s.writable b
    · simp only [Bool.false_eq_true, if_false, List.filter_filter, Bool.and_comm]
    all_goals rfl
  · rw [ht.stop, h₁.stop, hu.stop, h₂.stop]
  · rw [ht.signals, h₁.signals, hu.signals, h₂.signals]
  · have hleft := h₁.timer.trans ht.timer
    have hright := h₂.timer.trans hu.timer
    exact ⟨hright.idle.trans hleft.idle.symm, hright.now.trans hleft.now.symm⟩
  · rw [ht.net, h₁.net]
  · rw [hu.net, h₂.net, Net.modify_comm _ hlinks.symm]
  · have hturn : s₁.turnFor b rb = s.turnFor b rb := by rw [turnFor, hwb, turnFor]
    rw [ht.talk, h₁.talk, hturn, List.append_assoc]
    rfl
  · have hturn : s₂.turnFor a ra' = s.turnFor a ra' := by rw [turnFor, hwa, turnFor]
    rw [hu.talk, h₂.talk, hturn, List.append_assoc]
    rfl

/-- Two messages, `x` first in `t` and `y` first in `u`, are answered alike and leave the same lines
held and the same records, but for the names of what is granted. -/
structure Agrees (s : Server) (x y ra rb : Message) (s₁ t s₂ u : Server) : Prop where
  first : s.respond x = some ra
  second : s₁.respond y = some rb
  secondFirst : s.respond y = some ((s.exchange x y).answer rb)
  firstSecond : s₂.respond x = some ((s.exchange x y).answer ra)
  books : SameUpTo (s.exchange x y) t u
  lines : t.device.lines.Perm u.device.lines
  contents : (t.requests.records.map fun e => (e.2.chipPath, e.2.offsets)).Perm
    (u.requests.records.map fun e => (e.2.chipPath, e.2.offsets))

/-- Two messages can be handled in either order: when they are carried out, for any clients, and
when they are heard, from two. -/
structure Commute (s : Server) (x y : Message) : Prop where
  carried : ∀ a b p q, ∃ ra rb, Agrees s x y ra rb
    (s.carryOut a p x) ((s.carryOut a p x).carryOut b q y)
    (s.carryOut b q y) ((s.carryOut b q y).carryOut a p x)
  heard : ∀ ea eb a b, a ≠ b → s.hears? ea = some (a, .ok x) → s.hears? eb = some (b, .ok y) →
    (s.handle ea).hears? eb = some (b, .ok y) ∧ (s.handle eb).hears? ea = some (a, .ok x) ∧
    ∃ ra rb, Agrees s x y ra rb
        (s.handle ea) ((s.handle ea).handle eb) (s.handle eb) ((s.handle eb).handle ea) ∧
      ServesBoth s a b x y ra rb ((s.exchange x y).answer ra) ((s.exchange x y).answer rb)
        ((s.handle ea).handle eb) ((s.handle eb).handle ea)

theorem agrees_of_books {s₁ s₂ : Server} {p q : Int32} {ra rb ra' rb' : Message}
    (hbalanced : Balanced s.requests s.device) (hfresh : Fresh s) (hind : s.Independent x y)
    (hra : s.respond x = some ra) (h₁ : Books s p x ra s₁)
    (hrb : s₁.respond y = some rb) (ht : Books s₁ q y rb t)
    (hrb' : s.respond y = some rb') (h₂ : Books s q y rb' s₂)
    (hra' : s₂.respond x = some ra') (hu : Books s₂ p x ra' u) :
    ra' = (s.exchange x y).answer ra ∧ rb' = (s.exchange x y).answer rb ∧
      Agrees s x y ra rb s₁ t s₂ u := by
  obtain ⟨rfl, rfl, hbooks⟩ := interchange_of_books hbalanced hfresh hind h₁ ht h₂ hu
  exact ⟨rfl, rfl, hra, hrb, hrb', hra', hbooks, hbooks.lines, hbooks.contents⟩

/-- A record is so old that the counter of the identifiers has come around since, or does in the
next two grants. -/
def Worn (s : Server) : Prop :=
  ∃ id held, s.requests.get? id = some held ∧ held.handle + 2 ^ 64 ≤ s.device.issued + 2

theorem fresh_or_worn (hbalanced : Balanced s.requests s.device)
    (hnumbered : Numbered s.requests s.device) : Fresh s ∨ s.Worn := by
  cases hnext : s.requests.get? (RequestId.numbered (s.requests.issued + 1)) with
  | some held =>
      have hold := hnumbered.displaces_later hbalanced hnext Nat.one_pos rfl
      exact .inr ⟨_, held, hnext, by omega⟩
  | none =>
      cases hsecond : s.requests.get? (RequestId.numbered (s.requests.issued + 2)) with
      | some held =>
          exact .inr ⟨_, held, hsecond,
            hnumbered.displaces_later hbalanced hsecond Nat.two_pos rfl⟩
      | none => exact .inl ⟨hnext, hsecond⟩

theorem commute_of_independent (hbalanced : Balanced s.requests s.device) (hfresh : Fresh s)
    (hapart : s.linksInUse.Nodup) (hind : s.Independent x y) : Commute s x y := by
  obtain ⟨hx, hy⟩ := hind.isOrder
  constructor
  case carried =>
    intro a b p q
    obtain ⟨ra, hra, h₁⟩ := books_carryOut hfresh.next a p hx
    obtain ⟨rb, hrb, ht⟩ := books_carryOut (h₁.next hbalanced.sorted hfresh) b q hy
    obtain ⟨rb', hrb', h₂⟩ := books_carryOut hfresh.next b q hy
    obtain ⟨ra', hra', hu⟩ := books_carryOut (h₂.next hbalanced.sorted hfresh) a p hx
    obtain ⟨-, -, hagrees⟩ :=
      agrees_of_books hbalanced hfresh hind hra h₁ hrb ht hrb' h₂ hra' hu
    exact ⟨ra, rb, hagrees⟩
  case heard =>
    intro ea eb a b hne hxe hye
    obtain ⟨session, ra, ha, hra, h₁, hans₁⟩ := answers_handle hfresh.next hx hxe
    obtain ⟨session', rb', hb, hrb', h₂, hans₂⟩ := answers_handle hfresh.next hy hye
    have hyt := hans₁.hears? ha hapart hne.symm hye
    have hxu := hans₂.hears? hb hapart hne hxe
    obtain ⟨session₁, rb, hb₁, hrb, ht, hanst⟩ :=
      answers_handle (h₁.next hbalanced.sorted hfresh) hy hyt
    obtain ⟨session₂, ra', ha₂, hra', hu, hansu⟩ :=
      answers_handle (h₂.next hbalanced.sorted hfresh) hx hxu
    -- neither client's session was touched by the other one's message
    obtain rfl : session' = session₁ := Option.some_inj.mp
      (hb.symm.trans ((hans₁.others ha hapart hne.symm).1.symm.trans hb₁))
    obtain rfl : session = session₂ := Option.some_inj.mp
      (ha.symm.trans ((hans₂.others hb hapart hne).1.symm.trans ha₂))
    obtain ⟨rfl, rfl, hagrees⟩ :=
      agrees_of_books hbalanced hfresh hind hra h₁ hrb ht hrb' h₂ hra' hu
    exact ⟨hyt, hxu, ra, rb, hagrees, servesBoth hapart hne ha hb hans₁ hanst hans₂ hansu⟩

end Orders

end Server

namespace Loop

open Server

variable {l : Loop} {chips : Chips} {period : Nat} {x y : Message}

/-- **Independent messages commute** in every state that a server comes to, unless a record has
outlived `2 ^ 64` grants. -/
theorem Played.commutes (hl : Played chips period l) (hind : l.server.Independent x y) :
    l.server.Commute x y ∨ l.server.Worn := by
  have hbalanced := hl.reachable.balanced
  rcases fresh_or_worn hbalanced hl.reachable.numbered with hfresh | hworn
  · exact .inl (commute_of_independent hbalanced hfresh hl.coherent.links.apart hind)
  · exact .inr hworn

theorem isSome_lowLine : (LineSpec.new "/dev/gpiochip0" [0]).toOption.isSome = true := by
  decide +kernel

/-- A request for the first line of a chip. -/
def lowLine : LineSpec :=
  (LineSpec.new "/dev/gpiochip0" [0]).toOption.get isSome_lowLine

theorem isSome_highLine : (LineSpec.new "/dev/gpiochip0" [1]).toOption.isSome = true := by
  decide +kernel

/-- A request for its second line. -/
def highLine : LineSpec :=
  (LineSpec.new "/dev/gpiochip0" [1]).toOption.get isSome_highLine

/-- Two clients have sent these requests. -/
def rivals : Loop :=
  (start Chips.twoLines 0).play
    [.serve, .connect (.usual ⟨0, 0, ""⟩), .connect (.usual ⟨0, 0, ""⟩), .serve, .serve, .serve,
      .serve, .serve, .serve, .send 0 (Message.request lowLine).encode,
      .send 1 (Message.request highLine).encode]

/-- Whoever is heard first gets the first identifier. -/
theorem rivals_commutes :
    rivals.server.hears? ⟨16, false⟩ = some (⟨0⟩, .ok (.request lowLine)) ∧
      rivals.server.hears? ⟨17, false⟩ = some (⟨1⟩, .ok (.request highLine)) ∧
      ((rivals.server.handle ⟨16, false⟩).handle ⟨17, false⟩).requests.records.map
        (fun e => (e.1, e.2.offsets)) = [(RequestId.numbered 1, [0]), (RequestId.numbered 2, [1])] ∧
      ((rivals.server.handle ⟨17, false⟩).handle ⟨16, false⟩).requests.records.map
        (fun e => (e.1, e.2.offsets)) = [(RequestId.numbered 1, [1]), (RequestId.numbered 2, [0])] ∧
      rivals.server.Commute (.request lowLine) (.request highLine) := by
  have hplayed : Played Chips.twoLines 0 rivals := ⟨_, rfl⟩
  have hind : rivals.server.Independent (.request lowLine) (.request highLine) := by
    refine .requests _ _ fun line hlow hhigh => ?_
    have hlines : ∀ line ∈ lowLine.lines, line ∉ highLine.lines := by decide +kernel
    exact hlines line hlow hhigh
  have hnone : ∀ id, rivals.server.requests.get? id = none := by
    intro id
    have hrecords : rivals.server.requests.records = [] := by decide +kernel
    rw [Requests.get?, hrecords]
    rfl
  refine ⟨by decide +kernel, by decide +kernel, by decide +kernel, by decide +kernel, ?_⟩
  rcases Played.commutes hplayed hind with hcommute | ⟨id, held, hget, -⟩
  · exact hcommute
  · rw [hnone id] at hget
    cases hget

end Loop

end LineKeeper
