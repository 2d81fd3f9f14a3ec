import Mathlib.Data.List.Basic
import LineKeeper.Link

/-!
# What an operation does to each of the connections

Every operation on the connections is about one link, except the end of listening,
which abandons the links that wait.  For each operation this module says what then
stands at any place `j` of the list of links: the link there is changed if the
operation is about `j`, and it is the same otherwise.
-/

namespace LineKeeper
namespace Net

variable {net net' : Net} {i j n : Nat} {side : Side} {bytes : List UInt8} {l : Link}

section Modify

theorem links_modify (net : Net) (i j : Nat) (f : Link → Link) :
    (net.modify i f).links[j]? = if i = j then net.links[j]?.map f else net.links[j]? := by
  show (net.links.modify i f)[j]? = _
  rw [List.getElem?_modify]
  cases net.links[j]? with
  | none => simp
  | some l => split <;> rfl

theorem links_modify_self (f : Link → Link) (h : net.links[i]? = some l) :
    (net.modify i f).links[i]? = some (f l) := by
  rw [links_modify, if_pos rfl, h]
  rfl

theorem links_modify_of_ne (f : Link → Link) (h : j ≠ i) :
    (net.modify i f).links[j]? = net.links[j]? := by
  rw [links_modify, if_neg (Ne.symm h)]

theorem length_modify (net : Net) (i : Nat) (f : Link → Link) :
    (net.modify i f).links.length = net.links.length :=
  List.length_modify f net.links i

/-- Writing a changed link back is changing it. -/
theorem set_eq_modify (f : Link → Link) (h : net.links[i]? = some l) :
    { net with links := net.links.set i (f l) } = net.modify i f := by
  simp only [modify, List.modify_eq_set_getElem?, h]
  rfl

theorem modify_eq_self {f : Link → Link} (h : ∀ l, net.links[i]? = some l → f l = l) :
    net.modify i f = net := by
  cases hl : net.links[i]? with
  | none =>
      simp only [modify, List.modify_eq_set_getElem?, hl]
      rfl
  | some l =>
      obtain ⟨hlt, hget⟩ := List.getElem?_eq_some_iff.mp hl
      rw [← set_eq_modify f hl, h l hl, ← hget, List.set_getElem_self hlt]

/-- Where a link comes from is not changed by what keeps the origin of each link. -/
theorem originOf_modify {f : Link → Link} (hf : ∀ l, (f l).origin = l.origin) (j : Nat) :
    (net.modify i f).originOf j = net.originOf j := by
  rw [originOf, links_modify, originOf]
  split
  · rw [Option.map_map]
    exact congrArg (fun g => (net.links[j]?.map g).getD _) (funext hf)
  · rfl

theorem originOf_congr (h : net'.links[j]? = net.links[j]?) : net'.originOf j = net.originOf j := by
  rw [originOf, h, originOf]

/-- An attempt to accept a link that has failed is one failure less ahead of it. -/
theorem originOf_retried (net : Net) (i : Nat) :
    ((net.modify i Link.retried).originOf i).failures = (net.originOf i).failures.tail := by
  rw [originOf, links_modify, if_pos rfl, originOf]
  cases net.links[i]? <;> rfl

end Modify

section Take

/-- Taking at one end of a link changes this link only. -/
theorem take_eq (net : Net) (i n : Nat) (side : Side) :
    net.take i side n =
      ((net.links[i]?.map fun l => (l.take side n).1).getD .ended,
        net.modify i fun l => (l.take side n).2) := by
  cases h : net.links[i]? with
  | none =>
      have hsame : (net.modify i fun l => (l.take side n).2) = net := by
        refine modify_eq_self fun l hl => ?_
        rw [h] at hl
        cases hl
      rw [hsame]
      simp only [take, h]
      rfl
  | some l =>
      rw [← set_eq_modify _ h]
      simp only [take, h]
      rfl

theorem take_fst_of_some (h : net.links[i]? = some l) :
    (net.take i side n).1 = (l.take side n).1 := by
  rw [take_eq, h]
  rfl

end Take

section Send

/-- A link over which bytes from the server reach the client. -/
def delivers (l : Link) : Bool :=
  l.client.isOpen && l.server.sends && !l.isFull .server

/-- The link after bytes from the server have reached the client. -/
def delivered (l : Link) (bytes : List UInt8) : Link :=
  { l with client := { l.client with inbox := l.client.inbox ++ bytes } }

/-- The link after bytes from the client have reached the server. -/
def arrived (l : Link) (bytes : List UInt8) : Link :=
  { l with server := { l.server with inbox := l.server.inbox ++ bytes } }

theorem delivers_iff :
    delivers l = true ↔ l.client.isOpen = true ∧ l.server.sends = true ∧
      l.client.inbox.length ≤ l.origin.room := by
  simp [delivers, Link.isFull, and_assoc]

theorem send_server_of_delivers (h : net.links[i]? = some l) (hl : delivers l = true) :
    net.send i .server bytes = .ok (net.modify i fun l => delivered l bytes) := by
  rw [delivers, Bool.and_eq_true, Bool.not_eq_true'] at hl
  have hsend : l.send .server bytes = .ok (delivered l bytes) :=
    (if_pos hl.1).trans (if_neg (by rw [hl.2]; exact Bool.false_ne_true))
  rw [← set_eq_modify _ h]
  simp only [send, h, hsend]

/-- Why bytes from the server are refused: the client is there and too much waits for it, or it is
gone. -/
def refusal (net : Net) (i : Nat) : Errno :=
  if net.links[i]?.any fun l => l.client.isOpen && l.server.sends then Errno.again
  else Errno.brokenPipe

theorem send_server_of_not_delivers (h : net.links[i]?.any delivers = false) :
    net.send i .server bytes = .error (net.refusal i) := by
  cases hl : net.links[i]? with
  | none =>
      simp only [send, refusal, hl]
      rfl
  | some l =>
      rw [hl, Option.any_some, delivers] at h
      by_cases hopen : (l.client.isOpen && l.server.sends) = true
      · rw [hopen, Bool.true_and, Bool.not_eq_false'] at h
        have hsend : l.send .server bytes = .error Errno.again :=
          (if_pos hopen).trans (if_pos h)
        simp only [send, refusal, hl, hsend, Option.any_some, hopen, if_true]
      · have hsend : l.send .server bytes = .error Errno.brokenPipe := if_neg hopen
        simp only [send, refusal, hl, hsend, Option.any_some, if_neg hopen]

theorem send_client_of_open (h : net.links[i]? = some l)
    (hl : (l.server.isOpen && l.client.sends) = true) :
    net.send i .client bytes = .ok (net.modify i fun l => arrived l bytes) := by
  have hsend : l.send .client bytes = .ok (arrived l bytes) :=
    (if_pos hl).trans (if_neg Bool.false_ne_true)
  rw [← set_eq_modify _ h]
  simp only [send, h, hsend]

/-- Bytes that a client can send arrive at the server's end of its link. -/
theorem eq_of_send_client (h : net.send i .client bytes = .ok net') :
    ∃ l, net.links[i]? = some l ∧ (l.server.isOpen && l.client.sends) = true ∧
      net' = net.modify i fun l => arrived l bytes := by
  cases hl : net.links[i]? with
  | none =>
      simp only [send, hl] at h
      cases h
  | some l =>
      by_cases hopen : (l.server.isOpen && l.client.sends) = true
      · rw [send_client_of_open hl hopen] at h
        exact ⟨l, rfl, hopen, (Except.ok.inj h).symm⟩
      · have hsend : l.send .client bytes = .error Errno.brokenPipe :=
          if_neg hopen
        simp only [send, hl, hsend] at h
        cases h

end Send

section StopListening

theorem links_abandon (links : List Link) {waiting : List Nat} (h : j ∉ waiting) :
    (waiting.foldl (fun links i => links.modify i Link.abandon) links)[j]? = links[j]? := by
  induction waiting generalizing links with
  | nil => rfl
  | cons i waiting ih =>
      rw [List.mem_cons, not_or] at h
      rw [List.foldl_cons, ih _ h.2, List.getElem?_modify_ne _ _ (Ne.symm h.1)]

theorem length_abandon (links : List Link) (waiting : List Nat) :
    (waiting.foldl (fun links i => links.modify i Link.abandon) links).length = links.length := by
  induction waiting generalizing links with
  | nil => rfl
  | cons i waiting ih => rw [List.foldl_cons, ih, List.length_modify]

/-- A link that does not wait is not touched when the server stops listening. -/
theorem links_stopListening (h : j ∉ net.waiting) :
    net.stopListening.links[j]? = net.links[j]? :=
  links_abandon net.links h

theorem length_stopListening (net : Net) :
    net.stopListening.links.length = net.links.length :=
  length_abandon net.links net.waiting

end StopListening

end Net
end LineKeeper
