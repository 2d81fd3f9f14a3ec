import Mathlib.Data.List.Induction
import Mathlib.Data.List.Nodup
import LineKeeper.Proofs.Registry

/-!
# The table of held requests over its whole history

A table starts empty and is used by insertions, removals and drains, in any order.  What
it should hold can be read off the history alone: a record is `Live` under an identifier
if it was inserted under it, and since then the identifier was not removed and the table
not drained.

**Invariant.** As long as fewer than `2 ^ 64` records were inserted, the counter is the
number of insertions, the `k`th insertion has given the identifier with the number `k`,
and the records of the table are the live ones (`tracks_after`).

**Result.** `faithful`: every use of such a table gives what its history says.
-/

namespace LineKeeper
namespace Requests

variable {η : Type}

section Uses

/-- A use of the table. -/
inductive Use (η : Type)
  | insert (r : Held η)
  | remove (id : RequestId)
  | drain

/-- What a use gives: a new identifier, the record that was removed, or all records. -/
inductive Yield (η : Type)
  | given (id : RequestId)
  | taken (found : Option (Held η))
  | drained (es : List (RequestId × Held η))

/-- Is the use an insertion? -/
def Use.isInsert : Use η → Bool
  | .insert _ => true
  | _ => false

/-- The identifier that was given. -/
def Yield.given? : Yield η → Option RequestId
  | .given id => some id
  | _ => none

/-- What a use gives, and the table after it. -/
def use (s : Requests η) : Use η → Yield η × Requests η
  | .insert r => (.given (s.insert r).1, (s.insert r).2)
  | .remove id => (.taken (s.get? id), s.remove id)
  | .drain => (.drained s.drain.1, s.drain.2)

/-- The table after some uses of an empty one. -/
def after (us : List (Use η)) : Requests η :=
  us.foldl (fun s u => (s.use u).2) empty

/-- What a use gives after some others. -/
def yield (us : List (Use η)) (u : Use η) : Yield η :=
  ((after us).use u).1

/-- What some uses of a table give, in order. -/
def yields (s : Requests η) : List (Use η) → List (Yield η)
  | [] => []
  | u :: us => (s.use u).1 :: (s.use u).2.yields us

/-- The identifiers that some uses of an empty table give, in order. -/
def given (us : List (Use η)) : List RequestId :=
  (empty.yields us).filterMap Yield.given?

/-- The number of insertions. -/
def insertions (us : List (Use η)) : Nat :=
  us.countP Use.isInsert

/-- The record was inserted under the identifier, which was not removed since, and the table was
not drained. -/
def Live (us : List (Use η)) (id : RequestId) (r : Held η) : Prop :=
  ∃ before later, us = before ++ .insert r :: later ∧ yield before (.insert r) = .given id ∧
    .remove id ∉ later ∧ .drain ∉ later

variable {us before : List (Use η)} {u : Use η} {id : RequestId} {r : Held η}

@[simp] theorem after_nil : after ([] : List (Use η)) = empty := rfl

theorem after_concat (us : List (Use η)) (u : Use η) :
    after (us ++ [u]) = ((after us).use u).2 :=
  List.foldl_append

theorem yields_concat (s : Requests η) (us : List (Use η)) (u : Use η) :
    s.yields (us ++ [u]) = s.yields us ++ [((us.foldl (fun s u => (s.use u).2) s).use u).1] := by
  induction us generalizing s with
  | nil => rfl
  | cons v us ih =>
      rw [List.cons_append, yields, yields, ih, List.cons_append, List.foldl_cons]

theorem given_concat (us : List (Use η)) (u : Use η) :
    given (us ++ [u]) = given us ++ (yield us u).given?.toList := by
  rw [given, yields_concat, List.filterMap_append, given]
  rfl

theorem insertions_concat (us : List (Use η)) (u : Use η) :
    insertions (us ++ [u]) = insertions us + if u.isInsert then 1 else 0 := by
  rw [insertions, List.countP_append, List.countP_singleton, insertions]

/-- A history has at least as many insertions as what came before. -/
theorem insertions_le_of_append {later : List (Use η)} (h : us = before ++ later) :
    insertions before ≤ insertions us := by
  rw [h, insertions, insertions, List.countP_append]
  exact Nat.le_add_right _ _

theorem not_live_nil : ¬ Live [] id r := by
  rintro ⟨before, later, hsplit, -⟩
  cases before <;> cases hsplit

/-- A use leaves the other records alive, and an insertion adds one. -/
theorem live_concat : Live (us ++ [u]) id r ↔
    Live us id r ∧ u ≠ .remove id ∧ u ≠ .drain ∨ u = .insert r ∧ yield us u = .given id := by
  constructor
  · rintro ⟨before, later, hsplit, hgiven, hremove, hdrain⟩
    rcases List.eq_nil_or_concat later with rfl | ⟨later, v, rfl⟩
    · obtain ⟨rfl, hu⟩ := List.append_inj' hsplit rfl
      obtain rfl := (List.cons.inj hu).1
      exact .inr ⟨rfl, hgiven⟩
    · rw [List.concat_eq_append, ← List.cons_append, ← List.append_assoc] at hsplit
      obtain ⟨rfl, hv⟩ := List.append_inj' hsplit rfl
      obtain rfl := (List.cons.inj hv).1
      rw [List.concat_eq_append, List.mem_append, List.mem_singleton, not_or] at hremove hdrain
      exact .inl ⟨⟨before, later, rfl, hgiven, hremove.1, hdrain.1⟩, Ne.symm hremove.2,
        Ne.symm hdrain.2⟩
  · rintro (⟨⟨before, later, rfl, hgiven, hremove, hdrain⟩, hnotRemove, hnotDrain⟩ | ⟨rfl, hgiven⟩)
    · refine ⟨before, later ++ [u], ?_, hgiven, ?_, ?_⟩
      · rw [List.append_assoc, List.cons_append]
      · rw [List.mem_append, List.mem_singleton, not_or]
        exact ⟨hremove, Ne.symm hnotRemove⟩
      · rw [List.mem_append, List.mem_singleton, not_or]
        exact ⟨hdrain, Ne.symm hnotDrain⟩
    · exact ⟨us, [], rfl, hgiven, List.not_mem_nil, List.not_mem_nil⟩

theorem live_insert {q : Held η} :
    Live (us ++ [.insert q]) id r ↔ Live us id r ∨ q = r ∧ ((after us).insert q).1 = id := by
  rw [live_concat]
  simp [yield, use]

theorem live_remove {other : RequestId} :
    Live (us ++ [.remove other]) id r ↔ Live us id r ∧ other ≠ id := by
  rw [live_concat]
  simp

theorem not_live_drain : ¬ Live (us ++ [.drain]) id r := by
  rw [live_concat]
  simp

end Uses

section Tracking

/-- The identifier that the `k`th insertion gives. -/
def nth (k : Nat) : RequestId :=
  RequestId.numbered (UInt64.ofNat k)

theorem nth_injOn {j k : Nat} (hj : j < 2 ^ 64) (hk : k < 2 ^ 64) (h : nth j = nth k) : j = k := by
  have hnumber := congrArg UInt64.toNat (RequestId.numbered_injective h)
  rwa [UInt64.toNat_ofNat', UInt64.toNat_ofNat', Nat.mod_eq_of_lt hj, Nat.mod_eq_of_lt hk]
    at hnumber

/-- The name made for the `k`th insertion is the identifier that it gives. -/
theorem ofString_nth {k : Nat} (hk : k < 2 ^ 64) :
    RequestId.ofString ("req-" ++ toString k) = .ok (nth k) := by
  have htext : RequestId.numberedText (UInt64.ofNat k) = "req-" ++ toString k := by
    rw [RequestId.numberedText, UInt64.toNat_ofNat', Nat.mod_eq_of_lt hk]
  rw [← htext]
  exact RequestId.ofString_numberedText _

/-- The table is what the history says. -/
structure Tracks (us : List (Use η)) (s : Requests η) : Prop where
  sorted : s.Sorted
  counter : s.issued = UInt64.ofNat (insertions us)
  given : given us = (List.range (insertions us)).map fun k => nth (k + 1)
  named : ∀ id r, Live us id r → ∃ k < insertions us, id = nth (k + 1)
  records : ∀ id r, (id, r) ∈ s.records ↔ Live us id r

/-- An insertion gives the identifier with the next number. -/
theorem Tracks.insert_fst {s : Requests η} (h : Tracks us s) (r : Held η) :
    (s.insert r).1 = nth (insertions us + 1) := by
  rw [Requests.insert_fst, h.counter, nth, UInt64.ofNat_add]
  rfl

/-- No live record has it. -/
theorem Tracks.fresh {s : Requests η} (h : Tracks us s) (hcount : insertions us + 1 < 2 ^ 64)
    (q r : Held η) : ¬ Live us (s.insert q).1 r := by
  intro hlive
  obtain ⟨k, hk, heq⟩ := h.named _ r hlive
  rw [h.insert_fst q] at heq
  have hsame := nth_injOn hcount (by omega) heq
  omega

theorem tracks_empty : Tracks ([] : List (Use η)) empty where
  sorted := sorted_empty
  counter := rfl
  given := rfl
  named := fun _ _ hlive => absurd hlive not_live_nil
  records := fun _ _ => ⟨fun hmem => absurd hmem List.not_mem_nil, fun hlive => absurd hlive not_live_nil⟩

theorem Tracks.insert (h : Tracks us (after us)) (q : Held η)
    (hcount : insertions us + 1 < 2 ^ 64) :
    Tracks (us ++ [.insert q]) ((after us).insert q).2 := by
  have hcounted : insertions (us ++ [.insert q]) = insertions us + 1 := insertions_concat us _
  constructor
  · exact h.sorted.insert q
  · show (after us).issued + 1 = _
    rw [hcounted, h.counter, UInt64.ofNat_add]
    rfl
  · rw [given_concat, hcounted, List.range_succ, List.map_append, h.given]
    exact congrArg (fun id => _ ++ [id]) (h.insert_fst q)
  · intro id r hlive
    rw [hcounted]
    rcases live_insert.mp hlive with hold | ⟨-, rfl⟩
    · obtain ⟨k, hk, hid⟩ := h.named id r hold
      exact ⟨k, Nat.lt_succ_of_lt hk, hid⟩
    · exact ⟨insertions us, Nat.lt_succ_self _, h.insert_fst q⟩
  · intro id r
    rw [live_insert, ← h.records id r]
    show (id, r) ∈ insertRecord _ q _ ↔ _
    rw [mem_insertRecord h.sorted, Prod.mk.injEq]
    constructor
    · rintro (⟨hid, rfl⟩ | ⟨hold, -⟩)
      · exact .inr ⟨rfl, hid.symm⟩
      · exact .inl hold
    · rintro (hold | ⟨rfl, hid⟩)
      · refine .inr ⟨hold, ?_⟩
        rintro rfl
        exact h.fresh hcount q r ((h.records _ r).mp hold)
      · exact .inl ⟨hid.symm, rfl⟩

/-- Where nothing is inserted, the counter stays, and some records go. -/
theorem Tracks.concat {t : Requests η} (h : Tracks us (after us)) (hu : u.isInsert = false)
    (hgiven : (yield us u).given? = none) (hsorted : t.Sorted)
    (hissued : t.issued = (after us).issued)
    (hlive : ∀ id r, Live (us ++ [u]) id r → Live us id r)
    (hrecords : ∀ id r, (id, r) ∈ t.records ↔ Live (us ++ [u]) id r) :
    Tracks (us ++ [u]) t := by
  have hcounted : insertions (us ++ [u]) = insertions us := by
    rw [insertions_concat, hu]
    rfl
  constructor
  · exact hsorted
  · rw [hissued, hcounted, h.counter]
  · rw [given_concat, hgiven, hcounted, h.given]
    exact List.append_nil _
  · intro id r hid
    rw [hcounted]
    exact h.named id r (hlive id r hid)
  · exact hrecords

theorem Tracks.remove (h : Tracks us (after us)) (other : RequestId) :
    Tracks (us ++ [.remove other]) ((after us).remove other) := by
  refine h.concat rfl rfl (h.sorted.remove other) rfl ?_ ?_
  · exact fun id r hlive => (live_remove.mp hlive).1
  · intro id r
    rw [live_remove, ← h.records id r, Requests.remove, List.mem_filter, decide_eq_true_eq]
    exact and_congr_right fun _ => ne_comm

theorem Tracks.drain (h : Tracks us (after us)) :
    Tracks (us ++ [.drain]) (after us).drain.2 := by
  refine h.concat rfl rfl List.Pairwise.nil rfl ?_ ?_
  · exact fun id r hlive => absurd hlive not_live_drain
  · exact fun id r => ⟨fun hmem => absurd hmem List.not_mem_nil,
      fun hlive => absurd hlive not_live_drain⟩

theorem tracks_after (us : List (Use η)) (hcount : insertions us < 2 ^ 64) :
    Tracks us (after us) := by
  induction us using List.reverseRecOn with
  | nil => exact tracks_empty
  | append_singleton us u ih =>
      have hus := ih (Nat.lt_of_le_of_lt (insertions_le_of_append rfl) hcount)
      rw [after_concat]
      cases u with
      | insert q =>
          rw [insertions_concat] at hcount
          exact hus.insert q hcount
      | remove other => exact hus.remove other
      | drain => exact hus.drain

end Tracking

section Faithful

variable {us : List (Use η)} {id : RequestId} {r : Held η}

/-- What the uses of a table give is what the history says. -/
structure Faithful (us : List (Use η)) : Prop where
  counter : (after us).issued.toNat = insertions us
  named : ∀ k < insertions us, ∃ id, (given us)[k]? = some id ∧
    RequestId.ofString ("req-" ++ toString (k + 1)) = .ok id
  apart : (given us).length = insertions us ∧ (given us).Nodup
  records : ∀ id r, (after us).get? id = some r ↔ Live us id r
  inserts : ∀ before r later, us = before ++ .insert r :: later →
    ∃ id, yield before (.insert r) = .given id ∧ (∀ old, ¬ Live before id old) ∧
      (after (before ++ [.insert r])).length = (after before).length + 1 ∧
      (after (before ++ [.insert r])).get? id = some r ∧
      ∀ other held, (after before).get? other = some held →
        (after (before ++ [.insert r])).get? other = some held
  removes : ∀ before id later, us = before ++ .remove id :: later →
    ∃ found, yield before (.remove id) = .taken found ∧
      ∀ r, found = some r ↔ Live before id r
  drains : ∀ before later, us = before ++ .drain :: later →
    ∃ es, yield before .drain = .drained es ∧
      (∀ id r, (id, r) ∈ es ↔ Live before id r) ∧
      es.Pairwise (fun a b => a.1.bytes < b.1.bytes) ∧
      (after (before ++ [.drain])).isEmpty = true ∧
      (after (before ++ [.drain])).issued = (after before).issued

/-- An insertion under a new identifier makes the table longer by one. -/
theorem length_insert_of_none {s : Requests η} (h : s.Sorted) (r : Held η)
    (hnone : s.get? (s.insert r).1 = none) : (s.insert r).2.length = s.length + 1 := by
  have hperm := insert_records_perm h r
  rw [remove_of_none hnone] at hperm
  exact hperm.length_eq

theorem Tracks.get?_eq_some_iff {s : Requests η} (h : Tracks us s) :
    s.get? id = some r ↔ Live us id r := by
  rw [Requests.get?_eq_some_iff h.sorted, h.records id r]

theorem faithful (us : List (Use η)) (hcount : insertions us < 2 ^ 64) : Faithful us := by
  have hus := tracks_after us hcount
  have hbefore : ∀ before later, us = before ++ later → Tracks before (after before) :=
    fun before later hsplit =>
      tracks_after before (Nat.lt_of_le_of_lt (insertions_le_of_append hsplit) hcount)
  constructor
  · rw [hus.counter, UInt64.toNat_ofNat', Nat.mod_eq_of_lt hcount]
  · intro k hk
    refine ⟨nth (k + 1), ?_, ofString_nth (Nat.lt_of_le_of_lt hk hcount)⟩
    rw [hus.given, List.getElem?_map, List.getElem?_range hk]
    rfl
  · rw [hus.given]
    refine ⟨by rw [List.length_map, List.length_range], ?_⟩
    refine List.Nodup.map_on ?_ List.nodup_range
    intro j hj k hk heq
    rw [List.mem_range] at hj hk
    have hsame := nth_injOn (by omega) (by omega) heq
    omega
  · exact fun id r => hus.get?_eq_some_iff
  · intro before r later hsplit
    have hb := hbefore before _ hsplit
    have hroom : insertions before + 1 < 2 ^ 64 := by
      have hsplit' : us = (before ++ [.insert r]) ++ later := by
        rw [hsplit, List.append_assoc, List.singleton_append]
      have hle := insertions_le_of_append hsplit'
      rw [insertions_concat] at hle
      exact Nat.lt_of_le_of_lt hle hcount
    have hfresh := hb.fresh hroom r
    have hnone : (after before).get? ((after before).insert r).1 = none := by
      cases hget : (after before).get? ((after before).insert r).1 with
      | none => rfl
      | some old => exact absurd (hb.get?_eq_some_iff.mp hget) (hfresh old)
    rw [after_concat]
    refine ⟨_, rfl, hfresh, length_insert_of_none hb.sorted r hnone,
      get?_insert_self hb.sorted r, ?_⟩
    intro other held hget
    refine get?_insert_of_ne hb.sorted r ?_ hget
    rintro rfl
    rw [hnone] at hget
    cases hget
  · intro before id later hsplit
    exact ⟨_, rfl, fun r => (hbefore before _ hsplit).get?_eq_some_iff⟩
  · intro before later hsplit
    have hb := hbefore before _ hsplit
    refine ⟨_, rfl, hb.records, ?_, ?_, ?_⟩
    · refine hb.sorted.imp ?_
      intro a b hab
      exact of_decide_eq_true hab
    · rw [after_concat]
      rfl
    · rw [after_concat]
      rfl

/-- Twelve records are inserted, the third of them is removed, the table is drained, and one more
is inserted. -/
def dozen : List (Use Nat) :=
  (List.range 12).map (fun handle => .insert ⟨handle, "/dev/gpiochip0", [0], 1⟩) ++
    [.remove (nth 3), .drain, .insert ⟨12, "/dev/gpiochip0", [0], 1⟩]

/-- The records come in the order of the bytes of their identifiers, and the counter goes on. -/
theorem dozen_faithful :
    insertions dozen < 2 ^ 64 ∧ Faithful dozen ∧
      (after (dozen.take 13)).drain.1.map (fun e => e.1.text) =
        ["req-1", "req-10", "req-11", "req-12", "req-2", "req-4", "req-5", "req-6", "req-7",
          "req-8", "req-9"] ∧
      (after dozen).records.map (fun e => e.1.text) = ["req-13"] := by
  have hcount : insertions dozen < 2 ^ 64 := by decide
  refine ⟨hcount, faithful dozen hcount, ?_, ?_⟩ <;> decide +kernel

end Faithful

end Requests
end LineKeeper
