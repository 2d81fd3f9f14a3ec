import Mathlib.Algebra.GroupWithZero.Nat
import Mathlib.Data.List.Nodup
import LineKeeper.Sessions

/-!
# The table of sessions

This module says what the operations of `Sessions` do to the set of sessions, seen
through `get?`.

* An insertion adds one session and touches no other.
* A removal drops the session under its identifier and touches no other.

Identifiers come from a counter of 64 bits.  A table is `Numbered` by `n` when `n`
sessions were ever added and all of them, the ones removed included, got different
identifiers; this lasts for the first `2 ^ 64` sessions.
-/

namespace LineKeeper
namespace Sessions

variable {σ : Type} {s : Sessions σ} {id other : ClientId} {session : σ}

section Lookup

theorem mem_of_get? (h : s.get? id = some session) : (id, session) ∈ s.entries := by
  simp only [get?, Option.map_eq_some_iff] at h
  obtain ⟨e, hfind, rfl⟩ := h
  have hid : e.1 = id := by simpa using List.find?_some hfind
  rw [← hid]
  exact List.mem_of_find?_eq_some hfind

/-- Under an identifier that is there once, what is there is found. -/
theorem get?_of_mem (hids : s.ids.Nodup) (h : (id, session) ∈ s.entries) :
    s.get? id = some session := by
  cases hfound : s.get? id with
  | none =>
      simp only [get?, Option.map_eq_none_iff, List.find?_eq_none, decide_eq_true_eq] at hfound
      exact absurd rfl (hfound _ h)
  | some other =>
      have hsame := List.inj_on_of_nodup_map hids (mem_of_get? hfound) h rfl
      exact congrArg (fun e => some e.2) hsame

theorem get?_eq_none_iff : s.get? id = none ↔ id ∉ s.ids := by
  simp only [get?, Option.map_eq_none_iff, List.find?_eq_none, decide_eq_true_eq, ids,
    List.mem_map, not_exists, not_and]

theorem mem_ids_iff : id ∈ s.ids ↔ ∃ session, s.get? id = some session := by
  rw [← Option.isSome_iff_exists, ← not_iff_not, Option.not_isSome_iff_eq_none, get?_eq_none_iff]

theorem get?_remove_of_ne (hne : other ≠ id) : (s.remove id).get? other = s.get? other := by
  simp only [get?, remove, List.find?_filter]
  congr 2
  funext e
  by_cases he : e.1 = other
  · simp [he, hne]
  · simp [he]

theorem mem_ids_remove : other ∈ (s.remove id).ids ↔ other ∈ s.ids ∧ other ≠ id := by
  rw [ids_remove, List.mem_filter, decide_eq_true_eq]

theorem remove_remove (s : Sessions σ) (id : ClientId) :
    (s.remove id).remove id = s.remove id := by
  simp [remove, List.filter_filter]

theorem get?_insert_of_some (new : σ) (h : s.get? id = some session) :
    (s.insert new).2.get? id = some session := by
  simp only [get?, Option.map_eq_some_iff] at h
  obtain ⟨e, hfind, rfl⟩ := h
  simp [get?, insert, List.find?_append, hfind]

theorem get?_insert_of_ne (new : σ) (hne : id ≠ s.next) :
    (s.insert new).2.get? id = s.get? id := by
  have hlast : ¬ s.next = id := fun h => hne h.symm
  simp [get?, insert, List.find?_append, hlast]

/-- To take back a session with a new identifier is to remove it. -/
theorem withdraw_insert_eq_remove (new : σ) (h : s.next ∉ s.ids) :
    (s.insert new).2.withdraw = (s.insert new).2.remove s.next := by
  have hkept : s.entries.filter (·.1 ≠ s.next) = s.entries := by
    refine List.filter_eq_self.mpr fun e he => decide_eq_true ?_
    rintro heq
    exact h (heq ▸ List.mem_map_of_mem (f := Prod.fst) he)
  rw [withdraw_insert, remove, insert, List.filter_append, hkept]
  simp

theorem mem_ids_insert (new : σ) : id ∈ (s.insert new).2.ids ↔ id ∈ s.ids ∨ id = s.next := by
  rw [ids_insert, List.mem_append, List.mem_singleton]

end Lookup

section Numbering

/-- `n` sessions were ever added, and each got an identifier of its own. -/
structure Numbered (s : Sessions σ) (n : Nat) : Prop where
  next : s.next.number = UInt64.ofNat n
  below : ∀ id ∈ s.ids, id.number.toNat < n

theorem numbered_empty : (empty : Sessions σ).Numbered 0 :=
  ⟨rfl, fun _ h => absurd h List.not_mem_nil⟩

theorem Numbered.remove {n : Nat} (h : s.Numbered n) (id : ClientId) : (s.remove id).Numbered n :=
  ⟨h.next, fun other hmem => h.below other (mem_ids_remove.mp hmem).1⟩

/-- The number of the next session, as long as the counter has not come around. -/
theorem Numbered.next_toNat {n : Nat} (h : s.Numbered n) (hn : n < 2 ^ 64) :
    s.next.number.toNat = n := by
  rw [h.next, UInt64.toNat_ofNat']
  exact Nat.mod_eq_of_lt hn

theorem Numbered.next_succ {n : Nat} (h : s.Numbered n) :
    s.next.next.number = UInt64.ofNat (n + 1) := by
  show s.next.number + 1 = _
  rw [h.next, UInt64.ofNat_add]
  rfl

/-- A session that is taken back has used up its number. -/
theorem Numbered.skip {n : Nat} (h : s.Numbered n) :
    Numbered { s with next := s.next.next } (n + 1) :=
  ⟨h.next_succ, fun id hmem => Nat.lt_succ_of_lt (h.below id hmem)⟩

theorem Numbered.insert {n : Nat} (h : s.Numbered n) (hn : n < 2 ^ 64) (new : σ) :
    (s.insert new).2.Numbered (n + 1) := by
  constructor
  · exact h.next_succ
  · intro id hmem
    rcases (mem_ids_insert new).mp hmem with hold | rfl
    · exact Nat.lt_succ_of_lt (h.below id hold)
    · rw [h.next_toNat hn]
      exact Nat.lt_succ_self n

end Numbering

end Sessions
end LineKeeper
