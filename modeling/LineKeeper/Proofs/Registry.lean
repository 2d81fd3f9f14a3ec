import Mathlib.Algebra.GroupWithZero.Nat
import Mathlib.Data.List.Basic
import LineKeeper.Requests

/-!
# The table of held requests

This module says what the operations of `Requests` do to the set of records.

The records stand in the strict order of their identifiers.  In such a table an
identifier has at most one record, so looking a record up and finding it among the
records are the same.  Under this order

* an insertion drops the record that stood under the new identifier, if there was
  one, and adds the new record;
* a removal drops exactly the record under its identifier;
* neither touches a record under another identifier.

Identifiers with different numbers are different.
-/

namespace LineKeeper

namespace RequestId

/-- A number can be read back from its identifier. -/
theorem numbered_injective : Function.Injective numbered := by
  intro m n h
  have htext : numberedText m = numberedText n := congrArg text h
  have hbytes : Text.Utf8.encode (toString m.toNat) = Text.Utf8.encode (toString n.toNat) := by
    have hencoded := congrArg Text.Utf8.encode htext
    rw [encode_numberedText, encode_numberedText] at hencoded
    exact List.append_cancel_left hencoded
  have hrepr : m.toNat.repr = n.toNat.repr := Text.Utf8.encode_injective hbytes
  rw [Nat.repr_eq_ofList_toDigits, Nat.repr_eq_ofList_toDigits] at hrepr
  have hdigits : Nat.toDigits 10 m.toNat = Nat.toDigits 10 n.toNat :=
    String.ofList_injective hrepr
  apply UInt64.toNat_inj.mp
  rw [← @Nat.ofDigitChars_ten_toDigits m.toNat, hdigits, Nat.ofDigitChars_ten_toDigits]

theorem ext_bytes {a b : RequestId} (h : a.bytes = b.bytes) : a = b :=
  ext_text (Text.Utf8.encode_injective h)

theorem before_irrefl (a : RequestId) : ¬ a.before a = true := by
  simp only [before, decide_eq_true_eq]
  exact List.lt_irrefl a.bytes

theorem before_trans {a b c : RequestId} (hab : a.before b = true) (hbc : b.before c = true) :
    a.before c = true := by
  simp only [before, decide_eq_true_eq] at hab hbc ⊢
  exact List.lt_trans hab hbc

/-- Of two different identifiers one comes before the other. -/
theorem before_of_not_before {a b : RequestId} (h : ¬ a.before b = true) (hne : b ≠ a) :
    b.before a = true := by
  simp only [before, decide_eq_true_eq] at h ⊢
  rcases List.le_iff_lt_or_eq.mp (List.not_lt.mp h) with hlt | heq
  · exact hlt
  · exact absurd (ext_bytes heq) hne

end RequestId

namespace Requests

section Records

variable {η : Type}

/-- Records in the strict order of their identifiers. -/
def InOrder (es : List (RequestId × Held η)) : Prop :=
  es.Pairwise fun a b => a.1.before b.1 = true

/-- An identifier has at most one record. -/
theorem InOrder.unique {es : List (RequestId × Held η)} (h : InOrder es)
    {a b : RequestId × Held η} (ha : a ∈ es) (hb : b ∈ es) (hid : a.1 = b.1) : a = b := by
  induction es with
  | nil =>
      cases ha
  | cons e es ih =>
      obtain ⟨hfirst, hrest⟩ := List.pairwise_cons.mp h
      rcases List.mem_cons.mp ha with rfl | ha' <;> rcases List.mem_cons.mp hb with rfl | hb'
      · rfl
      · have hab := hfirst b hb'
        rw [hid] at hab
        exact absurd hab (RequestId.before_irrefl _)
      · have hba := hfirst a ha'
        rw [hid] at hba
        exact absurd hba (RequestId.before_irrefl _)
      · exact ih hrest ha' hb'

theorem InOrder.filter {es : List (RequestId × Held η)} (h : InOrder es)
    (p : RequestId × Held η → Bool) : InOrder (es.filter p) :=
  List.Pairwise.filter p h

/-- What comes before the first record comes before all. -/
theorem InOrder.before_of_mem {id : RequestId} {e : RequestId × Held η}
    {es : List (RequestId × Held η)} (h : InOrder (e :: es)) (hlt : id.before e.1 = true) :
    ∀ x ∈ e :: es, id.before x.1 = true := by
  intro x hx
  rcases List.mem_cons.mp hx with rfl | hx
  · exact hlt
  · exact RequestId.before_trans hlt ((List.pairwise_cons.mp h).1 x hx)

theorem insertRecord_of_before {id : RequestId} {e : RequestId × Held η}
    (h : id.before e.1 = true) (r : Held η) (es : List (RequestId × Held η)) :
    insertRecord id r (e :: es) = (id, r) :: e :: es := by
  rw [insertRecord, if_pos h]

theorem insertRecord_of_eq {id : RequestId} {e : RequestId × Held η} (h : e.1 = id)
    (r : Held η) (es : List (RequestId × Held η)) :
    insertRecord id r (e :: es) = (id, r) :: es := by
  have hnot : ¬ id.before e.1 = true := by
    rw [h]
    exact RequestId.before_irrefl id
  rw [insertRecord, if_neg hnot, if_pos h]

theorem insertRecord_of_after {id : RequestId} {e : RequestId × Held η}
    (hlt : ¬ id.before e.1 = true) (hne : e.1 ≠ id) (r : Held η)
    (es : List (RequestId × Held η)) :
    insertRecord id r (e :: es) = e :: insertRecord id r es := by
  rw [insertRecord, if_neg hlt, if_neg hne]

/-- Records behind an identifier are not under it. -/
theorem filter_ne_of_before {id : RequestId} {es : List (RequestId × Held η)}
    (h : ∀ e ∈ es, id.before e.1 = true) : es.filter (·.1 ≠ id) = es := by
  rw [List.filter_eq_self]
  intro e he
  rw [decide_eq_true_eq]
  rintro rfl
  exact RequestId.before_irrefl _ (h e he)

/-- An insertion replaces what stood under the identifier. -/
theorem insertRecord_perm (id : RequestId) (r : Held η) {es : List (RequestId × Held η)}
    (h : InOrder es) :
    (insertRecord id r es).Perm ((id, r) :: es.filter (·.1 ≠ id)) := by
  induction es with
  | nil =>
      exact List.Perm.refl _
  | cons e es ih =>
      obtain ⟨hfirst, hrest⟩ := List.pairwise_cons.mp h
      by_cases hlt : id.before e.1 = true
      · rw [insertRecord_of_before hlt, filter_ne_of_before (h.before_of_mem hlt)]
      · by_cases heq : e.1 = id
        · rw [insertRecord_of_eq heq, List.filter_cons_of_neg (by simpa using heq),
            filter_ne_of_before (heq ▸ hfirst)]
        · rw [insertRecord_of_after hlt heq, List.filter_cons_of_pos (by simpa using heq)]
          exact ((ih hrest).cons e).trans (List.Perm.swap _ _ _)

theorem mem_insertRecord {id : RequestId} {r : Held η} {es : List (RequestId × Held η)}
    (h : InOrder es) {e : RequestId × Held η} :
    e ∈ insertRecord id r es ↔ e = (id, r) ∨ e ∈ es ∧ e.1 ≠ id := by
  rw [(insertRecord_perm id r h).mem_iff, List.mem_cons, List.mem_filter]
  simp

theorem InOrder.insertRecord (id : RequestId) (r : Held η) {es : List (RequestId × Held η)}
    (h : InOrder es) : InOrder (insertRecord id r es) := by
  induction es with
  | nil =>
      exact List.pairwise_singleton _ _
  | cons e es ih =>
      obtain ⟨hfirst, hrest⟩ := List.pairwise_cons.mp h
      by_cases hlt : id.before e.1 = true
      · rw [insertRecord_of_before hlt]
        exact List.pairwise_cons.mpr ⟨h.before_of_mem hlt, h⟩
      · by_cases heq : e.1 = id
        · rw [insertRecord_of_eq heq]
          refine List.pairwise_cons.mpr ⟨?_, hrest⟩
          intro x hx
          have hex := hfirst x hx
          rw [heq] at hex
          exact hex
        · rw [insertRecord_of_after hlt heq]
          refine List.pairwise_cons.mpr ⟨?_, ih hrest⟩
          intro x hx
          rcases (mem_insertRecord hrest).mp hx with rfl | ⟨hx, -⟩
          · exact RequestId.before_of_not_before hlt heq
          · exact hfirst x hx

end Records

section Tables

variable {η : Type} {s : Requests η} {id other : RequestId} {r held : Held η}

/-- A table whose records are in order. -/
def Sorted (s : Requests η) : Prop :=
  InOrder s.records

theorem sorted_empty : (empty : Requests η).Sorted :=
  List.Pairwise.nil

theorem Sorted.insert (h : s.Sorted) (r : Held η) : (s.insert r).2.Sorted :=
  InOrder.insertRecord _ r h

theorem Sorted.remove (h : s.Sorted) (id : RequestId) : (s.remove id).Sorted :=
  InOrder.filter h _

theorem remove_of_none (h : s.get? id = none) : s.remove id = s := by
  have hall : ∀ e ∈ s.records, e.1 ≠ id := by
    simpa [get?, List.find?_eq_none] using h
  have hfilter : s.records.filter (·.1 ≠ id) = s.records :=
    List.filter_eq_self.mpr fun e he => decide_eq_true (hall e he)
  rw [remove, hfilter]

theorem mem_of_get? (h : s.get? id = some held) : (id, held) ∈ s.records := by
  simp only [get?, Option.map_eq_some_iff] at h
  obtain ⟨e, hfind, rfl⟩ := h
  have hid : e.1 = id := by simpa using List.find?_some hfind
  have hmem := List.mem_of_find?_eq_some hfind
  rw [← hid]
  exact hmem

theorem get?_eq_none_iff : s.get? id = none ↔ ∀ e ∈ s.records, e.1 ≠ id := by
  simp [get?, List.find?_eq_none]

/-- Looking up finds exactly the records of the table. -/
theorem get?_eq_some_iff (h : s.Sorted) : s.get? id = some held ↔ (id, held) ∈ s.records := by
  constructor
  · exact mem_of_get?
  · intro hmem
    cases hget : s.get? id with
    | none =>
        exact absurd rfl (get?_eq_none_iff.mp hget _ hmem)
    | some found =>
        have hsame := InOrder.unique h (mem_of_get? hget) hmem rfl
        rw [(Prod.mk.inj hsame).2]

/-- Exactly the record under an identifier is removed. -/
theorem records_perm_remove (h : s.Sorted) (hget : s.get? id = some held) :
    s.records.Perm ((id, held) :: (s.remove id).records) := by
  obtain ⟨before, after, hrecords⟩ := List.append_of_mem (mem_of_get? hget)
  have hothers : ∀ e ∈ before ++ after, e.1 ≠ id := by
    have hpairwise : InOrder (before ++ (id, held) :: after) := hrecords ▸ h
    obtain ⟨-, hafter, hbefore⟩ := List.pairwise_append.mp hpairwise
    intro e he hid
    rcases List.mem_append.mp he with he | he
    · have hlt := hbefore e he (id, held) List.mem_cons_self
      rw [hid] at hlt
      exact RequestId.before_irrefl _ hlt
    · have hlt := (List.pairwise_cons.mp hafter).1 e he
      rw [hid] at hlt
      exact RequestId.before_irrefl _ hlt
  have hleft : (s.remove id).records = before ++ after := by
    rw [remove, hrecords]
    show List.filter _ _ = _
    rw [List.filter_append, List.filter_cons_of_neg (by simp), ← List.filter_append,
      List.filter_eq_self]
    intro e he
    exact decide_eq_true (hothers e he)
  rw [hleft, hrecords]
  exact List.perm_middle

theorem insert_records_perm (h : s.Sorted) (r : Held η) :
    (s.insert r).2.records.Perm
      (((s.insert r).1, r) :: (s.remove (s.insert r).1).records) :=
  insertRecord_perm _ r h

theorem get?_insert_self (h : s.Sorted) (r : Held η) :
    (s.insert r).2.get? (s.insert r).1 = some r := by
  rw [get?_eq_some_iff (h.insert r), (insert_records_perm h r).mem_iff]
  exact List.mem_cons_self

theorem get?_insert_of_ne (h : s.Sorted) (r : Held η) (hne : other ≠ (s.insert r).1)
    (hget : s.get? other = some held) : (s.insert r).2.get? other = some held := by
  rw [get?_eq_some_iff (h.insert r), (insert_records_perm h r).mem_iff]
  refine List.mem_cons_of_mem _ (List.mem_filter.mpr ⟨mem_of_get? hget, ?_⟩)
  simpa using hne

theorem get?_remove_of_ne (h : s.Sorted) (hne : other ≠ id) (hget : s.get? other = some held) :
    (s.remove id).get? other = some held := by
  rw [get?_eq_some_iff (h.remove id)]
  refine List.mem_filter.mpr ⟨mem_of_get? hget, ?_⟩
  simpa using hne

end Tables

end Requests
end LineKeeper
