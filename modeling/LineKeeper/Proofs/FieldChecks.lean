import LineKeeper.Proofs.Checks
import LineKeeper.Proofs.FrameLayout
import LineKeeper.Proofs.Positions

/-!
# What a field must hold

A text field holds a text and zeros, an identifier field visible ASCII characters and zeros, and
the slots of a request offsets of which none repeats another and values that stand for levels.
This module says in these terms which fields and which slots are refused, and what is named: of
several slots that could be, the first.

**Results.**
* `FieldText.ofPadded_eq_error_iff`, `RequestId.check_eq_error_iff`: the fields that are refused.
* `firstRepeat?_slots`, `levelsOf_slots`: which offset and which value are named.
-/

namespace LineKeeper

open Wire

/-- The bytes of a field are a text without NUL, and zeros. -/
def HoldsText (field : List UInt8) : Prop :=
  ∃ (text : String) (n : Nat), (0 : UInt8) ∉ Text.Utf8.encode text ∧
    field = Text.Utf8.encode text ++ List.replicate n 0

/-- The bytes of a field are one to 32 visible ASCII characters, and zeros. -/
def HoldsIdentifier (field : List UInt8) : Prop :=
  ∃ (id : List UInt8) (n : Nat), 1 ≤ id.length ∧ id.length ≤ 32 ∧
    (∀ b ∈ id, 0x21 ≤ b ∧ b ≤ 0x7E) ∧ field = id ++ List.replicate n 0

section Fields

variable {f : Field} {field : List UInt8} {e : WireError}

/-- A field holds a text exactly if it is the field of one. -/
theorem holdsText_iff (hlen : field.length = f.width) :
    HoldsText field ↔ ∃ t : FieldText f, field = t.padded := by
  constructor
  · rintro ⟨text, n, hnul, rfl⟩
    rw [List.length_append, List.length_replicate] at hlen
    have hfill : f.width - (Text.Utf8.encode text).length = n := by omega
    refine ⟨⟨text, by omega, hnul⟩, ?_⟩
    rw [FieldText.padded, FieldText.bytes, hfill]
  · rintro ⟨t, rfl⟩
    exact ⟨t.text, _, t.nul_free, rfl⟩

/-- No text is refused for its length when it is read from its field. -/
theorem FieldText.eq_of_ofPadded_eq_error (hlen : field.length = f.width)
    (h : FieldText.ofPadded f field = .error e) : e = .invalidString f := by
  rw [ofPadded] at h
  split at h
  · split at h
    · next text htext =>
      have hfits : (Text.Utf8.encode text).length ≤ f.width := by
        rw [Text.Utf8.encode_of_decode? htext, ← hlen]
        exact (List.takeWhile_prefix _).length_le
      rcases ofString_eq_error_iff.mp h with ⟨hlong, -⟩ | ⟨-, -, rfl⟩
      · omega
      · rfl
    · cases h
      rfl
  · cases h
    rfl

theorem FieldText.ofPadded_eq_error_iff (hlen : field.length = f.width) :
    FieldText.ofPadded f field = .error e ↔ ¬ HoldsText field ∧ e = .invalidString f := by
  rw [holdsText_iff hlen]
  simp only [← ofPadded_eq_ok_iff hlen]
  cases hread : ofPadded f field with
  | ok t => simp
  | error e' =>
      rw [eq_of_ofPadded_eq_error hlen hread]
      simp [eq_comm]

/-- Visible ASCII characters are a text. -/
theorem exists_text_of_graphic {bs : List UInt8} (h : ∀ b ∈ bs, 0x21 ≤ b ∧ b ≤ 0x7E) :
    ∃ text, Text.Utf8.encode text = bs := by
  have hascii : ∀ b ∈ bs, (Char.ofNat b.toNat).toNat = b.toNat ∧ b.toNat ≤ 127 := by
    intro b hb
    have hle : b.toNat ≤ 126 := UInt8.le_iff_toNat_le.mp (h b hb).2
    have hvalid : b.toNat.isValidChar := .inl (by omega)
    refine ⟨?_, by omega⟩
    rw [Char.ofNat, dif_pos hvalid]
    rfl
  refine ⟨String.ofList (bs.map fun b => Char.ofNat b.toNat), ?_⟩
  rw [Text.Utf8.encode_ascii, List.map_map]
  · refine (List.map_congr_left fun b hb => ?_).trans bs.map_id
    rw [Function.comp_apply, (hascii b hb).1, UInt8.ofNat_toNat, id]
  · intro c hc
    obtain ⟨b, hb, rfl⟩ := List.mem_map.mp hc
    rw [(hascii b hb).1]
    exact (hascii b hb).2

theorem holdsIdentifier_iff (hlen : field.length = 32) :
    HoldsIdentifier field ↔ ∃ id : RequestId, field = id.toField.padded := by
  constructor
  · rintro ⟨bs, n, hpos, hle, hgraphic, rfl⟩
    obtain ⟨text, rfl⟩ := exists_text_of_graphic hgraphic
    rw [List.length_append, List.length_replicate] at hlen
    have hall : (Text.Utf8.encode text).all isGraphic = true := by
      refine List.all_eq_true.mpr fun b hb => ?_
      simpa [isGraphic] using hgraphic b hb
    have hfill : Field.requestId.width - (Text.Utf8.encode text).length = n := by
      rw [Field.width]
      omega
    refine ⟨⟨text, List.length_pos_iff.mp hpos, hle, hall⟩, ?_⟩
    rw [FieldText.padded, FieldText.bytes, RequestId.toField, hfill]
  · rintro ⟨id, rfl⟩
    refine ⟨id.bytes, _, List.length_pos_iff.mpr id.nonempty, id.fits, fun b hb => ?_, rfl⟩
    simpa [isGraphic] using List.all_eq_true.mp id.graphic b hb

section Identifiers

variable {frame : List UInt8} (hlen : frame.length = frameSize)

include hlen

theorem RequestId.check_eq_ok_iff {id : RequestId} :
    RequestId.check frame = .ok id ↔ slice frame 4 32 = id.toField.padded := by
  have hfield : (slice frame 4 32).length = Field.requestId.width :=
    slice_length (by rw [hlen]; decide)
  simp only [check, bind_eq_ok_iff, FieldText.ofPadded_eq_ok_iff hfield, ofString_eq_ok]
  constructor
  · rintro ⟨t, ht, hid⟩
    obtain rfl : id.toField = t := FieldText.ext_text hid
    exact ht
  · intro h
    exact ⟨id.toField, h, rfl⟩

theorem RequestId.eq_of_check_eq_error (h : RequestId.check frame = .error e) :
    e = .invalidString .requestId := by
  have hfield : (slice frame 4 32).length = Field.requestId.width :=
    slice_length (by rw [hlen]; decide)
  rcases bind_eq_error_iff.mp h with hread | ⟨t, -, hid⟩
  · exact FieldText.eq_of_ofPadded_eq_error hfield hread
  · simp only [ofString, dif_pos t.fits] at hid
    split at hid
    · cases hid
    · cases hid
      rfl

theorem RequestId.check_eq_error_iff :
    RequestId.check frame = .error e ↔
      ¬ HoldsIdentifier (slice frame 4 32) ∧ e = .invalidString .requestId := by
  have hfield : (slice frame 4 32).length = 32 := slice_length (by rw [hlen]; decide)
  rw [holdsIdentifier_iff hfield]
  simp only [← check_eq_ok_iff hlen]
  cases hread : check frame with
  | ok id => simp
  | error e' =>
      rw [eq_of_check_eq_error hlen hread]
      simp [eq_comm]

end Identifiers

end Fields

section Slots

variable {os : List UInt32} {vs : List UInt8} {e : WireError}

/-- The offset that is named stands in the first slot that repeats one that was seen or stands
before it. -/
theorem firstRepeat?_eq_some_iff {seen : List UInt32} {o : UInt32} :
    firstRepeat? seen os = some o ↔
      ∃ k, os[k]? = some o ∧ (o ∈ seen ∨ o ∈ os.take k) ∧ firstRepeat? seen (os.take k) = none := by
  induction os generalizing seen with
  | nil => simp [firstRepeat?]
  | cons first os ih =>
      by_cases hseen : first ∈ seen
      · rw [firstRepeat?, if_pos hseen]
        constructor
        · intro h
          cases h
          exact ⟨0, rfl, .inl hseen, rfl⟩
        · rintro ⟨k, hk, -, hnone⟩
          cases k with
          | zero => exact hk
          | succ k =>
              rw [List.take_succ_cons, firstRepeat?, if_pos hseen] at hnone
              cases hnone
      · rw [firstRepeat?, if_neg hseen, ih]
        constructor
        · rintro ⟨k, hk, hrepeats, hnone⟩
          refine ⟨k + 1, hk, ?_, ?_⟩
          · rw [List.take_succ_cons, List.mem_cons]
            rw [List.mem_cons] at hrepeats
            tauto
          · rw [List.take_succ_cons, firstRepeat?, if_neg hseen]
            exact hnone
        · rintro ⟨k, hk, hrepeats, hnone⟩
          cases k with
          | zero =>
              obtain rfl : first = o := Option.some.inj hk
              rcases hrepeats with h | h
              · exact absurd h hseen
              · cases h
          | succ k =>
              rw [List.take_succ_cons, firstRepeat?, if_neg hseen] at hnone
              rw [List.take_succ_cons, List.mem_cons] at hrepeats
              refine ⟨k, hk, ?_, hnone⟩
              rw [List.mem_cons]
              tauto

theorem le_one_iff {v : UInt8} : v ≤ 1 ↔ v = 0 ∨ v = 1 := by
  rw [UInt8.le_iff_toNat_le, ← UInt8.toNat_inj, ← UInt8.toNat_inj]
  show v.toNat ≤ 1 ↔ v.toNat = 0 ∨ v.toNat = 1
  omega

/-- A value that stands for a level is not what is refused. -/
theorem levelsOf_cons_of_le_one {v : UInt8} (hv : v ≤ 1) :
    levelsOf (v :: vs) = .error e ↔ levelsOf vs = .error e := by
  rcases le_one_iff.mp hv with rfl | rfl
  · simp only [levelsOf, if_true]
    cases levelsOf vs <;> simp [Except.map]
  · have hone : (1 : UInt8) ≠ 0 := by decide
    simp only [levelsOf, if_true, hone, if_false]
    cases levelsOf vs <;> simp [Except.map]

theorem levelsOf_eq_error_iff :
    levelsOf vs = .error e ↔
      ∃ k v, vs[k]? = some v ∧ 1 < v ∧ (∀ u ∈ vs.take k, u ≤ 1) ∧ e = .invalidValue v := by
  induction vs with
  | nil => simp [levelsOf]
  | cons v vs ih =>
      by_cases hv : v ≤ 1
      · rw [levelsOf_cons_of_le_one hv, ih]
        constructor
        · rintro ⟨k, u, hk, hu, hfirst, he⟩
          exact ⟨k + 1, u, hk, hu, List.forall_mem_cons.mpr ⟨hv, hfirst⟩, he⟩
        · rintro ⟨k, u, hk, hu, hfirst, he⟩
          cases k with
          | zero =>
              obtain rfl : v = u := Option.some.inj hk
              exact absurd hv (UInt8.not_le.mpr hu)
          | succ k => exact ⟨k, u, hk, hu, (List.forall_mem_cons.mp hfirst).2, he⟩
      · have hhigh : 1 < v := UInt8.not_le.mp hv
        rw [le_one_iff, not_or] at hv
        simp only [levelsOf, hv.1, hv.2, if_false]
        constructor
        · intro h
          cases h
          exact ⟨0, v, rfl, hhigh, fun u hu => (List.not_mem_nil hu).elim, rfl⟩
        · rintro ⟨k, u, hk, -, hfirst, rfl⟩
          cases k with
          | zero =>
              obtain rfl : v = u := Option.some.inj hk
              rfl
          | succ k =>
              have hlow := (List.forall_mem_cons.mp hfirst).1
              exact absurd hlow (UInt8.not_le.mpr hhigh)

variable {α : Type} {f : Nat → α} {n k : Nat}

theorem getElem?_slots {a : α} : ((List.range n).map f)[k]? = some a ↔ k < n ∧ f k = a := by
  simp [List.getElem?_eq_some_iff]

theorem nodup_map_range_iff :
    ((List.range n).map f).Nodup ↔ ∀ i < n, ∀ j < i, f j ≠ f i := by
  rw [List.Nodup, List.pairwise_map, List.pairwise_iff_getElem]
  simp only [List.length_range, List.getElem_range]
  constructor
  · intro h i hi j hj
    exact h j i (by omega) hi hj
  · intro h j i _ hi hj
    exact h i hi j hj

/-- Which offset is named, if one is repeated: the first that repeats one before it. -/
theorem firstRepeat?_slots {f : Nat → UInt32} {o : UInt32} :
    firstRepeat? [] ((List.range n).map f) = some o ↔
      ∃ k < n, (∃ j < k, f j = f k) ∧ (∀ i < k, ∀ j < i, f j ≠ f i) ∧ o = f k := by
  rw [firstRepeat?_eq_some_iff]
  constructor
  · rintro ⟨k, hk, hrepeats, hnone⟩
    obtain ⟨hlt, rfl⟩ := getElem?_slots.mp hk
    rw [take_map_range _ (Nat.le_of_lt hlt)] at hrepeats hnone
    refine ⟨k, hlt, ?_, nodup_map_range_iff.mp (firstRepeat?_eq_none_iff.mp hnone).1, rfl⟩
    simpa using hrepeats
  · rintro ⟨k, hlt, hrepeats, hfirst, rfl⟩
    refine ⟨k, getElem?_slots.mpr ⟨hlt, rfl⟩, .inr ?_, ?_⟩
    · rw [take_map_range _ (Nat.le_of_lt hlt)]
      simpa using hrepeats
    · rw [take_map_range _ (Nat.le_of_lt hlt), firstRepeat?_eq_none_iff]
      exact ⟨nodup_map_range_iff.mpr hfirst, by simp⟩

/-- Which value is named, if one stands for no level: the first of them. -/
theorem levelsOf_slots {f : Nat → UInt8} {e : WireError} :
    levelsOf ((List.range n).map f) = .error e ↔
      ∃ k < n, 1 < f k ∧ (∀ i < k, f i ≤ 1) ∧ e = .invalidValue (f k) := by
  rw [levelsOf_eq_error_iff]
  constructor
  · rintro ⟨k, v, hk, hhigh, hfirst, rfl⟩
    obtain ⟨hlt, rfl⟩ := getElem?_slots.mp hk
    rw [take_map_range _ (Nat.le_of_lt hlt)] at hfirst
    exact ⟨k, hlt, hhigh, by simpa using hfirst, rfl⟩
  · rintro ⟨k, hlt, hhigh, hfirst, rfl⟩
    refine ⟨k, f k, getElem?_slots.mpr ⟨hlt, rfl⟩, hhigh, ?_, rfl⟩
    rw [take_map_range _ (Nat.le_of_lt hlt)]
    simpa using hfirst

end Slots

end LineKeeper
