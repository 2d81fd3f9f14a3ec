import LineKeeper.Message.Codec

/-!
# What readers accept

A reader takes a front off a frame and gives a value. `Takes r form` says of the
reader `r` which fronts those are: it gives `a` and leaves `rest` exactly if the
frame is `front ++ rest` for a front with `form a front`. So one statement holds
both what a reader accepts and what it makes of it.

**Composition.** `takes_pure`, `takes_bind`, `takes_map`, `takes_refuse`,
`takes_ofExcept` and `takes_ite` follow the way readers are put together.

**Results.**
* `takes_word`, `takes_words`, `takes_byte`, `takes_bytes`: the forms of words
  and bytes.
* `takes_fieldText`: a text field is accepted only as it is written, with
  nothing but zeros behind the text.
* `takes_requestId`: so is the field of an identifier.
-/

namespace LineKeeper

section Checks

/-- The check of a list of offsets accepts a list only as it is. -/
theorem Offsets.ofList_eq_ok_iff {os : List UInt32} {lines : Offsets} :
    Offsets.ofList os = .ok lines ↔ lines.list = os := by
  constructor
  · exact Offsets.list_of_ofList
  · rintro rfl
    exact Offsets.ofList_list lines

/-- Output values are accepted if there are enough, as bytes that stand for levels. -/
theorem checkValues_eq_ok_iff {n : Nat} {vs : List UInt8} {ls : List Bool} :
    checkValues n vs = .ok ls ↔ ls.length = n ∧ ls.map levelByte = vs := by
  constructor
  · intro h
    refine ⟨length_of_checkValues h, ?_⟩
    simp only [checkValues] at h
    split at h
    · exact values_of_levelsOf h
    · cases h
  · rintro ⟨rfl, rfl⟩
    simp only [checkValues, List.length_map, if_true]
    exact levelsOf_values ls

/-- The check of a text for an identifier accepts a text only as it is. -/
theorem RequestId.ofString_eq_ok {s : String} {id : RequestId} :
    RequestId.ofString s = .ok id ↔ id.text = s := by
  constructor
  · exact RequestId.text_of_ofString
  · rintro rfl
    exact RequestId.ofString_text id

/-- A filled field is read only as it is written. -/
theorem FieldText.ofPadded_eq_ok_iff {f : Field} {raw : List UInt8} {t : FieldText f}
    (hraw : raw.length = f.width) : FieldText.ofPadded f raw = .ok t ↔ raw = t.padded := by
  constructor
  · intro h
    simp only [FieldText.ofPadded] at h
    split at h
    · next hzeros =>
      split at h
      · next s hs =>
        -- the bytes before the first zero are the text, and the rest fills up the width
        have htext : t.bytes = raw.takeWhile (· != 0) := by
          rw [FieldText.bytes, FieldText.text_of_ofString h]
          exact Text.Utf8.encode_of_decode? hs
        have hsplit := List.takeWhile_append_dropWhile (p := (· != 0)) (l := raw)
        have hzero : ∀ b ∈ raw.dropWhile (· != 0), b = 0 := by
          intro b hb
          simpa using List.all_eq_true.mp hzeros b hb
        have hfill : raw.dropWhile (· != 0) =
            List.replicate (raw.dropWhile (· != 0)).length 0 :=
          List.eq_replicate_of_mem hzero
        have hlen : (raw.dropWhile (· != 0)).length = f.width - t.bytes.length := by
          have := congrArg List.length hsplit
          rw [List.length_append, hraw, ← htext] at this
          omega
        rw [FieldText.padded, ← hlen, ← hfill, htext, hsplit]
      · cases h
    · cases h
  · rintro rfl
    exact FieldText.ofPadded_padded t

end Checks

namespace Wire
namespace Reader

variable {α β : Type}

/-- The reader gives `a` exactly for the fronts of that form, and takes them off. -/
def Takes (r : Reader α) (form : α → List UInt8 → Prop) : Prop :=
  ∀ frame a rest, r frame = .ok (a, rest) ↔ ∃ front, form a front ∧ frame = front ++ rest

section Composition

/-- A form may be replaced by an equivalent one. -/
theorem Takes.congr {r : Reader α} {form form' : α → List UInt8 → Prop} (h : Takes r form)
    (hform : ∀ a front, form a front ↔ form' a front) : Takes r form' := by
  intro frame a rest
  rw [h frame a rest]
  simp only [hform]

theorem takes_pure (a : α) : Takes (pure a) fun b front => b = a ∧ front = [] := by
  intro frame b rest
  constructor
  · intro h
    cases h
    exact ⟨[], ⟨rfl, rfl⟩, rfl⟩
  · rintro ⟨front, ⟨rfl, rfl⟩, rfl⟩
    rfl

theorem takes_refuse (e : WireError) : Takes (refuse e : Reader α) fun _ _ => False := by
  intro frame a rest
  constructor
  · intro h
    cases h
  · rintro ⟨front, hfalse, _⟩
    exact hfalse.elim

theorem takes_ofExcept (x : Except WireError α) :
    Takes (ofExcept x) fun a front => x = .ok a ∧ front = [] := by
  cases x with
  | error e =>
      refine (takes_refuse e).congr fun a front => ?_
      constructor
      · exact False.elim
      · rintro ⟨h, _⟩
        cases h
  | ok b =>
      refine (takes_pure b).congr fun a front => ?_
      constructor
      · rintro ⟨rfl, hfront⟩
        exact ⟨rfl, hfront⟩
      · rintro ⟨h, hfront⟩
        cases h
        exact ⟨rfl, hfront⟩

/-- Readers that run one after the other take one front after the other. -/
theorem takes_bind {r : Reader α} {k : α → Reader β} {form : α → List UInt8 → Prop}
    {next : α → β → List UInt8 → Prop} (hr : Takes r form) (hk : ∀ a, Takes (k a) (next a)) :
    Takes (r >>= k) fun b front =>
      ∃ a f g, form a f ∧ next a b g ∧ front = f ++ g := by
  intro frame b rest
  constructor
  · intro h
    simp only [bind, StateT.bind, Except.bind] at h
    split at h
    · cases h
    · next p hp =>
      obtain ⟨a, mid⟩ := p
      obtain ⟨f, hf, rfl⟩ := (hr frame a mid).mp hp
      obtain ⟨g, hg, rfl⟩ := (hk a mid b rest).mp h
      exact ⟨f ++ g, ⟨a, f, g, hf, hg, rfl⟩, (List.append_assoc f g rest).symm⟩
  · rintro ⟨front, ⟨a, f, g, hf, hg, rfl⟩, rfl⟩
    have hfirst : r (f ++ g ++ rest) = .ok (a, g ++ rest) :=
      (hr _ a _).mpr ⟨f, hf, List.append_assoc f g rest⟩
    have hsecond : k a (g ++ rest) = .ok (b, rest) := (hk a _ b rest).mpr ⟨g, hg, rfl⟩
    simp only [bind, StateT.bind, Except.bind, hfirst, hsecond]

/-- What was read may be put into another value. -/
theorem takes_map {r : Reader α} {form : α → List UInt8 → Prop} (hr : Takes r form) (f : α → β) :
    Takes (r >>= fun a => pure (f a)) fun b front => ∃ a, b = f a ∧ form a front := by
  refine (takes_bind hr fun a => takes_pure (f a)).congr fun b front => ?_
  constructor
  · rintro ⟨a, g, _, hg, ⟨rfl, rfl⟩, rfl⟩
    exact ⟨a, rfl, by rwa [List.append_nil]⟩
  · rintro ⟨a, rfl, hfront⟩
    exact ⟨a, front, [], hfront, ⟨rfl, rfl⟩, (List.append_nil _).symm⟩

theorem takes_ite {c : Prop} [Decidable c] {r s : Reader α} {form form' : α → List UInt8 → Prop}
    (hr : Takes r form) (hs : Takes s form') :
    Takes (if c then r else s) fun a front => if c then form a front else form' a front := by
  by_cases hc : c
  · simpa only [hc, if_true] using hr
  · simpa only [hc, if_false] using hs

end Composition

section Pieces

theorem takes_byte : Takes byte fun b front => front = [b] := by
  intro frame b rest
  constructor
  · intro h
    cases frame with
    | nil => cases h
    | cons c frame =>
        cases h
        exact ⟨[b], rfl, rfl⟩
  · rintro ⟨front, rfl, rfl⟩
    rfl

theorem takes_bytes (n : Nat) : Takes (bytes n) fun bs front => bs.length = n ∧ front = bs := by
  intro frame bs rest
  constructor
  · intro h
    simp only [bytes] at h
    split at h
    · next hle =>
      cases h
      exact ⟨frame.take n, ⟨List.length_take_of_le hle, rfl⟩, (List.take_append_drop n frame).symm⟩
    · cases h
  · rintro ⟨front, ⟨hlen, rfl⟩, rfl⟩
    exact bytes_append hlen rest

theorem takes_word : Takes word fun w front => front = encodeWord w := by
  intro frame w rest
  constructor
  · intro h
    match frame, h with
    | a :: b :: c :: d :: frame, h =>
      cases h
      exact ⟨[a, b, c, d], (encodeWord_wordOf a b c d).symm, rfl⟩
  · rintro ⟨front, rfl, rfl⟩
    exact word_encodeWord w rest

theorem takes_words (n : Nat) :
    Takes (words n) fun ws front => ws.length = n ∧ front = ws.flatMap encodeWord := by
  induction n with
  | zero =>
      refine (takes_pure []).congr fun ws front => ?_
      constructor
      · rintro ⟨rfl, rfl⟩
        exact ⟨rfl, rfl⟩
      · rintro ⟨hlen, rfl⟩
        cases List.eq_nil_of_length_eq_zero hlen
        exact ⟨rfl, rfl⟩
  | succ n ih =>
      refine (takes_bind takes_word fun w =>
        takes_bind ih fun ws => takes_pure (w :: ws)).congr fun vs front => ?_
      constructor
      · rintro ⟨w, _, _, rfl, ⟨ws, _, _, ⟨hlen, rfl⟩, ⟨rfl, rfl⟩, rfl⟩, rfl⟩
        exact ⟨by rw [List.length_cons, hlen], by rw [List.flatMap_cons, List.append_nil]⟩
      · rintro ⟨hlen, rfl⟩
        cases vs with
        | nil => cases hlen
        | cons w ws =>
            exact ⟨w, _, _, rfl,
              ⟨ws, _, [], ⟨Nat.succ.inj hlen, rfl⟩, ⟨rfl, rfl⟩, (List.append_nil _).symm⟩,
              List.flatMap_cons⟩

theorem takes_fieldText (f : Field) : Takes (fieldText f) fun t front => front = t.padded := by
  refine (takes_bind (takes_bytes f.width) fun raw =>
    takes_ofExcept (FieldText.ofPadded f raw)).congr fun t front => ?_
  constructor
  · rintro ⟨raw, _, _, ⟨hlen, rfl⟩, ⟨ht, rfl⟩, rfl⟩
    rw [List.append_nil, (FieldText.ofPadded_eq_ok_iff hlen).mp ht]
  · rintro rfl
    exact ⟨t.padded, _, [], ⟨t.padded_length, rfl⟩,
      ⟨FieldText.ofPadded_padded t, rfl⟩, (List.append_nil _).symm⟩

end Pieces

/-- The field of an identifier is read only as it is written. -/
theorem takes_requestId : Takes RequestId.read fun id front => front = id.toField.padded := by
  refine (takes_bind (takes_fieldText .requestId) fun t =>
    takes_ofExcept (RequestId.ofString t.text)).congr fun id front => ?_
  constructor
  · rintro ⟨t, _, _, rfl, ⟨hid, rfl⟩, rfl⟩
    have ht : id.toField = t := FieldText.ext_text (RequestId.ofString_eq_ok.mp hid)
    rw [List.append_nil, ht]
  · rintro rfl
    exact ⟨id.toField, _, [], rfl, ⟨RequestId.ofString_text id, rfl⟩, (List.append_nil _).symm⟩

end Reader
end Wire
end LineKeeper
