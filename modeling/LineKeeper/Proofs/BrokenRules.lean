import LineKeeper.Proofs.FieldChecks

/-!
# The first broken rule

Ten rules say which frames hold a message.  They concern parts of the frame that overlap, and a
frame can break many of them at once; only the first in the order of `Rule.inOrder` is reported.
`Breaks` says of each rule, by the positions of the bytes, when it is broken and how that is
reported.

**Structure.** A check `Decides` some rules if it fails exactly with the first of them that is
broken.  `Decides.bind` joins two checks in a row; so reading a frame is followed check by check.

**Results.**
* `decides_request`, `Message.decides_checkFields`: the checks of a request and of the other kinds.
* `Message.decode_eq_error_iff_firstBroken`: a frame is refused exactly with its first broken
  rule, and a frame that breaks none is accepted.
-/

namespace LineKeeper

open Wire

/-- The rules that the bytes of a frame must keep. -/
inductive Rule
  | size
  | tag
  | identifier
  | chipPath
  | consumer
  | atMost
  | flags
  | atLeast
  | distinct
  | bits
deriving DecidableEq, Repr

namespace Rule

/-- The rules for requests. -/
def ofRequests : List Rule :=
  [chipPath, consumer, atMost, flags, atLeast, distinct, bits]

/-- The rules in the order in which they are checked. -/
def inOrder : List Rule :=
  size :: tag :: identifier :: ofRequests

theorem mem_inOrder (rule : Rule) : rule ∈ inOrder := by
  cases rule <;> decide

end Rule

section Broken

/-- The frame breaks a rule, and `e` says how.  Only the slots that the count covers matter, and
where several offsets or values could be named, it is the one in the first slot. -/
inductive Breaks (frame : List UInt8) : Rule → WireError → Prop
  | size (h : frame.length ≠ 489) : Breaks frame .size (.truncated frame.length)
  | tag (h : 6 < tagAt frame) : Breaks frame .tag (.unknownKind (tagAt frame))
  | identifier (htag : tagAt frame = 5 ∨ tagAt frame = 6)
      (h : ¬ HoldsIdentifier (slice frame 4 32)) :
      Breaks frame .identifier (.invalidString .requestId)
  | chipPath (htag : tagAt frame = 4) (h : ¬ HoldsText (slice frame 4 128)) :
      Breaks frame .chipPath (.invalidString .chipPath)
  | consumer (htag : tagAt frame = 4) (h : ¬ HoldsText (slice frame 132 32)) :
      Breaks frame .consumer (.invalidString .consumer)
  | atMost (htag : tagAt frame = 4) (h : 64 < countAt frame) :
      Breaks frame .atMost (.tooManyLines (countAt frame))
  | flags (htag : tagAt frame = 4) (h : 3 < flagsAt frame) :
      Breaks frame .flags (.invalidFlags (flagsAt frame))
  | atLeast (htag : tagAt frame = 4) (h : countAt frame = 0) : Breaks frame .atLeast .noLines
  | distinct {k : Nat} (htag : tagAt frame = 4) (hk : k < countAt frame)
      (hrepeats : ∃ j < k, offsetAt frame j = offsetAt frame k)
      (hfirst : ∀ i < k, ∀ j < i, offsetAt frame j ≠ offsetAt frame i) :
      Breaks frame .distinct (.duplicateOffset (offsetAt frame k))
  | bits {k : Nat} (htag : tagAt frame = 4) (hk : k < countAt frame) (hhigh : 1 < valueAt frame k)
      (hfirst : ∀ i < k, valueAt frame i ≤ 1) : Breaks frame .bits (.invalidValue (valueAt frame k))

/-- The first rule of a list that the frame breaks is broken as `e` says. -/
inductive FirstBroken (frame : List UInt8) : List Rule → WireError → Prop
  | here {rule : Rule} {rules : List Rule} {e : WireError} (h : Breaks frame rule e) :
      FirstBroken frame (rule :: rules) e
  | later {rule : Rule} {rules : List Rule} {e : WireError} (hkept : ∀ e', ¬ Breaks frame rule e')
      (h : FirstBroken frame rules e) : FirstBroken frame (rule :: rules) e

end Broken

section Decisions

variable {frame : List UInt8} {rule : Rule} {rules rest : List Rule} {e : WireError}

/-- The frame keeps all rules of a list. -/
def Keeps (frame : List UInt8) (rules : List Rule) : Prop :=
  ∀ rule ∈ rules, ∀ e, ¬ Breaks frame rule e

theorem firstBroken_append :
    FirstBroken frame (rules ++ rest) e ↔
      FirstBroken frame rules e ∨ Keeps frame rules ∧ FirstBroken frame rest e := by
  induction rules with
  | nil =>
      constructor
      · exact fun h => .inr ⟨fun _ h' => (List.not_mem_nil h').elim, h⟩
      · rintro (h | ⟨-, h⟩)
        · cases h
        · exact h
  | cons rule rules ih =>
      rw [List.cons_append]
      constructor
      · rintro (h | ⟨hkept, h⟩)
        · exact .inl (.here h)
        · rcases ih.mp h with h | ⟨hkeeps, h⟩
          · exact .inl (.later hkept h)
          · exact .inr ⟨List.forall_mem_cons.mpr ⟨hkept, hkeeps⟩, h⟩
      · rintro ((h | ⟨hkept, h⟩) | ⟨hkeeps, h⟩)
        · exact .here h
        · exact .later hkept (ih.mpr (.inl h))
        · obtain ⟨hkept, hkeeps⟩ := List.forall_mem_cons.mp hkeeps
          exact .later hkept (ih.mpr (.inr ⟨hkeeps, h⟩))

theorem FirstBroken.breaks (h : FirstBroken frame rules e) : ∃ rule, Breaks frame rule e := by
  induction h with
  | here h => exact ⟨_, h⟩
  | later _ _ ih => exact ih

theorem firstBroken_singleton : FirstBroken frame [rule] e ↔ Breaks frame rule e := by
  constructor
  · rintro (h | ⟨-, h⟩)
    · exact h
    · cases h
  · exact .here

/-- Rules are kept exactly if none is the first that is broken. -/
theorem keeps_iff : Keeps frame rules ↔ ∀ e, ¬ FirstBroken frame rules e := by
  induction rules with
  | nil =>
      constructor
      · rintro - e ⟨⟩
      · rintro - rule hrule
        exact (List.not_mem_nil hrule).elim
  | cons rule rules ih =>
      rw [Keeps, List.forall_mem_cons]
      constructor
      · rintro ⟨hkept, hkeeps⟩ e (h | ⟨-, h⟩)
        · exact hkept e h
        · exact ih.mp hkeeps e h
      · intro hnone
        have hkept : ∀ e, ¬ Breaks frame rule e := fun e h => hnone e (.here h)
        exact ⟨hkept, ih.mpr fun e h => hnone e (.later hkept h)⟩

variable {α β : Type} {x : Except WireError α} {f : α → Except WireError β}

/-- The check fails exactly with the first of the rules that is broken. -/
def Decides (frame : List UInt8) (rules : List Rule) (x : Except WireError α) : Prop :=
  ∀ e, x = .error e ↔ FirstBroken frame rules e

namespace Decides

theorem accepts_iff (h : Decides frame rules x) : (∃ a, x = .ok a) ↔ Keeps frame rules := by
  rw [keeps_iff]
  simp only [← h _]
  cases x <;> simp

theorem of_keeps (h : Keeps frame rules) (a : α) :
    Decides frame rules (.ok a : Except WireError α) := by
  intro e
  simp [keeps_iff.mp h e]

theorem single (h : ∀ e, x = .error e ↔ Breaks frame rule e) : Decides frame [rule] x :=
  fun e => (h e).trans firstBroken_singleton.symm

/-- A check for a condition decides the rule that forbids the condition. -/
theorem of_iff {c : Prop} {e : WireError} (hx : ∀ e', x = .error e' ↔ c ∧ e' = e)
    (hbreaks : ∀ e', Breaks frame rule e' ↔ c ∧ e' = e) : Decides frame [rule] x :=
  single fun e' => (hx e').trans (hbreaks e').symm

/-- Checks in a row decide their rules in a row. -/
theorem bind (hx : Decides frame rules x) (hf : ∀ a, x = .ok a → Decides frame rest (f a)) :
    Decides frame (rules ++ rest) (x >>= f) := by
  intro e
  rw [firstBroken_append, bind_eq_error_iff, hx e]
  constructor
  · rintro (h | ⟨a, ha, h⟩)
    · exact .inl h
    · exact .inr ⟨hx.accepts_iff.mp ⟨a, ha⟩, (hf a ha e).mp h⟩
  · rintro (h | ⟨hkeeps, h⟩)
    · exact .inl h
    · obtain ⟨a, ha⟩ := hx.accepts_iff.mpr hkeeps
      exact .inr ⟨a, ha, (hf a ha e).mpr h⟩

/-- What is made of an accepted value decides nothing. -/
theorem map (h : Decides frame rules x) (g : α → β) :
    Decides frame rules (x >>= fun a => pure (g a)) := by
  intro e
  rw [bind_eq_error_iff, ← h e]
  simp [pure_ne_error]

/-- Rules that are kept may stand in front. -/
theorem behind (hkeeps : Keeps frame rules) (h : Decides frame rest x) :
    Decides frame (rules ++ rest) x := by
  intro e
  rw [firstBroken_append, h e]
  simp [hkeeps, keeps_iff.mp hkeeps e]

/-- A test may stand in front. -/
theorem guard {c : Prop} [Decidable c] {e : WireError}
    (hbreaks : ∀ e', Breaks frame rule e' ↔ c ∧ e' = e) (h : ¬ c → Decides frame rest x) :
    Decides frame (rule :: rest) (if c then .error e else x) := by
  by_cases hc : c
  · have hbroken : Breaks frame rule e := (hbreaks e).mpr ⟨hc, rfl⟩
    intro e'
    rw [if_pos hc]
    constructor
    · intro he
      cases he
      exact .here hbroken
    · rintro (hbroken' | ⟨hkept, -⟩)
      · rw [((hbreaks e').mp hbroken').2]
      · exact absurd hbroken (hkept e)
  · have hkept : Keeps frame [rule] := by
      refine List.forall_mem_singleton.mpr fun e' hbroken => hc ?_
      exact ((hbreaks e').mp hbroken).1
    rw [if_neg hc]
    exact (h hc).behind hkept

end Decides

end Decisions

section Requests

variable {frame : List UInt8} {e : WireError}

/-- Flags other than the two that are known are bits above the lowest two. -/
theorem unknownFlags_iff {b : UInt8} : (b &&& 0xFC != 0) = true ↔ 3 < b := by
  rw [bne_iff_ne, ← UInt8.not_le, not_iff_not]
  constructor
  · intro h
    rcases LineSpec.cases_of_and_eq_zero h with rfl | rfl | rfl | rfl <;> decide
  · intro h
    have hle : b.toNat ≤ 3 := UInt8.le_iff_toNat_le.mp h
    obtain rfl | rfl | rfl | rfl : b = 0 ∨ b = 1 ∨ b = 2 ∨ b = 3 := by
      simp only [← UInt8.toNat_inj]
      show b.toNat = 0 ∨ b.toNat = 1 ∨ b.toNat = 2 ∨ b.toNat = 3
      omega
    all_goals decide

theorem Offsets.ofList_eq_error_iff_of_le {os : List UInt32} (hle : os.length ≤ maxLines) :
    Offsets.ofList os = .error e ↔
      os = [] ∧ e = .noLines ∨ os ≠ [] ∧ ∃ o, firstRepeat? [] os = some o ∧
        e = .duplicateOffset o := by
  by_cases hne : os = []
  · simp [ofList, hne, eq_comm]
  · simp only [ofList, dif_neg hne, dif_pos hle]
    split
    · next hnone => simp [hne, hnone]
    · next o hsome => simp [hne, hsome, eq_comm]

/-- The check of the parts of a request fails with that of the offsets, or else with that of the
values, of which there are enough. -/
theorem LineSpec.ofParts_eq_bind (chipPath : FieldText .chipPath) (consumer : FieldText .consumer)
    (os : List UInt32) (vs : List UInt8) (b : UInt8) (hlen : vs.length = os.length) :
    LineSpec.ofParts chipPath consumer os vs b = .error e ↔
      (do let _ ← Offsets.ofList os; levelsOf vs) = .error e := by
  simp only [ofParts, bind_eq_error_iff, Offsets.ofList_eq_ok_iff]
  refine or_congr_right (exists_congr fun lines => and_congr_right fun hlines => ?_)
  have hvalues : checkValues lines.list.length vs = levelsOf vs := by
    rw [checkValues, if_pos (by rw [hlines, hlen])]
  rw [← hvalues]
  split
  · next h => simp [h]
  · next h => simp [h]

section Tagged

variable (htag : tagAt frame = 4)

include htag

theorem decides_offsets (hfew : ¬ maxLines < countAt frame) :
    Decides frame [.atLeast, .distinct]
      (Offsets.ofList ((List.range (countAt frame)).map (offsetAt frame))) := by
  have hle : ((List.range (countAt frame)).map (offsetAt frame)).length ≤ maxLines := by
    rw [List.length_map, List.length_range]
    omega
  have hnil : (List.range (countAt frame)).map (offsetAt frame) = [] ↔ countAt frame = 0 := by
    rw [List.map_eq_nil_iff, List.range_eq_nil]
  intro e
  rw [Offsets.ofList_eq_error_iff_of_le hle]
  simp only [ne_eq, hnil, firstRepeat?_slots]
  constructor
  · rintro (⟨hzero, rfl⟩ | ⟨hpos, o, ⟨k, hk, hrepeats, hfirst, rfl⟩, rfl⟩)
    · exact .here (.atLeast htag hzero)
    · refine .later ?_ (.here (.distinct htag hk hrepeats hfirst))
      intro e hbroken
      cases hbroken with
      | atLeast _ hzero => exact hpos hzero
  · rintro (hbroken | ⟨-, hbroken | ⟨-, ⟨⟩⟩⟩)
    · cases hbroken with
      | atLeast _ hzero => exact .inl ⟨hzero, rfl⟩
    · cases hbroken with
      | distinct _ hk hrepeats hfirst =>
          exact .inr ⟨by omega, _, ⟨_, hk, hrepeats, hfirst, rfl⟩, rfl⟩

theorem decides_values :
    Decides frame [.bits] (levelsOf ((List.range (countAt frame)).map (valueAt frame))) := by
  refine .single fun e => ?_
  rw [levelsOf_slots]
  constructor
  · rintro ⟨k, hk, hhigh, hfirst, rfl⟩
    exact .bits htag hk hhigh hfirst
  · intro hbroken
    cases hbroken with
    | bits _ hk hhigh hfirst => exact ⟨_, hk, hhigh, hfirst, rfl⟩

theorem breaks_chipPath_iff (e : WireError) :
    Breaks frame .chipPath e ↔
      ¬ HoldsText (slice frame 4 128) ∧ e = .invalidString .chipPath := by
  constructor
  · intro hbroken
    cases hbroken with
    | chipPath _ h => exact ⟨h, rfl⟩
  · rintro ⟨h, rfl⟩
    exact .chipPath htag h

theorem breaks_consumer_iff (e : WireError) :
    Breaks frame .consumer e ↔
      ¬ HoldsText (slice frame 132 32) ∧ e = .invalidString .consumer := by
  constructor
  · intro hbroken
    cases hbroken with
    | consumer _ h => exact ⟨h, rfl⟩
  · rintro ⟨h, rfl⟩
    exact .consumer htag h

theorem breaks_atMost_iff (e : WireError) :
    Breaks frame .atMost e ↔ maxLines < countAt frame ∧ e = .tooManyLines (countAt frame) := by
  constructor
  · intro hbroken
    cases hbroken with
    | atMost _ h => exact ⟨h, rfl⟩
  · rintro ⟨h, rfl⟩
    exact .atMost htag h

theorem breaks_flags_iff (e : WireError) :
    Breaks frame .flags e ↔
      (flagsAt frame &&& 0xFC != 0) = true ∧ e = .invalidFlags (flagsAt frame) := by
  rw [unknownFlags_iff]
  constructor
  · intro hbroken
    cases hbroken with
    | flags _ h => exact ⟨h, rfl⟩
  · rintro ⟨h, rfl⟩
    exact .flags htag h

theorem decides_request (hlen : frame.length = frameSize) :
    Decides frame Rule.ofRequests (LineSpec.check frame) := by
  have hpath : (slice frame 4 128).length = Field.chipPath.width :=
    slice_length (by rw [hlen]; decide)
  have hlabel : (slice frame 132 32).length = Field.consumer.width :=
    slice_length (by rw [hlen]; decide)
  have hfirst : Decides frame [.chipPath] (FieldText.ofPadded .chipPath (slice frame 4 128)) :=
    .of_iff (fun _ => FieldText.ofPadded_eq_error_iff hpath) (breaks_chipPath_iff htag)
  have hsecond : Decides frame [.consumer] (FieldText.ofPadded .consumer (slice frame 132 32)) :=
    .of_iff (fun _ => FieldText.ofPadded_eq_error_iff hlabel) (breaks_consumer_iff htag)
  refine hfirst.bind fun chipPath _ => hsecond.bind fun consumer _ =>
    Decides.guard (breaks_atMost_iff htag) fun hfew =>
    Decides.guard (breaks_flags_iff htag) fun _ e => ?_
  rw [LineSpec.ofParts_eq_bind _ _ _ _ _ (by simp only [List.length_map])]
  exact (decides_offsets htag hfew).bind (fun _ _ => decides_values htag) e

end Tagged

end Requests

namespace Message

variable {frame : List UInt8}

/-- A frame that is no request keeps the rules for requests. -/
theorem keeps_ofRequests (htag : tagAt frame ≠ 4) : Keeps frame Rule.ofRequests := by
  intro rule hrule e hbroken
  cases hbroken with
  | size => exact absurd hrule (by decide)
  | tag => exact absurd hrule (by decide)
  | identifier => exact absurd hrule (by decide)
  | chipPath h => exact htag h
  | consumer h => exact htag h
  | atMost h => exact htag h
  | flags h => exact htag h
  | atLeast h => exact htag h
  | distinct h => exact htag h
  | bits h => exact htag h

theorem keeps_identifier (h5 : tagAt frame ≠ 5) (h6 : tagAt frame ≠ 6) :
    Keeps frame [.identifier] := by
  refine List.forall_mem_singleton.mpr fun e hbroken => ?_
  cases hbroken with
  | identifier h => exact h.elim h5 h6

theorem decides_identifier (hlen : frame.length = frameSize)
    (htag : tagAt frame = 5 ∨ tagAt frame = 6) :
    Decides frame [.identifier] (RequestId.check frame) := by
  refine .of_iff (fun _ => RequestId.check_eq_error_iff hlen) fun e => ?_
  constructor
  · intro hbroken
    cases hbroken with
    | identifier _ h => exact ⟨h, rfl⟩
  · rintro ⟨h, rfl⟩
    exact .identifier htag h

theorem decides_checkFields (hlen : frame.length = frameSize) {kind : Kind}
    (htag : tagAt frame = kind.tag) :
    Decides frame (.identifier :: Rule.ofRequests) (checkFields frame kind) := by
  have hidentified : tagAt frame = 5 ∨ tagAt frame = 6 → ∀ g : RequestId → Message,
      Decides frame (.identifier :: Rule.ofRequests)
        (RequestId.check frame >>= fun id => .ok (g id)) := by
    intro h g
    have hother : Keeps frame Rule.ofRequests :=
      keeps_ofRequests (by rcases h with h | h <;> rw [h] <;> decide)
    exact (decides_identifier hlen h).bind fun id _ => .of_keeps hother (g id)
  have hplain : kind.tag ≠ 4 → kind.tag ≠ 5 → kind.tag ≠ 6 → ∀ m : Message,
      Decides frame (.identifier :: Rule.ofRequests) (.ok m : Except WireError Message) := by
    intro h4 h5 h6 m
    rw [← htag] at h4 h5 h6
    exact .of_keeps (List.forall_mem_append.mpr ⟨keeps_identifier h5 h6, keeps_ofRequests h4⟩) m
  cases kind with
  | ok => exact hplain (by decide) (by decide) (by decide) _
  | error => exact hplain (by decide) (by decide) (by decide) _
  | ping => exact hplain (by decide) (by decide) (by decide) _
  | stop => exact hplain (by decide) (by decide) (by decide) _
  | request =>
      have hother : Keeps frame [.identifier] :=
        keeps_identifier (by rw [htag]; decide) (by rw [htag]; decide)
      exact ((decides_request htag hlen).map Message.request).behind hother
  | reqOk => exact hidentified (.inl htag) .reqOk
  | release => exact hidentified (.inr htag) .release

end Message

/-- A word is no tag exactly if it is larger than all tags. -/
theorem Kind.ofTag?_eq_none_iff {tag : UInt32} : Kind.ofTag? tag = none ↔ 6 < tag := by
  constructor
  · intro hnone
    by_contra hle
    have hle : tag.toNat ≤ 6 := UInt32.le_iff_toNat_le.mp (UInt32.not_lt.mp hle)
    have hsome : ∀ n : Fin 7, (Kind.ofTag? (UInt32.ofNat n.val)).isSome = true := by decide
    have := hsome ⟨tag.toNat, by omega⟩
    rw [UInt32.ofNat_toNat, hnone] at this
    cases this
  · intro hlt
    cases hkind : Kind.ofTag? tag with
    | none => rfl
    | some kind =>
        rw [← Kind.tag_of_ofTag? hkind] at hlt
        cases kind <;> exact absurd hlt (by decide)

namespace Message

variable {frame : List UInt8}

theorem decides_tag : Decides frame [.tag] (Kind.ofTag (tagAt frame)) := by
  refine .single fun e => ?_
  constructor
  · intro h
    rw [Kind.ofTag] at h
    split at h
    · cases h
    · next hnone =>
      cases h
      exact .tag (Kind.ofTag?_eq_none_iff.mp hnone)
  · intro hbroken
    cases hbroken with
    | tag h => rw [Kind.ofTag, Kind.ofTag?_eq_none_iff.mpr h]

theorem decides_decode (frame : List UInt8) : Decides frame Rule.inOrder (decode frame) := by
  by_cases hlen : frame.length = frameSize
  · have hsize : Keeps frame [.size] := by
      refine List.forall_mem_singleton.mpr fun e hbroken => ?_
      cases hbroken with
      | size h => exact h hlen
    have hfields : Decides frame (.tag :: .identifier :: Rule.ofRequests) (check frame) := by
      refine decides_tag.bind fun kind hkind => decides_checkFields hlen ?_
      rw [Kind.ofTag] at hkind
      split at hkind
      · next found hfound =>
        cases hkind
        exact (Kind.tag_of_ofTag? hfound).symm
      · cases hkind
    rw [decode_eq_check hlen]
    exact hfields.behind hsize
  · intro e
    rw [decode_of_length_ne hlen]
    constructor
    · intro h
      cases h
      exact .here (.size hlen)
    · rintro (hbroken | ⟨hkept, -⟩)
      · cases hbroken
        rfl
      · exact absurd (.size hlen) (hkept _)

/-- **The first broken rule.** A frame is refused exactly with the first of the rules that it
breaks, and one that breaks no rule is accepted.  So no text is ever refused for its length, and
no list of values for its number. -/
theorem decode_eq_error_iff_firstBroken (frame : List UInt8) :
    (∀ e, decode frame = .error e ↔ FirstBroken frame Rule.inOrder e) ∧
      ((∃ m, decode frame = .ok m) ↔ ∀ rule e, ¬ Breaks frame rule e) ∧
      (∀ field, decode frame ≠ .error (.fieldTooLong field)) ∧
      ∀ expected actual, decode frame ≠ .error (.valueCount expected actual) := by
  have hdecides := decides_decode frame
  refine ⟨hdecides, ?_, fun field h => ?_, fun expected actual h => ?_⟩
  · rw [hdecides.accepts_iff]
    exact ⟨fun hkeeps rule => hkeeps rule rule.mem_inOrder, fun h rule _ => h rule⟩
  · obtain ⟨rule, hbroken⟩ := ((hdecides _).mp h).breaks
    cases hbroken
  · obtain ⟨rule, hbroken⟩ := ((hdecides _).mp h).breaks
    cases hbroken

end Message

end LineKeeper
