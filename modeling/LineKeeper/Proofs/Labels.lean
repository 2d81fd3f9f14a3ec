import LineKeeper.Proofs.Building
import LineKeeper.Proofs.LineOrders
import Mathlib.Data.List.TakeDrop

/-!
# Labels that lose their last byte

A client's label may fill its field of 32 bytes, for on the wire a full field needs no
terminator.  The field of the device is as wide, but its last byte is a terminator.  So a label
of 32 bytes is accepted and does not reach the device in full; all others that are accepted do.

**Results.**
* `LineSpec.withConsumer_eq_ok_iff_fits`: the labels that are accepted.
* `Device.order_of_request`: a line request that reached the device is that of the client.
* `Device.labels`: which labels reach the device in full, and what the others lose.
-/

namespace LineKeeper

namespace LineSpec

variable {spec next : LineSpec} {text : String}

/-- The bytes of the label that the lines are to have: the client's, or one for clients that gave
none. -/
def label (spec : LineSpec) : List UInt8 :=
  Text.Utf8.encode
    (if spec.consumer.text = "" then LineRequest.defaultConsumer else spec.consumer.text)

/-- A label is accepted, as it is, exactly if it takes at most 32 bytes and has no NUL. -/
theorem withConsumer_eq_ok_iff_fits :
    (∃ next, spec.withConsumer text = .ok next ∧ next.consumer.text = text) ↔
      (Text.Utf8.encode text).length ≤ 32 ∧ (0 : UInt8) ∉ Text.Utf8.encode text := by
  constructor
  · rintro ⟨next, -, rfl⟩
    exact ⟨next.consumer.fits, next.consumer.nul_free⟩
  · rintro ⟨hfits, hnul⟩
    exact ⟨{ spec with consumer := ⟨text, hfits, hnul⟩ }, withConsumer_eq_ok_iff.mpr rfl, rfl⟩

theorem length_label_le (spec : LineSpec) : spec.label.length ≤ 32 := by
  unfold label
  split
  · decide
  · exact spec.consumer.fits

/-- Only a client's own label fills the field. -/
theorem length_label_eq_iff : spec.label.length = 32 ↔ spec.consumer.bytes.length = 32 := by
  unfold label
  split
  · next hempty =>
    rw [FieldText.bytes, hempty]
    decide
  · exact Iff.rfl

end LineSpec

namespace LineRequest

variable {order : LineRequest} {spec : LineSpec}

/-- What has become of the label in a line request: one of 32 bytes lost its last byte, and every
other is there in full. -/
structure Labels (order : LineRequest) (spec : LineSpec) : Prop where
  front : order.consumer = spec.label.take 31
  kept : order.consumer = spec.label ↔ spec.consumer.bytes.length < 32
  lost : spec.consumer.bytes.length = 32 → ∃ last, spec.label = order.consumer ++ [last]

theorem labels_ofSpec (spec : LineSpec) : (ofSpec spec).Labels spec := by
  have hfront : (ofSpec spec).consumer = spec.label.take 31 := rfl
  have hle := spec.length_label_le
  have hfull := spec.length_label_eq_iff
  have hfits : spec.consumer.bytes.length ≤ 32 := spec.consumer.fits
  refine ⟨hfront, ?_, fun h32 => ?_⟩
  · rw [hfront, List.take_eq_self_iff]
    omega
  · have hdrop : (spec.label.drop 31).length = 1 := by
      rw [List.length_drop, hfull.mpr h32]
    obtain ⟨last, hlast⟩ := List.length_eq_one_iff.mp hdrop
    exact ⟨last, by rw [hfront, ← hlast, List.take_append_drop]⟩

end LineRequest

namespace Device

variable {d : Device} {spec : LineSpec} {calls : List DeviceCall} {call : DeviceCall}
  {order : LineRequest}

/-- A line request that reached the device for a client is the client's. -/
theorem order_of_request (hcalls : (d.request spec).2.journal = d.journal ++ calls)
    (hcall : call ∈ calls) (horder : call.request? = some order) : order = .ofSpec spec := by
  rcases d.journal_request spec with hsame | ⟨made, hmade, hjournal⟩
  · obtain rfl : calls = [] := by
      rw [hsame] at hcalls
      exact List.append_right_eq_self.mp hcalls.symm
    cases hcall
  · obtain rfl : calls = [made] := List.append_cancel_left (hcalls.symm.trans hjournal)
    rw [List.mem_singleton.mp hcall, hmade] at horder
    exact (Option.some.inj horder).symm

/-- **Labels at the device.** Of the labels that are accepted, exactly those of 32 bytes do not reach
the device in full: they lose their last byte.  What is refused for its length is longer. -/
theorem labels (hcalls : (d.request spec).2.journal = d.journal ++ calls) (hcall : call ∈ calls)
    (horder : call.request? = some order) :
    order.Labels spec ∧
      ∀ (other : LineSpec) (text : String),
        ((∃ next, other.withConsumer text = .ok next ∧ next.consumer.text = text) ↔
          (Text.Utf8.encode text).length ≤ 32 ∧ (0 : UInt8) ∉ Text.Utf8.encode text) ∧
        (other.withConsumer text = .error (.fieldTooLong .consumer) ↔
          32 < (Text.Utf8.encode text).length) := by
  refine ⟨?_, fun other text => ⟨LineSpec.withConsumer_eq_ok_iff_fits, ?_⟩⟩
  · rw [order_of_request hcalls hcall horder]
    exact LineRequest.labels_ofSpec spec
  · rw [LineSpec.withConsumer_eq_error_iff, FieldText.ofString_eq_error_iff]
    simp [Field.width]

/-- One lamp, without a label. -/
def kitchenLamp : LineSpec where
  chipPath := FieldText.firstChip
  consumer := FieldText.empty
  offsets := ⟨[3], by decide, by decide, by decide⟩
  levels := [false]
  activeLow := false
  output := false
  levels_length := by decide

/-- A label of 32 bytes, whose last letter takes two of them. -/
def kitchenLabel : FieldText .consumer :=
  ⟨"my lamp above the kitchen tablé", by decide, by decide⟩

/-- A machine with the lamp at the last line of its first chip. -/
def kitchen : Device :=
  ofChips ⟨[⟨"/dev/gpiochip0", [none, none, none, none], none, none, [], none, []⟩], none⟩

theorem kitchen_labels :
    ((kitchen.request { kitchenLamp with consumer := kitchenLabel }).2.journal =
        kitchen.journal ++ [.granted (.ofSpec { kitchenLamp with consumer := kitchenLabel }) 1]) ∧
      (LineRequest.ofSpec { kitchenLamp with consumer := kitchenLabel }).Labels
        { kitchenLamp with consumer := kitchenLabel } ∧
      ∀ (other : LineSpec) (text : String),
        ((∃ next, other.withConsumer text = .ok next ∧ next.consumer.text = text) ↔
          (Text.Utf8.encode text).length ≤ 32 ∧ (0 : UInt8) ∉ Text.Utf8.encode text) ∧
        (other.withConsumer text = .error (.fieldTooLong .consumer) ↔
          32 < (Text.Utf8.encode text).length) := by
  have hjournal : (kitchen.request { kitchenLamp with consumer := kitchenLabel }).2.journal =
      kitchen.journal ++ [.granted (.ofSpec { kitchenLamp with consumer := kitchenLabel }) 1] := by
    decide +kernel
  exact ⟨hjournal, labels hjournal (List.mem_singleton_self _) rfl⟩

/-- The label is accepted, and what reaches the device is not it and not even a text. -/
theorem kitchen_shortens :
    kitchenLamp.withConsumer kitchenLabel.text =
        .ok { kitchenLamp with consumer := kitchenLabel } ∧
      ∃ order, (kitchen.request { kitchenLamp with consumer := kitchenLabel }).2.journal =
          [.granted order 1] ∧
        order.consumer ≠ kitchenLabel.bytes ∧ Text.Utf8.decode? order.consumer = none := by
  refine ⟨by decide +kernel, .ofSpec { kitchenLamp with consumer := kitchenLabel }, ?_, ?_, ?_⟩ <;>
    decide +kernel

end Device
end LineKeeper
