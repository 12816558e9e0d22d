import CommandLink.Proofs.Json.Access
import CommandLink.Proofs.Json.RoundTrip
import CommandLink.Proofs.Text.Hex
import CommandLink.Tool.HexInput
import CommandLink.Tool.PacketView

/-!
# Hexadecimal input is what renders a byte string

* `Renders`: without its white space a text is at most one mark and then the digits of a byte string.
* `bytes_eq_ok_iff`: exactly these texts are read, and as that byte string. The mark never hides
  digits, since its second character is none.
* `bytes_ofBytes`, `bytes_spaced`: what is printed for a byte string is read back, with or without
  blanks.
* `reads_renderings`: both, for every text, and for what the tool prints for an encoded packet.
-/

namespace CommandLink

namespace HexInput

/-- Without its white space, wherever that stands, the text is the digits of the byte string, two for
each byte and in either case, behind `0x`, `0X` or nothing. -/
def Renders (text : String) (b : Bytes) : Prop :=
  ∃ mark digits : List Char, text.toList.filter (fun c => !Text.isBlank c) = mark ++ digits ∧
    (mark = [] ∨ mark = ['0', 'x'] ∨ mark = ['0', 'X']) ∧ Hex.Spells digits b

theorem not_standsFor {c : Char} (hc : c = 'x' ∨ c = 'X') (d : Nat) : ¬Hex.StandsFor c d := by
  intro h
  have hdigit := (Hex.digit?_eq_some_iff h.lt).mpr h
  obtain rfl | rfl := hc <;> cases hdigit

/-- Digits do not start with a mark. -/
theorem withoutMark_of_spells {digits : List Char} {b : Bytes} (h : Hex.Spells digits b) :
    withoutMark digits = digits := by
  rw [withoutMark.eq_def]
  split
  · obtain _ | ⟨-, hlow, -⟩ := h
    exact absurd hlow (not_standsFor (.inl rfl) _)
  · obtain _ | ⟨-, hlow, -⟩ := h
    exact absurd hlow (not_standsFor (.inr rfl) _)
  · rfl

/-- **Exactly the texts that render a byte string are read**, as that byte string. -/
theorem bytes_eq_ok_iff (text : String) (b : Bytes) : bytes text = .ok b ↔ Renders text b := by
  rw [bytes, Hex.toBytes_eq_ok_iff, digits, Text.squeeze, Renders]
  constructor
  · intro h
    generalize text.toList.filter (fun c => !Text.isBlank c) = squeezed at h ⊢
    rw [withoutMark.eq_def] at h
    split at h
    · exact ⟨['0', 'x'], _, rfl, .inr (.inl rfl), h⟩
    · exact ⟨['0', 'X'], _, rfl, .inr (.inr rfl), h⟩
    · exact ⟨[], _, rfl, .inl rfl, h⟩
  · rintro ⟨mark, digits, htext, hmark, hspells⟩
    rw [htext]
    obtain rfl | rfl | rfl := hmark
    · rwa [List.nil_append, withoutMark_of_spells hspells]
    · exact hspells
    · exact hspells

/-! ## What is printed is read back -/

theorem isBlank_digitChar {d : Nat} (h : d < 16) :
    Text.isBlank (Hex.digitChar .lower d) = false := by
  have table : ∀ d : Fin 16, Text.isBlank (Hex.digitChar .lower d) = false := by decide
  exact table ⟨d, h⟩

theorem filter_byteChars (b : UInt8) :
    (Hex.byteChars b).filter (fun c => !Text.isBlank c) = Hex.byteChars b := by
  have hb := b.toNat_lt
  rw [Hex.byteChars, List.filter_eq_self]
  intro c hc
  obtain rfl | rfl : c = _ ∨ c = _ := by simpa using hc
  · rw [isBlank_digitChar (by omega)]
    rfl
  · rw [isBlank_digitChar (by omega)]
    rfl

/-- Blanks between texts are removed with the white space inside them. -/
theorem filter_intercalate (texts : List String) :
    (" ".intercalate texts).toList.filter (fun c => !Text.isBlank c) =
      texts.flatMap fun t => t.toList.filter fun c => !Text.isBlank c := by
  have hblank : " ".toList.filter (fun c => !Text.isBlank c) = [] := by decide
  induction texts with
  | nil => rw [String.intercalate_nil, List.flatMap_nil, String.toList_empty, List.filter_nil]
  | cons t texts ih =>
    cases texts with
    | nil => rw [String.intercalate_singleton, List.flatMap_cons, List.flatMap_nil, List.append_nil]
    | cons u texts =>
      rw [String.intercalate_cons_cons, String.toList_append, String.toList_append, List.filter_append,
        List.filter_append, hblank, ih, List.append_nil]
      rfl

theorem bytes_of_filter {text : String} {b : Bytes}
    (h : text.toList.filter (fun c => !Text.isBlank c) = b.flatMap Hex.byteChars) :
    bytes text = .ok b :=
  (bytes_eq_ok_iff text b).mpr ⟨[], _, h, .inl rfl, Hex.spells_flatMap b⟩

theorem filter_flatMap_byteChars (b : Bytes) :
    (b.flatMap Hex.byteChars).filter (fun c => !Text.isBlank c) = b.flatMap Hex.byteChars := by
  rw [List.filter_flatMap]
  simp only [filter_byteChars]

/-- The digits of a byte string are read back. -/
theorem bytes_ofBytes (b : Bytes) : bytes (Hex.ofBytes b) = .ok b := by
  refine bytes_of_filter ?_
  rw [Hex.ofBytes, String.toList_ofList, filter_flatMap_byteChars]

/-- So are they with blanks between the bytes. -/
theorem bytes_spaced (b : Bytes) : bytes (Hex.spaced b) = .ok b := by
  refine bytes_of_filter ?_
  rw [Hex.spaced, filter_intercalate, List.flatMap_map]
  simp only [String.toList_ofList, filter_byteChars]

/-! ## Encoded packets -/

/-- The digits in the JSON form of an encoded packet are read back as the packet. -/
theorem exists_hex_encodedView (count : Nat) (flags : Flags) (b : Bytes) :
    ∃ printed members text, Packet.encodedView count flags b .json = linesBytes [printed] ∧
      Json.parse? printed = some (.object members) ∧
      Json.only? "hex" members = some (.ofString text) ∧ bytes text = .ok b := by
  refine ⟨_, _, Hex.ofBytes b, rfl, Json.parse?_text ?_, ?_, bytes_ofBytes b⟩
  · simp
  · exact Json.only?_eq_some (by simp) (by simp)

/-- **Hexadecimal input is read exactly where it renders a byte string**, and every other text is
refused. What is printed for a byte string is read back: its digits, its digits with blanks between the
bytes, and both as they stand in what is printed for an encoded packet. -/
theorem reads_renderings :
    (∀ text b, bytes text = .ok b ↔ Renders text b) ∧
    (∀ text, (∀ b, ¬Renders text b) → ∃ refusal, bytes text = .error refusal) ∧
    (∀ b, bytes (Hex.ofBytes b) = .ok b ∧ bytes (Hex.spaced b) = .ok b) ∧
    ∀ count flags b,
      (∃ line, Packet.encodedView count flags b .pretty = linesBytes [line] ∧ bytes line = .ok b) ∧
      ∃ printed members text, Packet.encodedView count flags b .json = linesBytes [printed] ∧
        Json.parse? printed = some (.object members) ∧
        Json.only? "hex" members = some (.ofString text) ∧ bytes text = .ok b := by
  refine ⟨bytes_eq_ok_iff, fun text hnone => ?_, fun b => ⟨bytes_ofBytes b, bytes_spaced b⟩,
    fun count flags b => ⟨⟨_, rfl, bytes_spaced b⟩, exists_hex_encodedView count flags b⟩⟩
  cases hread : bytes text with
  | error refusal => exact ⟨refusal, rfl⟩
  | ok b => exact absurd ((bytes_eq_ok_iff text b).mp hread) (hnone b)

end HexInput

end CommandLink
