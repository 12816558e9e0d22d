import CommandLink.Json.Access
import CommandLink.Proofs.Json.RoundTrip
import CommandLink.Proofs.Record.Placement
import CommandLink.Proofs.Schema.Canonical
import CommandLink.Proofs.Schema.Order
import CommandLink.Tool.SchemaView

/-!
# What a schema is listed as

The listing of a schema says for every field of every message type at which offset of a record its
bytes are and how many they are (`Schema.Lists`). It is what a peer in another language goes by, and
is read here as such a peer reads it: out of the text that is printed.

* `Schema.prints_iff`: which JSON value is printed.
* `Schema.lists_iff`: the listing gives the placements of the fields.
* `Schema.lists_ranges`: so it is right about the bytes that are written and about those that are
  read.
-/

namespace CommandLink

/-! ## Printing the listing -/

theorem linesBytes_singleton_inj {a b : String} (h : linesBytes [a] = linesBytes [b]) : a = b := by
  have hline (text : String) : linesBytes [text] = Bytes.ofString text ++ Bytes.ofString "\n" := by
    simp [linesBytes, String.join, Bytes.ofString]
  rw [hline, hline] at h
  exact Bytes.ofString_inj (List.append_cancel_right h)

theorem Placement.isText_toJson (p : Placement) : p.toJson.IsText := by
  unfold toJson
  split <;> simp

theorem Message.isText_layoutJson (m : Message) : m.layoutJson.IsText := by
  simp [layoutJson, Placement.isText_toJson]

theorem Schema.isText_layoutJson (s : Schema) : s.layoutJson.IsText := by
  simp [layoutJson, Message.isText_layoutJson]

/-- In the JSON format the schema is printed on one line, whose text is this value. -/
def Schema.Prints (s : Schema) (listing : Json) : Prop :=
  ∃ printed, s.view .json = linesBytes [printed] ∧ Json.parse? printed = some listing

/-- **The value that is printed is the one that has the layouts.** -/
theorem Schema.prints_iff {s : Schema} {listing : Json} :
    s.Prints listing ↔ listing = s.layoutJson := by
  have hread := Json.parse?_text s.isText_layoutJson
  constructor
  · rintro ⟨printed, hprinted, hparse⟩
    have hsame : s.layoutJson.text = printed := linesBytes_singleton_inj hprinted
    rw [← hsame, hread] at hparse
    exact (Option.some.inj hparse).symm
  · rintro rfl
    exact ⟨_, rfl, hread⟩

/-! ## Reading the listing -/

namespace Json

/-- The value of the only member of the given name in an object. -/
def member? (name : String) : Json → Option Json
  | object members => only? name members
  | _ => none

theorem ofInt_natCast_inj {a b : Nat} (h : ofInt a = ofInt b) : a = b := by
  have hwhole := congrArg Numeral.whole (Json.number.inj h)
  simpa only [Numeral.ofInt, Int.natAbs_natCast] using hwhole

end Json

/-- What is printed for the schema lists the field with index `i` of the message type with the given id
with this offset and this size. -/
def Schema.Lists (s : Schema) (id : UInt16) (i offset size : Nat) : Prop :=
  ∃ listing entries entry fields field, s.Prints listing ∧
    listing.member? "messages" = some (.array entries) ∧ entry ∈ entries ∧
    entry.member? "id" = some (.ofInt id.toNat) ∧
    entry.member? "fields" = some (.array fields) ∧ fields[i]? = some field ∧
    field.member? "offset" = some (.ofInt offset) ∧ field.member? "size" = some (.ofInt size)

theorem Placement.offset_toJson (p : Placement) :
    p.toJson.member? "offset" = some (.ofInt p.offset) := by
  unfold toJson
  split <;> simp [Json.ofMembers, Json.member?, Json.only?]

theorem Placement.size_toJson (p : Placement) :
    p.toJson.member? "size" = some (.ofInt p.field.type.wireSize) := by
  unfold toJson
  split <;> simp [Json.ofMembers, Json.member?, Json.only?]

theorem Message.id_layoutJson (m : Message) :
    m.layoutJson.member? "id" = some (.ofInt m.id.toNat) := by
  simp [layoutJson, Json.ofMembers, Json.member?, Json.only?]

theorem Message.fields_layoutJson (m : Message) :
    m.layoutJson.member? "fields" = some (.array (m.placements.map Placement.toJson)) := by
  simp [layoutJson, Json.ofMembers, Json.member?, Json.only?]

theorem Schema.messages_layoutJson (s : Schema) :
    s.layoutJson.member? "messages" = some (.array (s.messages.map Message.layoutJson)) := by
  simp [layoutJson, Json.ofMembers, Json.member?, Json.only?]

namespace Schema

variable {s : Schema} {id : UInt16} {m : Message} {i offset size : Nat}

/-- **The listing gives the placements of the fields.** -/
theorem lists_iff (hm : s.message? id = some m) : s.Lists id i offset size ↔
    ∃ p, m.placements[i]? = some p ∧ p.offset = offset ∧ p.field.type.wireSize = size := by
  obtain ⟨hmem, hid⟩ := (find?_id_eq_some_iff s.registry.distinctIds).mp hm
  constructor
  · rintro ⟨listing, entries, entry, fields, field, hprints, hentries, hentry, hentryId, hfields,
      hfield, hoffset, hsize⟩
    rw [prints_iff.mp hprints, messages_layoutJson, Option.some.injEq, Json.array.injEq] at hentries
    obtain ⟨n, hn, rfl⟩ := List.mem_map.mp (hentries ▸ hentry)
    rw [Message.id_layoutJson, Option.some.injEq] at hentryId
    have hnid : n.id = id := UInt16.toNat_inj.mp (Json.ofInt_natCast_inj hentryId)
    have hfound : s.message? id = some n :=
      (find?_id_eq_some_iff s.registry.distinctIds).mpr ⟨hn, hnid⟩
    cases hm.symm.trans hfound
    rw [Message.fields_layoutJson, Option.some.injEq, Json.array.injEq] at hfields
    rw [← hfields, List.getElem?_map, Option.map_eq_some_iff] at hfield
    obtain ⟨p, hp, rfl⟩ := hfield
    rw [Placement.offset_toJson, Option.some.injEq] at hoffset
    rw [Placement.size_toJson, Option.some.injEq] at hsize
    exact ⟨p, hp, Json.ofInt_natCast_inj hoffset, Json.ofInt_natCast_inj hsize⟩
  · rintro ⟨p, hp, rfl, rfl⟩
    refine ⟨_, _, m.layoutJson, _, p.toJson, prints_iff.mpr rfl, messages_layoutJson s,
      List.mem_map_of_mem hmem, ?_, m.fields_layoutJson, ?_, p.offset_toJson, p.size_toJson⟩
    · rw [Message.id_layoutJson, hid]
    · rw [List.getElem?_map, hp]
      rfl

/-- **The listing, the writer and the reader agree on where the fields of a record are.** For every
message type of a schema, with offsets and sizes as they are listed:

* every field is listed once, with the size of its type, and nothing else is;
* the ranges of the fields come in order, do not overlap, and cover a record without a gap;
* in the bytes of every accepted record, the range of a field is the encoding of its value alone, so
  that records with the same value there have the same bytes there;
* of two byte strings that are read as records, those that agree on the range of a field give it the
  same value;
* what is behind a record makes no difference to how it is read. -/
theorem lists_ranges (hm : s.message? id = some m) :
    (∀ i f, m.fields[i]? = some f → ∃ start, ∀ offset size,
      s.Lists id i offset size ↔ offset = start ∧ size = f.type.wireSize) ∧
    (∀ k, k < m.wireSize ↔
      ∃ i offset size, s.Lists id i offset size ∧ offset ≤ k ∧ k < offset + size) ∧
    (∀ i j offset size offset' size', i < j → s.Lists id i offset size →
      s.Lists id j offset' size' → offset + size ≤ offset') ∧
    (∀ i offset size, s.Lists id i offset size → ∃ f, m.fields[i]? = some f ∧
      (∀ record bytes, m.encode record = .ok bytes →
        ∃ v, record[i]? = some v ∧ f.type.encode v = .ok (bytes.range offset size)) ∧
      (∀ record bytes record' bytes', m.encode record = .ok bytes → m.encode record' = .ok bytes' →
        record[i]? = record'[i]? → bytes.range offset size = bytes'.range offset size) ∧
      (∀ record bytes record' bytes', m.decode bytes = .ok record → m.decode bytes' = .ok record' →
        bytes.range offset size = bytes'.range offset size →
          ∃ v, record[i]? = some v ∧ record'[i]? = some v)) ∧
    ∀ bytes bytes', m.wireSize ≤ bytes.length → m.wireSize ≤ bytes'.length →
      bytes.take m.wireSize = bytes'.take m.wireSize → m.decode bytes = m.decode bytes' := by
  refine ⟨fun i f hf => ?_, fun k => ?_, fun i j offset size offset' size' hij hi hj => ?_,
    fun i offset size hi => ?_, fun bytes bytes' => Message.decode_congr⟩
  · obtain ⟨p, hp, rfl⟩ := Message.exists_placements hf
    refine ⟨p.offset, fun offset size => (lists_iff hm).trans ⟨?_, ?_⟩⟩
    · rintro ⟨q, hq, rfl, rfl⟩
      cases hp.symm.trans hq
      exact ⟨rfl, rfl⟩
    · rintro ⟨rfl, rfl⟩
      exact ⟨p, hp, rfl, rfl⟩
  · rw [m.lt_wireSize_iff]
    constructor
    · rintro ⟨p, hp, hlow, hhigh⟩
      obtain ⟨i, hp⟩ := List.mem_iff_getElem?.mp hp
      exact ⟨i, p.offset, p.field.type.wireSize, (lists_iff hm).mpr ⟨p, hp, rfl, rfl⟩, hlow, hhigh⟩
    · rintro ⟨i, offset, size, hi, hlow, hhigh⟩
      obtain ⟨p, hp, rfl, rfl⟩ := (lists_iff hm).mp hi
      exact ⟨p, List.mem_of_getElem? hp, hlow, hhigh⟩
  · obtain ⟨p, hp, rfl, rfl⟩ := (lists_iff hm).mp hi
    obtain ⟨q, hq, rfl, rfl⟩ := (lists_iff hm).mp hj
    exact Message.ending_le_offset hij hp hq
  · obtain ⟨p, hp, rfl, rfl⟩ := (lists_iff hm).mp hi
    refine ⟨p.field, Message.field_of_placements hp, fun record bytes hencode => ?_,
      fun record bytes record' bytes' hencode hencode' hsame => ?_,
      fun record bytes record' bytes' hdecode hdecode' hsame => ?_⟩
    · exact Message.encode_at hencode hp
    · obtain ⟨v, hv, hrange⟩ := Message.encode_at hencode hp
      obtain ⟨w, hw, hrange'⟩ := Message.encode_at hencode' hp
      cases hv.symm.trans (hsame.trans hw)
      exact Except.ok.inj (hrange.symm.trans hrange')
    · obtain ⟨v, hv, hrange⟩ := Message.decode_at hdecode hp
      obtain ⟨w, hw, hrange'⟩ := Message.decode_at hdecode' hp
      cases hrange.symm.trans (hsame ▸ hrange')
      exact ⟨v, hv, hw⟩

theorem lists_ranges_mixed :
    ∃ s, compile mixedDescription .current .standard = .ok s ∧ s.message? 40 = some armMessage ∧
      s.Lists 40 1 1 4 ∧
      armMessage.encode [.int 7, .int 2] = .ok [7, 0x40, 0, 0, 0] ∧
      (∃ f v, armMessage.fields[1]? = some f ∧ [FieldValue.int 7, .int 2][1]? = some v ∧
        f.type.encode v = .ok (Bytes.range [7, 0x40, 0, 0, 0] 1 4)) ∧
      ∃ record record' v, armMessage.decode [7, 0x40, 0, 0, 0] = .ok record ∧
        armMessage.decode [9, 0x40, 0, 0, 0, 5] = .ok record' ∧
        record[1]? = some v ∧ record'[1]? = some v := by
  obtain ⟨s, hs⟩ : ∃ s, compile mixedDescription .current .standard = .ok s :=
    exists_compile_iff.mpr (by decide +kernel)
  obtain ⟨-, -, hdescription⟩ := compile_eq_ok_iff.mp hs
  have hm : s.message? 40 = some armMessage := by
    rw [message?_eq, hdescription]
    rfl
  have hlisted : s.Lists 40 1 1 4 := (lists_iff hm).mpr ⟨⟨⟨"angle", .f32⟩, 1⟩, rfl, rfl, rfl⟩
  have hencode : armMessage.encode [.int 7, .int 2] = .ok [7, 0x40, 0, 0, 0] := by decide +kernel
  obtain ⟨record, hdecode⟩ : ∃ record, armMessage.decode [7, 0x40, 0, 0, 0] = .ok record := ⟨_, rfl⟩
  obtain ⟨record', hdecode'⟩ : ∃ record, armMessage.decode [9, 0x40, 0, 0, 0, 5] = .ok record :=
    ⟨_, rfl⟩
  obtain ⟨-, -, -, hrange, -⟩ := lists_ranges hm
  obtain ⟨f, hf, hwritten, -, hread⟩ := hrange 1 1 4 hlisted
  obtain ⟨v, hv, hbytes⟩ := hwritten _ _ hencode
  obtain ⟨w, hw, hw'⟩ := hread _ _ _ _ hdecode hdecode' rfl
  exact ⟨s, hs, hm, hlisted, hencode, ⟨f, v, hf, hv, hbytes⟩, record, record', w, hdecode, hdecode',
    hw, hw'⟩

end Schema

end CommandLink
