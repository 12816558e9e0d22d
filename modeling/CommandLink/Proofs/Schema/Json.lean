import CommandLink.Proofs.Json.Access
import CommandLink.Proofs.Json.RoundTrip
import CommandLink.Schema.Json
import CommandLink.Schema.Layout

/-!
# Descriptions survive JSON

Every part of a description is read back from its JSON value, as long as the arrays and objects around
it leave room for those that it opens itself: a field type opens one, a field two, a message type four
and a description six.

* `FieldType.ofJson?_toJson`, `Field.ofJson?_toJson`, `Message.ofJson?_toJson`: this for every part.
* `Description.ofText_text`: a description whose scales are finite is read back from its JSON text, so
  that its hash, what a check says about it and its layouts are the same. It need not obey any rule.
-/

namespace CommandLink

/-! ## Parts -/

namespace FieldType

/-- The scale, if there is one, is finite; JSON has no others. -/
def ScaleIsFinite (type : FieldType) : Prop := ∀ s, type.scale? = some s → s.isFinite = true

/-- **A field type is read back**, with the bits of its scale. -/
theorem ofJson?_toJson {type : FieldType} (h : type.ScaleIsFinite) {depth : Nat}
    (hdepth : depth < Json.maxDepth) : ofJson? depth type.toJson = some type := by
  cases type with
  | fixed32 s =>
    obtain ⟨n, hn, hround, -⟩ := Json.ofBinary_of_isFinite (h s rfl)
    have hread := Json.asBinary64?_ofBinary (h s rfl)
    have hfinite := h s rfl
    have hjson : (fixed32 s).toJson =
        .object [(some "kind", .string (some "fixed32")), (some "scale", .number n)] := by
      rw [← hn]
      rfl
    rw [hn] at hread
    rw [hjson]
    simp [ofJson?, Json.isPlain, Json.allMembersPlain, hdepth, hround, hfinite, Json.only?,
      Json.asString?, hread, ofKind?]
  | _ => simp [toJson, scale?, name, Json.ofMembers, ofJson?, Json.isPlain, Json.allMembersPlain,
      Json.only?, Json.ofString, Json.asString?, ofKind?, hdepth]

theorem isText_toJson (type : FieldType) : type.toJson.IsText := by
  cases type <;> simp [toJson, scale?]

end FieldType

namespace Field

/-- **A field is read back.** -/
theorem ofJson?_toJson {f : Field} (h : f.type.ScaleIsFinite) {depth : Nat}
    (hdepth : depth + 1 < Json.maxDepth) : ofJson? depth f.toJson = some f := by
  have htype := FieldType.ofJson?_toJson h hdepth
  have hparts : f.toJson.asFields? depth ["name", "type"] = some [.ofString f.name, f.type.toJson] :=
    Json.asFields?_ofMembers (by rfl) (by decide) (Nat.lt_of_succ_lt hdepth)
  unfold ofJson?
  refine Option.bind_eq_some_iff.mpr ⟨_, hparts, ?_⟩
  refine Option.bind_eq_some_iff.mpr ⟨_, rfl, ?_⟩
  exact Option.bind_eq_some_iff.mpr ⟨_, htype, rfl⟩

theorem isText_toJson (f : Field) : f.toJson.IsText := by
  simp [toJson, FieldType.isText_toJson]

end Field

namespace Message

/-- The scales of all fields are finite. -/
def ScalesAreFinite (m : Message) : Prop := ∀ f ∈ m.fields, f.type.ScaleIsFinite

/-- **A message type is read back.** -/
theorem ofJson?_toJson {m : Message} (h : m.ScalesAreFinite) {depth : Nat}
    (hdepth : depth + 3 < Json.maxDepth) : ofJson? depth m.toJson = some m := by
  have hid : messageId? (.ofInt m.id.toNat) = some m.id := by
    rw [messageId?, Json.asNat?_ofInt m.id.toNat_lt, Option.map_some, UInt16.ofNat_toNat]
  have hfields : (m.fields.map Field.toJson).mapM (Field.ofJson? (depth + 2)) = some m.fields :=
    Json.mapM_eq_some fun f hf => Field.ofJson?_toJson (h f hf) hdepth
  have hparts : m.toJson.asFields? depth ["id", "name", "fields"] =
      some [.ofInt m.id.toNat, .ofString m.name, .array (m.fields.map Field.toJson)] :=
    Json.asFields?_ofMembers (by rfl) (by decide) (by omega)
  have hitems : (Json.array (m.fields.map Field.toJson)).asItems? (depth + 1) =
      some (m.fields.map Field.toJson) := if_pos (by omega)
  unfold ofJson?
  refine Option.bind_eq_some_iff.mpr ⟨_, hparts, ?_⟩
  refine Option.bind_eq_some_iff.mpr ⟨_, hid, ?_⟩
  refine Option.bind_eq_some_iff.mpr ⟨_, rfl, ?_⟩
  refine Option.bind_eq_some_iff.mpr ⟨_, hitems, ?_⟩
  exact Option.bind_eq_some_iff.mpr ⟨_, hfields, rfl⟩

theorem isText_toJson (m : Message) : m.toJson.IsText := by
  simp [toJson, Field.isText_toJson]

end Message

namespace Description

/-! ## Whole descriptions -/

/-- The scales of all fields are finite. -/
def ScalesAreFinite (d : Description) : Prop := ∀ m ∈ d.messages, m.ScalesAreFinite

theorem ofJson?_toJson {d : Description} (h : d.ScalesAreFinite) : ofJson? d.toJson = some d := by
  have hmessages : (d.messages.map Message.toJson).mapM (Message.ofJson? 2) = some d.messages :=
    Json.mapM_eq_some fun m hm => Message.ofJson?_toJson (h m hm) (by decide)
  have hparts : d.toJson.asFields? 0 ["messages"] =
      some [.array (d.messages.map Message.toJson)] :=
    Json.asFields?_ofMembers (by rfl) (by decide) (by decide)
  have hitems : (Json.array (d.messages.map Message.toJson)).asItems? 1 =
      some (d.messages.map Message.toJson) := rfl
  unfold ofJson?
  refine Option.bind_eq_some_iff.mpr ⟨_, hparts, ?_⟩
  refine Option.bind_eq_some_iff.mpr ⟨_, hitems, ?_⟩
  exact Option.bind_eq_some_iff.mpr ⟨_, hmessages, rfl⟩

theorem isText_toJson (d : Description) : d.toJson.IsText := by
  simp [toJson, Message.isText_toJson]

/-- **A description is read back from its JSON text**: what is read is the same description, bit by bit,
so that it has the same hash at every version, breaks the same rule first if any, and gives the same
schemas and layouts. -/
theorem ofText_text (d : Description) (h : d.ScalesAreFinite) : ∃ e, ofText d.toJson.text = .ok e ∧
    e = d ∧ (∀ version, e.hash version = d.hash version) ∧
      (∀ limits, e.violation? limits = d.violation? limits) ∧
      (∀ version limits, Schema.compile e version limits = Schema.compile d version limits) ∧
      e.messages.map Message.placements = d.messages.map Message.placements := by
  have hread : ofText d.toJson.text = .ok d := by
    rw [ofText, Json.parse?_text d.isText_toJson, Option.bind_some, ofJson?_toJson h]
  exact ⟨d, hread, rfl, fun _ => rfl, fun _ => rfl, fun _ _ => rfl, rfl⟩

/-- Not every description that survives is a valid one: names with quotes, control characters and
letters outside of ASCII, a repeated id, and a scale of minus zero. -/
def unruly : Description :=
  ⟨[⟨7, "say \"no\"\\\n", [⟨"größe", .fixed32 (.zero true)⟩, ⟨"", .u8⟩]⟩, ⟨7, "\x01", []⟩]⟩

theorem ofText_text_unruly : ∃ e, ofText unruly.toJson.text = .ok e ∧
    e = unruly := by
  have hfinite : unruly.ScalesAreFinite := by
    intro m hm f hf s hs
    simp only [unruly, List.mem_cons, List.not_mem_nil, or_false] at hm
    obtain rfl | rfl := hm
    · simp only [List.mem_cons, List.not_mem_nil, or_false] at hf
      obtain rfl | rfl := hf
      · obtain rfl := Option.some.inj hs
        decide
      · cases hs
    · cases hf
  obtain ⟨e, hread, heq, -⟩ := ofText_text unruly hfinite
  exact ⟨e, hread, heq⟩

end Description

end CommandLink
