import CommandLink.Schema.Description

/-!
# Well-formed descriptions

The structural rules of a description, once as a predicate (`Description.WellFormed`, with the sizes
that a receiver admits in `Description.Within`) and once as the search for the first violation
(`Description.violation?`). Main statement: `violation?_eq_none_iff`, no violation is found exactly
in the descriptions that obey every rule.
-/

namespace CommandLink

/-- The sizes that are admitted when a description is loaded or compiled. -/
structure Limits where
  /-- Message types in one schema. -/
  messageTypes : Nat
  /-- Fields in one message type. -/
  fieldsPerMessage : Nat
  /-- Bytes of a schema file. -/
  fileSize : Nat
deriving DecidableEq, Repr

/-- The limits that hold unless others are asked for. -/
def Limits.standard : Limits := ⟨256, 64, 256 * 1024⟩

/-- What a name is the name of. -/
inductive NameRole where
  | message
  | field
deriving DecidableEq, Repr

/-- A structural rule that a description breaks. -/
inductive Violation where
  | noMessages
  | tooManyMessages (count limit : Nat)
  | repeatedId (id : UInt16)
  | repeatedMessage (name : String)
  | nameLength (role : NameRole) (bytes : Nat)
  | nameCharacters (role : NameRole) (name : String)
  | noFields (message : String)
  | tooManyFields (message : String) (count limit : Nat)
  | repeatedField (message field : String)
  | invalidScale (message field : String) (scale : Binary64)
deriving DecidableEq, Repr

/-- The words for what a name is the name of. -/
def NameRole.text : NameRole → String
  | message => "message name"
  | field => "field name"

/-- The wording of a violation. -/
def Violation.message : Violation → String
  | noMessages => "schema declares no message types"
  | tooManyMessages count limit => s!"schema declares {count} message types (max {limit})"
  | repeatedId id => s!"duplicate message type id {id}"
  | repeatedMessage name => s!"message name '{name}' is used twice"
  | nameLength role bytes => s!"invalid {role.text} length: {bytes}"
  | nameCharacters role name =>
    s!"invalid {role.text} '{name}': only ASCII letters, digits and '_' are allowed"
  | noFields message => s!"message '{message}' has no fields"
  | tooManyFields message count limit => s!"message '{message}' has {count} fields (max {limit})"
  | repeatedField message field => s!"message '{message}' declares field '{field}' twice"
  | invalidScale message field scale =>
    s!"field '{message}.{field}' has invalid scale {scale.text}"

/-! ## The rules -/

/-- The longest name, in bytes. -/
def maxNameBytes : Nat := 64

/-- The characters of names: ASCII letters, digits and the underscore. -/
def nameCharacter (c : Char) : Bool := c.isAlphanum || c == '_'

/-- A name has 1 to 64 bytes, all of them ASCII letters, digits or underscores. -/
structure ValidName (name : String) : Prop where
  nonempty : name.utf8ByteSize ≠ 0
  short : name.utf8ByteSize ≤ maxNameBytes
  characters : name.toList.all nameCharacter = true

/-- A field has a valid name and, if it is a fixed-point field, a valid scale. -/
structure Field.WellFormed (f : Field) : Prop where
  name : ValidName f.name
  scale : ∀ s, f.type.scale? = some s → FixedPoint.validScale s = true

/-- A message type has a valid name and at least one field; its fields are well-formed and no two
of them share a name. -/
structure Message.WellFormed (m : Message) : Prop where
  name : ValidName m.name
  nonempty : m.fields ≠ []
  fields : ∀ f ∈ m.fields, f.WellFormed
  distinct : (m.fields.map Field.name).Nodup

/-- The records of a well-formed message type are not empty. -/
theorem Message.WellFormed.wireSize_pos {m : Message} (hwf : m.WellFormed) : 0 < m.wireSize := by
  obtain ⟨f, fields, hfields⟩ := List.exists_cons_of_ne_nil hwf.nonempty
  have := f.type.wireSize_pos
  unfold Message.wireSize
  rw [hfields, List.foldr_cons]
  omega

/-- A description has at least one message type; its message types are well-formed and no two of
them share an id or a name. -/
structure Description.WellFormed (d : Description) : Prop where
  nonempty : d.messages ≠ []
  messages : ∀ m ∈ d.messages, m.WellFormed
  distinctIds : (d.messages.map Message.id).Nodup
  distinctNames : (d.messages.map Message.name).Nodup

/-- The description stays within the limits. -/
structure Description.Within (d : Description) (limits : Limits) : Prop where
  messages : d.messages.length ≤ limits.messageTypes
  fields : ∀ m ∈ d.messages, m.fields.length ≤ limits.fieldsPerMessage

/-! ## The first violation -/

/-- What is wrong with a name. -/
def nameViolation? (role : NameRole) (name : String) : Option Violation :=
  if name.utf8ByteSize = 0 ∨ maxNameBytes < name.utf8ByteSize then
    some (.nameLength role name.utf8ByteSize)
  else if name.toList.all nameCharacter then none
  else some (.nameCharacters role name)

/-- What is wrong with the scale of a fixed-point field. -/
def scaleViolation? (message : String) (f : Field) : Option Violation :=
  match f.type.scale? with
  | none => none
  | some scale =>
    if FixedPoint.validScale scale then none else some (.invalidScale message f.name scale)

/-- The first violation among fields, after fields with the names `seen`. -/
def fieldsViolation? (message : String) : (seen : List String) → List Field → Option Violation
  | _, [] => none
  | seen, f :: rest =>
    nameViolation? .field f.name
    <|> (if f.name ∈ seen then some (.repeatedField message f.name) else none)
    <|> scaleViolation? message f
    <|> fieldsViolation? message (f.name :: seen) rest

/-- The first violation within one message type. -/
def Message.violation? (limits : Limits) (m : Message) : Option Violation :=
  nameViolation? .message m.name
  <|> (if m.fields = [] then some (.noFields m.name) else none)
  <|> (if limits.fieldsPerMessage < m.fields.length then
      some (.tooManyFields m.name m.fields.length limits.fieldsPerMessage) else none)
  <|> fieldsViolation? m.name [] m.fields

/-- The first violation among message types, after message types with the ids and names `seen`. -/
def messagesViolation? (limits : Limits) :
    (seenIds : List UInt16) → (seenNames : List String) → List Message → Option Violation
  | _, _, [] => none
  | ids, names, m :: rest =>
    (if m.id ∈ ids then some (.repeatedId m.id) else none)
    <|> (if m.name ∈ names then some (.repeatedMessage m.name) else none)
    <|> m.violation? limits
    <|> messagesViolation? limits (m.id :: ids) (m.name :: names) rest

/-- The first violation in a description: the two counts, then the message types in order. -/
def Description.violation? (limits : Limits) (d : Description) : Option Violation :=
  (if d.messages = [] then some .noMessages else none)
  <|> (if limits.messageTypes < d.messages.length then
      some (.tooManyMessages d.messages.length limits.messageTypes) else none)
  <|> messagesViolation? limits [] [] d.messages

/-! ## The two agree -/

theorem nameViolation?_eq_none_iff {role : NameRole} {name : String} :
    nameViolation? role name = none ↔ ValidName name := by
  rw [nameViolation?]
  constructor
  · intro h
    split at h
    · cases h
    · split at h
      · exact ⟨by omega, by omega, by assumption⟩
      · cases h
  · intro ⟨h₀, h₁, h₂⟩
    rw [if_neg (by omega), if_pos h₂]

theorem scaleViolation?_eq_none_iff {message : String} {f : Field} :
    scaleViolation? message f = none ↔
      ∀ s, f.type.scale? = some s → FixedPoint.validScale s = true := by
  rw [scaleViolation?]
  cases f.type.scale? with
  | none => simp
  | some s => simp

theorem fieldsViolation?_eq_none_iff {message : String} {seen : List String} {fields : List Field} :
    fieldsViolation? message seen fields = none ↔
      (∀ f ∈ fields, f.WellFormed) ∧ (∀ f ∈ fields, f.name ∉ seen)
        ∧ (fields.map Field.name).Nodup := by
  induction fields generalizing seen with
  | nil => simp [fieldsViolation?]
  | cons f rest ih =>
    have := @Field.WellFormed.name f
    have := @Field.WellFormed.scale f
    have := @Field.WellFormed.mk f
    simp only [fieldsViolation?, Option.orElse_eq_orElse, Option.orElse_eq_or, Option.or_eq_none_iff,
      nameViolation?_eq_none_iff, scaleViolation?_eq_none_iff, ih, List.map_cons, List.nodup_cons,
      List.mem_map, List.mem_cons]
    grind

theorem Message.violation?_eq_none_iff {limits : Limits} {m : Message} :
    m.violation? limits = none ↔
      m.WellFormed ∧ m.fields.length ≤ limits.fieldsPerMessage := by
  have wf : m.WellFormed ↔ ValidName m.name ∧ m.fields ≠ [] ∧ (∀ f ∈ m.fields, f.WellFormed)
      ∧ (m.fields.map Field.name).Nodup :=
    ⟨fun h => ⟨h.name, h.nonempty, h.fields, h.distinct⟩, fun h => ⟨h.1, h.2.1, h.2.2.1, h.2.2.2⟩⟩
  simp only [violation?, Option.orElse_eq_orElse, Option.orElse_eq_or, Option.or_eq_none_iff,
    nameViolation?_eq_none_iff, fieldsViolation?_eq_none_iff, wf]
  grind

theorem messagesViolation?_eq_none_iff {limits : Limits} {ids : List UInt16}
    {names : List String} {messages : List Message} :
    messagesViolation? limits ids names messages = none ↔
      (∀ m ∈ messages, m.WellFormed ∧ m.fields.length ≤ limits.fieldsPerMessage)
        ∧ (∀ m ∈ messages, m.id ∉ ids ∧ m.name ∉ names)
        ∧ (messages.map Message.id).Nodup ∧ (messages.map Message.name).Nodup := by
  induction messages generalizing ids names with
  | nil => simp [messagesViolation?]
  | cons m rest ih =>
    simp only [messagesViolation?, Option.orElse_eq_orElse, Option.orElse_eq_or,
      Option.or_eq_none_iff, Message.violation?_eq_none_iff, ih, List.map_cons, List.nodup_cons,
      List.mem_map, List.mem_cons]
    grind

/-- **The search finds a violation exactly when there is one.** -/
theorem Description.violation?_eq_none_iff {limits : Limits} {d : Description} :
    d.violation? limits = none ↔ d.WellFormed ∧ d.Within limits := by
  have wf : d.WellFormed ↔ d.messages ≠ [] ∧ (∀ m ∈ d.messages, m.WellFormed)
      ∧ (d.messages.map Message.id).Nodup ∧ (d.messages.map Message.name).Nodup :=
    ⟨fun h => ⟨h.nonempty, h.messages, h.distinctIds, h.distinctNames⟩,
      fun h => ⟨h.1, h.2.1, h.2.2.1, h.2.2.2⟩⟩
  have within : d.Within limits ↔ d.messages.length ≤ limits.messageTypes
      ∧ ∀ m ∈ d.messages, m.fields.length ≤ limits.fieldsPerMessage :=
    ⟨fun h => ⟨h.messages, h.fields⟩, fun h => ⟨h.1, h.2⟩⟩
  simp only [violation?, Option.orElse_eq_orElse, Option.orElse_eq_or, Option.or_eq_none_iff,
    messagesViolation?_eq_none_iff, wf, within]
  grind

end CommandLink
