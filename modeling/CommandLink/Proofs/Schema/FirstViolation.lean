import CommandLink.Proofs.FixedPoint.RoundTrip
import CommandLink.Proofs.Float.Value
import CommandLink.Schema.Basic

/-!
# The first violation in a description

Every rule of a description has a place, and places come in the order in which a description is gone
through: its counts, then its message types, and in a message type its fields. What breaks a rule is
said on its own, whatever else is broken (`Field.Fails`, `Message.Fails`, `Description.Fails`), and
the first violation is the one at the least place (`FirstOf`).

* **Searches** (`Finds`) go through rules one after the other (`Finds.cons`) and through the items
  of a list one after the other (`Finds.inList`).
* **The search of a description** finds its first violation (`finds_violation?`).
* `Description.first_violation`: what is accepted, and what a refusal says.
  `Schema.compile_eq_error_iff`: what is not compiled is refused in the same way.
-/

namespace CommandLink

/-- The characters of names. -/
def WordCharacter (c : Char) : Prop :=
  'a' ≤ c ∧ c ≤ 'z' ∨ 'A' ≤ c ∧ c ≤ 'Z' ∨ '0' ≤ c ∧ c ≤ '9' ∨ c = '_'

/-- The sizes of names, in bytes. -/
def WordSize (name : String) : Prop := 1 ≤ name.utf8ByteSize ∧ name.utf8ByteSize ≤ 64

/-- A name of an admitted size that is made up of letters, digits and underscores. -/
def Word (name : String) : Prop := WordSize name ∧ ∀ c ∈ name.toList, WordCharacter c

/-- A scale that is finite and greater than zero. -/
def UsableScale (scale : Binary64) : Prop := scale.isFinite = true ∧ 0 < scale.exact

/-! ## What breaks a rule -/

/-- Violations, each at its place. Places are in lexicographic order. -/
abbrev Failures := List Nat → Violation → Prop

/-- The violation at the least place. -/
def FirstOf (fails : Failures) (v : Violation) : Prop :=
  ∃ p, fails p v ∧ ∀ q w, fails q w → p < q ∨ q = p ∧ w = v

/-- What is wrong with a name: first its size, then its characters. -/
inductive NameFails (role : NameRole) (name : String) : List Nat → Violation → Prop where
  | size (hsize : ¬ WordSize name) : NameFails role name [0] (.nameLength role name.utf8ByteSize)
  | characters (hcharacters : ¬ ∀ c ∈ name.toList, WordCharacter c) :
    NameFails role name [1] (.nameCharacters role name)

/-- What is wrong with a field of a message type, after the fields before it: first its name, then
that it repeats one, then its scale. -/
inductive Field.Fails (message : String) (before : List Field) (f : Field) :
    List Nat → Violation → Prop where
  | name {p : List Nat} {v : Violation} (hname : NameFails .field f.name p v) :
    Fails message before f (0 :: p) v
  | repeated (hrepeated : f.name ∈ before.map Field.name) :
    Fails message before f [1] (.repeatedField message f.name)
  | scale {scale : Binary64} (htype : f.type = .fixed32 scale) (hscale : ¬ UsableScale scale) :
    Fails message before f [2] (.invalidScale message f.name scale)

/-- What is wrong with a message type, after the message types before it: first that it repeats an
id, then that it repeats a name, then its name, then the number of its fields, then its fields in
order. -/
inductive Message.Fails (limits : Limits) (before : List Message) (m : Message) :
    List Nat → Violation → Prop where
  | repeatedId (hrepeated : m.id ∈ before.map Message.id) :
    Fails limits before m [0] (.repeatedId m.id)
  | repeatedName (hrepeated : m.name ∈ before.map Message.name) :
    Fails limits before m [1] (.repeatedMessage m.name)
  | name {p : List Nat} {v : Violation} (hname : NameFails .message m.name p v) :
    Fails limits before m (2 :: p) v
  | noFields (hnone : m.fields = []) : Fails limits before m [3] (.noFields m.name)
  | tooManyFields (hmany : limits.fieldsPerMessage < m.fields.length) :
    Fails limits before m [4] (.tooManyFields m.name m.fields.length limits.fieldsPerMessage)
  | field {front back : List Field} {f : Field} {p : List Nat} {v : Violation}
    (hfields : m.fields = front ++ f :: back) (hfield : f.Fails m.name front p v) :
    Fails limits before m (5 :: front.length :: p) v

/-- What is wrong with a description: first the number of its message types, then the message types
in order. -/
inductive Description.Fails (limits : Limits) (d : Description) : List Nat → Violation → Prop where
  | noMessages (hnone : d.messages = []) : Fails limits d [0] .noMessages
  | tooManyMessages (hmany : limits.messageTypes < d.messages.length) :
    Fails limits d [1] (.tooManyMessages d.messages.length limits.messageTypes)
  | message {front back : List Message} {m : Message} {p : List Nat} {v : Violation}
    (hmessages : d.messages = front ++ m :: back) (hmessage : m.Fails limits front p v) :
    Fails limits d (2 :: front.length :: p) v

/-! ## Searches -/

/-- A search finds the first violation, and none only if there is none. -/
def Finds (fails : Failures) : Option Violation → Prop
  | none => ∀ p v, ¬ fails p v
  | some v => FirstOf fails v

/-- The violations behind the first rule, as if their rule were the first. -/
def Failures.later (fails : Failures) : Failures
  | [], _ => False
  | k :: p, v => fails ((k + 1) :: p) v

/-- The violations of the items of a list, each at the index of its item, which is looked at after
those before it. -/
def Failures.InList {α : Type} (each : List α → α → Failures) (before items : List α) : Failures :=
  fun p v => ∃ front a back q, items = front ++ a :: back ∧ p = front.length :: q ∧
    each (before ++ front) a q v

open Failures

section Search

variable {α : Type} {fails other : Failures} {found next : Option Violation} {v w : Violation}
  {bad : Prop} {each : List α → α → Failures} {before rest : List α} {a : α} {p : List Nat}

theorem FirstOf.unique (hv : FirstOf fails v) (hw : FirstOf fails w) : v = w := by
  obtain ⟨p, hfails, hleast⟩ := hv
  obtain ⟨q, hfails', hleast'⟩ := hw
  rcases hleast q w hfails' with hless | ⟨-, rfl⟩
  · rcases hleast' p v hfails with hless' | ⟨-, rfl⟩
    · exact absurd hless' (List.lt_asymm hless)
    · rfl
  · rfl

/-- The first violation of the first rule is the first one of all. -/
theorem FirstOf.of_head (hplace : ∀ v, ¬ fails [] v)
    (hfirst : FirstOf (fun p v => fails (0 :: p) v) v) : FirstOf fails v := by
  obtain ⟨p, hfails, hleast⟩ := hfirst
  refine ⟨0 :: p, hfails, fun q w hother => ?_⟩
  match q, hother with
  | [], hother => exact absurd hother (hplace w)
  | 0 :: q, hother =>
    rcases hleast q w hother with hless | ⟨rfl, rfl⟩
    · exact .inl (List.cons_lt_cons_iff.mpr (.inr ⟨rfl, hless⟩))
    · exact .inr ⟨rfl, rfl⟩
  | (k + 1) :: q, _ => exact .inl (List.cons_lt_cons_iff.mpr (.inl (Nat.succ_pos k)))

/-- If the first rule is kept, the first violation is the first one behind it. -/
theorem FirstOf.of_later (hplace : ∀ v, ¬ fails [] v) (hhead : ∀ p v, ¬ fails (0 :: p) v)
    (hfirst : FirstOf fails.later v) : FirstOf fails v := by
  obtain ⟨_ | ⟨j, p⟩, hfails, hleast⟩ := hfirst
  · exact absurd hfails not_false
  refine ⟨(j + 1) :: p, hfails, fun q w hother => ?_⟩
  match q, hother with
  | [], hother => exact absurd hother (hplace w)
  | 0 :: q, hother => exact absurd hother (hhead q w)
  | (k + 1) :: q, hother =>
    rcases hleast (k :: q) w hother with hless | ⟨heq, rfl⟩
    · refine .inl (List.cons_lt_cons_iff.mpr ?_)
      rcases List.cons_lt_cons_iff.mp hless with hindex | ⟨rfl, hrest⟩
      · exact .inl (Nat.succ_lt_succ hindex)
      · exact .inr ⟨rfl, hrest⟩
    · cases heq
      exact .inr ⟨rfl, rfl⟩

/-- A search decides what the first violation is. -/
theorem Finds.eq_some_iff (hfinds : Finds fails found) : found = some v ↔ FirstOf fails v := by
  cases found with
  | none =>
    refine ⟨nofun, fun ⟨p, hfails, _⟩ => absurd hfails (hfinds p v)⟩
  | some w =>
    refine ⟨fun h => Option.some.inj h ▸ hfinds, fun hfirst => ?_⟩
    rw [FirstOf.unique hfirst hfinds]

theorem Finds.congr (hfinds : Finds other found) (hsame : ∀ p v, fails p v ↔ other p v) :
    Finds fails found := by
  have heq : fails = other := funext fun p => funext fun v => propext (hsame p v)
  rwa [heq]

/-- **One rule** is broken in one way at most. -/
theorem Finds.check [Decidable bad] (honly : ∀ p w, fails p w → p = [] ∧ w = v ∧ bad)
    (hbreaks : bad → fails [] v) : Finds fails (if bad then some v else none) := by
  by_cases hbad : bad
  · rw [if_pos hbad]
    refine ⟨[], hbreaks hbad, fun q w hother => .inr ?_⟩
    obtain ⟨hplace, hsame, -⟩ := honly q w hother
    exact ⟨hplace, hsame⟩
  · rw [if_neg hbad]
    exact fun p w hother => hbad (honly p w hother).2.2

/-- **One rule after the other**: what breaks the first comes before what breaks a later one. -/
theorem Finds.cons (hplace : ∀ v, ¬ fails [] v) (hhead : Finds (fun p v => fails (0 :: p) v) found)
    (hlater : Finds fails.later next) : Finds fails (found <|> next) := by
  cases found with
  | some v => exact FirstOf.of_head hplace hhead
  | none =>
    cases next with
    | some v => exact FirstOf.of_later hplace hhead hlater
    | none =>
      intro q w hother
      match q, hother with
      | [], hother => exact hplace w hother
      | 0 :: q, hother => exact hhead q w hother
      | (k + 1) :: q, hother => exact hlater (k :: q) w hother

/-- The last rule has none behind it. -/
theorem Finds.last (hplace : ∀ v, ¬ fails [] v) (hend : ∀ k p v, ¬ fails ((k + 1) :: p) v)
    (hhead : Finds (fun p v => fails (0 :: p) v) found) : Finds fails found := by
  have hnone : Finds fails.later none := fun
    | [], _ => not_false
    | k :: p, v => hend k p v
  have hsearch : Finds fails (found <|> none) := .cons hplace hhead hnone
  rwa [Option.orElse_eq_orElse, Option.orElse_eq_or, Option.or_none] at hsearch

theorem inList_head : InList each before (a :: rest) (0 :: p) v ↔ each before a p v := by
  constructor
  · rintro ⟨front, b, back, q, hitems, hplace, heach⟩
    cases front with
    | nil =>
      cases hitems
      cases hplace
      rwa [List.append_nil] at heach
    | cons => cases hplace
  · exact fun heach => ⟨[], a, rest, p, rfl, rfl, by rwa [List.append_nil]⟩

theorem inList_later :
    (InList each before (a :: rest)).later p v ↔ InList each (before ++ [a]) rest p v := by
  cases p with
  | nil => exact ⟨False.elim, fun ⟨_, _, _, _, _, hplace, _⟩ => by cases hplace⟩
  | cons k p =>
    constructor
    · rintro ⟨front, b, back, q, hitems, hplace, heach⟩
      cases front with
      | nil => cases hplace
      | cons c front =>
        cases hitems
        cases hplace
        exact ⟨front, b, back, p, rfl, rfl, by rwa [← List.append_cons]⟩
    · rintro ⟨front, b, back, q, rfl, hplace, heach⟩
      cases hplace
      exact ⟨a :: front, b, back, p, rfl, rfl, by rwa [← List.append_cons] at heach⟩

theorem not_inList_nil (v : Violation) : ¬ InList each before rest [] v :=
  fun ⟨_, _, _, _, _, hplace, _⟩ => by cases hplace

/-- **One item after the other**: a search that goes through a list finds the first violation in it,
if what it does at an item finds the first violation of that item. -/
theorem Finds.inList {one : List α → α → Option Violation}
    (hone : ∀ before a, Finds (each before a) (one before a))
    (through : List α → List α → Option Violation)
    (hnil : ∀ before, through before [] = none)
    (hcons : ∀ before a rest,
      through before (a :: rest) = (one before a <|> through (before ++ [a]) rest))
    (before items : List α) : Finds (InList each before items) (through before items) := by
  induction items generalizing before with
  | nil =>
    rw [hnil]
    rintro p v ⟨front, a, back, q, hitems, -⟩
    cases front <;> cases hitems
  | cons a rest ih =>
    rw [hcons]
    exact .cons not_inList_nil ((hone before a).congr fun _ _ => inList_head)
      ((ih (before ++ [a])).congr fun _ _ => inList_later)

end Search

/-! ## What is admitted -/

theorem nameCharacter_iff {c : Char} : nameCharacter c = true ↔ WordCharacter c := by
  unfold nameCharacter WordCharacter Char.isAlphanum Char.isAlpha Char.isUpper Char.isLower
    Char.isDigit
  simp only [Char.le_def, Bool.or_eq_true, Bool.and_eq_true, decide_eq_true_eq, beq_iff_eq,
    ge_iff_le, or_assoc]
  exact or_left_comm

theorem wordSize_iff {name : String} :
    WordSize name ↔ ¬ (name.utf8ByteSize = 0 ∨ maxNameBytes < name.utf8ByteSize) := by
  unfold WordSize maxNameBytes
  omega

theorem characters_iff {name : String} :
    name.toList.all nameCharacter = true ↔ ∀ c ∈ name.toList, WordCharacter c := by
  rw [List.all_eq_true]
  exact forall₂_congr fun _ _ => nameCharacter_iff

theorem validName_iff {name : String} : ValidName name ↔ Word name := by
  constructor
  · intro hname
    refine ⟨wordSize_iff.mpr fun hsize => ?_, characters_iff.mp hname.characters⟩
    exact hsize.elim hname.nonempty (Nat.not_lt.mpr hname.short)
  · intro ⟨hsize, hcharacters⟩
    have hbytes := not_or.mp (wordSize_iff.mp hsize)
    exact ⟨hbytes.1, Nat.not_lt.mp hbytes.2, characters_iff.mpr hcharacters⟩

theorem scale?_eq_some_iff {type : FieldType} {scale : Binary64} :
    type.scale? = some scale ↔ type = .fixed32 scale := by
  cases type <;> simp [FieldType.scale?]

theorem validScale_iff {scale : Binary64} :
    FixedPoint.validScale scale = true ↔ UsableScale scale := by
  unfold UsableScale Binary.exact
  constructor
  · intro hvalid
    refine ⟨FixedPoint.isFinite_of_validScale hvalid, ?_⟩
    rw [if_neg (Bool.eq_false_iff.mp (FixedPoint.negative_of_validScale hvalid))]
    exact Int.natCast_pos.mpr (FixedPoint.units_pos_of_validScale hvalid)
  · intro ⟨hfinite, hpositive⟩
    unfold FixedPoint.validScale Binary.isPositive
    split at hpositive
    · omega
    · rename_i hsign
      have hzero : scale.isZero = false := beq_eq_false_iff_ne.mpr fun hzero => by
        simp [Binary.units, FloatFormat.units, hzero] at hpositive
      rw [hfinite, Bool.eq_false_iff.mpr hsign, hzero]
      rfl

/-! ## The search of a description -/

theorem finds_nameViolation? (role : NameRole) (name : String) :
    Finds (NameFails role name) (nameViolation? role name) := by
  have hsteps : nameViolation? role name =
      ((if name.utf8ByteSize = 0 ∨ maxNameBytes < name.utf8ByteSize then
          some (.nameLength role name.utf8ByteSize) else none)
        <|> (if ¬ name.toList.all nameCharacter = true then some (.nameCharacters role name)
          else none)) := by
    unfold nameViolation?
    split <;> split <;> simp_all
  rw [hsteps]
  refine .cons nofun (.check ?_ fun hbad => ?_) (.last nofun nofun (.check ?_ fun hbad => ?_))
  · exact fun | _, _, .size hsize => ⟨rfl, rfl, not_not.mp (mt wordSize_iff.mpr hsize)⟩
  · exact .size fun hsize => wordSize_iff.mp hsize hbad
  · exact fun | _, _, .characters hbad => ⟨rfl, rfl, mt characters_iff.mp hbad⟩
  · exact .characters (mt characters_iff.mpr hbad)

theorem finds_scaleViolation? (message : String) (before : List Field) (f : Field) :
    Finds (fun p v => f.Fails message before (2 :: p) v) (scaleViolation? message f) := by
  unfold scaleViolation?
  cases htype : f.type.scale? with
  | none =>
    exact fun | _, _, .scale hfixed _ => nomatch (scale?_eq_some_iff.mpr hfixed).symm.trans htype
  | some scale =>
    have hfixed := scale?_eq_some_iff.mp htype
    dsimp only
    rw [← ite_not]
    refine .check (fun | _, _, .scale hsame hscale => ?_)
      fun hscale => .scale hfixed (mt validScale_iff.mpr hscale)
    obtain rfl := FieldType.fixed32.inj (hsame.symm.trans hfixed)
    exact ⟨rfl, rfl, mt validScale_iff.mp hscale⟩

theorem finds_field (message : String) (before : List Field) (f : Field) :
    Finds (f.Fails message before)
      (nameViolation? .field f.name
        <|> (if f.name ∈ before.map Field.name then some (.repeatedField message f.name) else none)
        <|> scaleViolation? message f) := by
  refine .cons nofun ?name (.cons nofun ?repeated (.last nofun nofun (finds_scaleViolation? ..)))
  case name => exact (finds_nameViolation? ..).congr fun p v => ⟨fun | .name h => h, .name⟩
  case repeated => exact .check (fun | _, _, .repeated h => ⟨rfl, rfl, h⟩) .repeated

theorem finds_fieldsViolation? (message : String) (fields : List Field) :
    Finds (InList (fun before f => f.Fails message before) [] fields)
      (fieldsViolation? message [] fields) := by
  refine Finds.inList (finds_field message)
    (fun before => fieldsViolation? message (before.map Field.name).reverse) (fun _ => rfl) ?_
    [] fields
  intro before f rest
  simp only [fieldsViolation?, List.mem_reverse, List.map_append, List.map_singleton,
    List.reverse_append, List.reverse_singleton, List.singleton_append, Option.orElse_eq_orElse,
    Option.orElse_eq_or, Option.or_assoc]

theorem finds_message (limits : Limits) (before : List Message) (m : Message) :
    Finds (m.Fails limits before)
      ((if m.id ∈ before.map Message.id then some (.repeatedId m.id) else none)
        <|> (if m.name ∈ before.map Message.name then some (.repeatedMessage m.name) else none)
        <|> m.violation? limits) := by
  unfold Message.violation?
  refine .cons nofun ?id (.cons nofun ?repeated (.cons nofun ?name (.cons nofun ?empty
    (.cons nofun ?many (.last nofun nofun ?fields)))))
  case id => exact .check (fun | _, _, .repeatedId h => ⟨rfl, rfl, h⟩) .repeatedId
  case repeated => exact .check (fun | _, _, .repeatedName h => ⟨rfl, rfl, h⟩) .repeatedName
  case name => exact (finds_nameViolation? ..).congr fun p v => ⟨fun | .name h => h, .name⟩
  case empty => exact .check (fun | _, _, .noFields h => ⟨rfl, rfl, h⟩) .noFields
  case many => exact .check (fun | _, _, .tooManyFields h => ⟨rfl, rfl, h⟩) .tooManyFields
  case fields =>
    refine (finds_fieldsViolation? ..).congr fun p v => ⟨?_, ?_⟩
    · exact fun | .field hfields hfield => ⟨_, _, _, _, hfields, rfl, hfield⟩
    · exact fun ⟨_, _, _, _, hfields, hplace, hfield⟩ => hplace ▸ .field hfields hfield

theorem finds_messagesViolation? (limits : Limits) (messages : List Message) :
    Finds (InList (fun before m => m.Fails limits before) [] messages)
      (messagesViolation? limits [] [] messages) := by
  refine Finds.inList (finds_message limits)
    (fun before => messagesViolation? limits (before.map Message.id).reverse
      (before.map Message.name).reverse) (fun _ => rfl) ?_ [] messages
  intro before m rest
  simp only [messagesViolation?, List.mem_reverse, List.map_append, List.map_singleton,
    List.reverse_append, List.reverse_singleton, List.singleton_append, Option.orElse_eq_orElse,
    Option.orElse_eq_or, Option.or_assoc]

/-- **The search of a description** finds its first violation. -/
theorem finds_violation? (limits : Limits) (d : Description) :
    Finds (d.Fails limits) (d.violation? limits) := by
  unfold Description.violation?
  refine .cons nofun ?empty (.cons nofun ?many (.last nofun nofun ?messages))
  case empty => exact .check (fun | _, _, .noMessages h => ⟨rfl, rfl, h⟩) .noMessages
  case many => exact .check (fun | _, _, .tooManyMessages h => ⟨rfl, rfl, h⟩) .tooManyMessages
  case messages =>
    refine (finds_messagesViolation? ..).congr fun p v => ⟨?_, ?_⟩
    · exact fun | .message hmessages hmessage => ⟨_, _, _, _, hmessages, rfl, hmessage⟩
    · exact fun ⟨_, _, _, _, hmessages, hplace, hmessage⟩ => hplace ▸ .message hmessages hmessage

/-! ## What is accepted, and what a refusal says -/

/-- **A description is accepted** if and only if the numbers of its message types and of their
fields are admitted, no two message types share an id or a name, no two fields of one message type
share a name, all names are 1 to 64 letters, digits and underscores, and all scales are finite and greater
than zero. What is refused is refused for its first violation: the counts come first, then the
message types in order, each with its id, its name and its fields in order. -/
theorem Description.first_violation (limits : Limits) (d : Description) :
    (d.violation? limits = none ↔
      (1 ≤ d.messages.length ∧ d.messages.length ≤ limits.messageTypes) ∧
      (d.messages.map Message.id).Nodup ∧ (d.messages.map Message.name).Nodup ∧
      ∀ m ∈ d.messages, Word m.name ∧
        (1 ≤ m.fields.length ∧ m.fields.length ≤ limits.fieldsPerMessage) ∧
        (m.fields.map Field.name).Nodup ∧
        ∀ f ∈ m.fields, Word f.name ∧ ∀ scale, f.type = .fixed32 scale → UsableScale scale) ∧
    ∀ v, d.violation? limits = some v ↔ FirstOf (d.Fails limits) v := by
  refine ⟨?accepted, fun v => (finds_violation? limits d).eq_some_iff⟩
  rw [violation?_eq_none_iff]
  constructor
  · intro ⟨hwf, hwithin⟩
    refine ⟨⟨List.length_pos_iff.mpr hwf.nonempty, hwithin.messages⟩, hwf.distinctIds,
      hwf.distinctNames, fun m hm => ?_⟩
    have hmessage := hwf.messages m hm
    refine ⟨validName_iff.mp hmessage.name,
      ⟨List.length_pos_iff.mpr hmessage.nonempty, hwithin.fields m hm⟩, hmessage.distinct,
      fun f hf => ⟨validName_iff.mp (hmessage.fields f hf).name, fun scale htype => ?_⟩⟩
    exact validScale_iff.mp ((hmessage.fields f hf).scale scale (scale?_eq_some_iff.mpr htype))
  · intro ⟨⟨hsome, hfew⟩, hids, hnames, hmessages⟩
    have hmessage (m : Message) (hm : m ∈ d.messages) : m.WellFormed := by
      obtain ⟨hname, ⟨hfields, -⟩, hdistinct, heach⟩ := hmessages m hm
      exact {
        name := validName_iff.mpr hname
        nonempty := List.length_pos_iff.mp hfields
        fields := fun f hf => {
          name := validName_iff.mpr (heach f hf).1
          scale := fun scale htype =>
            validScale_iff.mpr ((heach f hf).2 scale (scale?_eq_some_iff.mp htype)) }
        distinct := hdistinct }
    exact ⟨⟨List.length_pos_iff.mp hsome, hmessage, hids, hnames⟩,
      ⟨hfew, fun m hm => (hmessages m hm).2.1.2⟩⟩

/-- What is not compiled is refused for its first violation. -/
theorem Schema.compile_eq_error_iff {d : Description} {version : ProtocolVersion} {limits : Limits}
    {cause : SchemaError} : compile d version limits = .error cause ↔
      ∃ v, cause = .invalid v ∧ FirstOf (d.Fails limits) v := by
  simp only [← (finds_violation? limits d).eq_some_iff]
  unfold compile
  split
  · rename_i hnone
    simp [hnone]
  · rename_i violation hsome
    rw [Except.error.injEq, hsome]
    exact ⟨fun hcause => ⟨violation, hcause.symm, rfl⟩,
      fun ⟨_, hcause, hsame⟩ => hcause ▸ Option.some.inj hsame ▸ rfl⟩

end CommandLink
