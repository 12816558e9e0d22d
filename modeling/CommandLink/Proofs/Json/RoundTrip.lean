import CommandLink.Json.Printer
import CommandLink.Json.Reader
import CommandLink.Proofs.Json.Token

/-!
# JSON values are read back from their text

* `IsText`: no string or key of a value has half a surrogate pair, so the value has a written form.
* `run?_chars`: one token takes the reader one step.
* `run?_written`: the text of a value takes the reader from a state that awaits a value to the one
  behind that value, whatever is open around it.
* `parse?_text`: so a value is read back from its text, with its numerals as they are written and its
  members in their order.
-/

namespace CommandLink

namespace Json

/-! ## Values with a written form -/

mutual

/-- Every string and key of the value is a text. -/
def IsText : Json → Prop
  | string text => text.isSome = true
  | array items => ItemsText items
  | object members => MembersText members
  | _ => True

/-- The same of every item. -/
def ItemsText : List Json → Prop
  | [] => True
  | item :: items => item.IsText ∧ ItemsText items

/-- The same of every member and its key. -/
def MembersText : List (Option String × Json) → Prop
  | [] => True
  | (key, value) :: members => key.isSome = true ∧ value.IsText ∧ MembersText members

end

theorem itemsText_iff {items : List Json} : ItemsText items ↔ ∀ item ∈ items, item.IsText := by
  induction items with
  | nil => simp [ItemsText]
  | cons item items ih => simp [ItemsText, ih]

theorem membersText_iff {members : List (Option String × Json)} :
    MembersText members ↔ ∀ p ∈ members, p.1.isSome = true ∧ p.2.IsText := by
  induction members with
  | nil => simp [MembersText]
  | cons p members ih =>
    obtain ⟨key, value⟩ := p
    simp [MembersText, ih, and_assoc]

@[simp] theorem isText_bool (b : Bool) : (bool b).IsText := trivial

@[simp] theorem isText_ofString (text : String) : (ofString text).IsText := rfl

@[simp] theorem isText_ofInt (n : Int) : (ofInt n).IsText := trivial

@[simp] theorem isText_ofBinary {F : FloatFormat} (x : Binary F) : (ofBinary x).IsText := by
  unfold ofBinary
  split <;> trivial

@[simp] theorem isText_array {items : List Json} :
    (array items).IsText ↔ ∀ item ∈ items, item.IsText := by
  rw [IsText, itemsText_iff]

@[simp] theorem isText_ofMembers {members : List (String × Json)} :
    (ofMembers members).IsText ↔ ∀ p ∈ members, p.2.IsText := by
  rw [ofMembers, IsText, membersText_iff, List.forall_mem_map]
  simp

/-! ## The text of a value by its parts -/

mutual

theorem tokensOnto_eq (j : Json) (done : List Token) :
    j.tokensOnto done = j.tokensOnto [] ++ done := by
  match j with
  | null | bool _ | number _ | string _ | array [] | object [] => rfl
  | array (item :: items) =>
    rw [tokensOnto, tokensOnto, tokensOnto_eq item, tokensOnto_eq item [_], itemsOnto_eq items,
      itemsOnto_eq items (_ ++ [_])]
    simp
  | object ((key, value) :: members) =>
    rw [tokensOnto, tokensOnto, tokensOnto_eq value, tokensOnto_eq value [_, _, _],
      membersOnto_eq members, membersOnto_eq members (_ ++ [_, _, _])]
    simp

theorem itemsOnto_eq (items : List Json) (done : List Token) :
    itemsOnto items done = itemsOnto items [] ++ done := by
  match items with
  | [] => rfl
  | item :: items =>
    rw [itemsOnto, itemsOnto, tokensOnto_eq item, tokensOnto_eq item [_], itemsOnto_eq items,
      itemsOnto_eq items (_ ++ [_])]
    simp

theorem membersOnto_eq (members : List (Option String × Json)) (done : List Token) :
    membersOnto members done = membersOnto members [] ++ done := by
  match members with
  | [] => rfl
  | (key, value) :: members =>
    rw [membersOnto, membersOnto, tokensOnto_eq value, tokensOnto_eq value [_, _, _],
      membersOnto_eq members, membersOnto_eq members (_ ++ [_, _, _])]
    simp

end

/-- The characters of a value. -/
def written (j : Json) : List Char := (j.tokensOnto []).reverse.flatMap Token.chars

/-- The characters of further items, each behind a comma. -/
def writtenItems (items : List Json) : List Char := (itemsOnto items []).reverse.flatMap Token.chars

/-- The characters of further members, each behind a comma. -/
def writtenMembers (members : List (Option String × Json)) : List Char :=
  (membersOnto members []).reverse.flatMap Token.chars

theorem written_array (item : Json) (items : List Json) : (array (item :: items)).written =
    Token.openArray.chars ++ (item.written ++ (writtenItems items ++ Token.closeArray.chars)) := by
  unfold written writtenItems
  rw [tokensOnto, itemsOnto_eq, tokensOnto_eq]
  simp

theorem written_object (key : Option String) (value : Json)
    (members : List (Option String × Json)) : (object ((key, value) :: members)).written =
      Token.openObject.chars ++ ((Token.string key).chars ++ (Token.colon.chars ++
        (value.written ++ (writtenMembers members ++ Token.closeObject.chars)))) := by
  unfold written writtenMembers
  rw [tokensOnto, membersOnto_eq, tokensOnto_eq]
  simp

theorem writtenItems_cons (item : Json) (items : List Json) : writtenItems (item :: items) =
    Token.comma.chars ++ (item.written ++ writtenItems items) := by
  unfold written writtenItems
  rw [itemsOnto, itemsOnto_eq, tokensOnto_eq]
  simp

theorem writtenMembers_cons (key : Option String) (value : Json)
    (members : List (Option String × Json)) : writtenMembers ((key, value) :: members) =
      Token.comma.chars ++ ((Token.string key).chars ++ (Token.colon.chars ++
        (value.written ++ writtenMembers members))) := by
  unfold written writtenMembers
  rw [membersOnto, membersOnto_eq, tokensOnto_eq]
  simp

end Json

namespace JsonState

open Json

/-! ## One token -/

/-- **One token takes the reader one step.** -/
theorem run?_chars (state : JsonState) {token : Token} {rest : List Char}
    (hwritten : token.IsWritten) (hrest : ∀ n, token = .number n → Delimits rest) :
    state.run? (token.chars ++ rest) = (state.step? token).bind fun next => next.run? rest := by
  obtain ⟨hne, hblank⟩ := Token.dropWhile_chars rest hwritten
  have hscan := Token.scan?_chars hwritten hrest
  obtain ⟨c, text, hchars⟩ := List.exists_cons_of_ne_nil hne
  rw [hchars] at hblank hscan ⊢
  rw [run?.eq_def]
  split
  · rename_i hnil
    rw [hblank] at hnil
    cases hnil
  · rename_i hcons
    rw [hblank] at hcons
    obtain ⟨rfl, rfl⟩ := List.cons.inj hcons
    split
    · rename_i hnone
      rw [hscan] at hnone
      cases hnone
    · rename_i hsome
      rw [hscan] at hsome
      obtain ⟨rfl, rfl⟩ := Prod.mk.inj (Option.some.inj hsome)
      cases state.step? token <;> rfl

/-- The token has a written form, and what follows it cannot change what it is: it is no number. -/
def IsMark : Token → Prop
  | .string text => text.isSome = true
  | .number _ => False
  | _ => True

theorem run?_mark (state : JsonState) (token : Token) (rest : List Char) (h : IsMark token) :
    state.run? (token.chars ++ rest) = (state.step? token).bind fun next => next.run? rest := by
  refine state.run?_chars ?_ ?_
  · cases token with
    | string text =>
      cases text with
      | none => cases h
      | some text => trivial
    | _ => trivial
  · rintro n rfl
    exact h.elim

/-! ## Whole values -/

/-- The state awaits a value inside `outer`, and perhaps the end of an empty array. -/
def Awaits (state : JsonState) (outer : List JsonFrame) : Prop :=
  ∀ token, token ≠ .closeArray → state.step? token = beginValue? outer token

theorem awaits_value (outer : List JsonFrame) : (value outer).Awaits outer := fun _ _ => rfl

theorem awaits_arrayStart (outer : List JsonFrame) :
    (arrayStart outer).Awaits (.array [] :: outer) := by
  intro token htoken
  cases token with
  | closeArray => exact absurd rfl htoken
  | _ => rfl

/-- A key and its colon take the reader to the value of the member. -/
theorem run?_key {state : JsonState} {outer : List JsonFrame} {done : List (Option String × Json)}
    {key : Option String} (hkey : key.isSome = true)
    (hstate : state.step? (.string key) = some (objectColon outer done key)) (text : List Char) :
    state.run? ((Token.string key).chars ++ (Token.colon.chars ++ text)) =
      (value (.object done key :: outer)).run? text := by
  rw [run?_mark _ (.string key) _ hkey, hstate, Option.bind_some, run?_mark _ .colon _ trivial]
  rfl

/-- What comes behind a value in an array or object ends the value. -/
theorem delimits_items (items : List Json) (rest : List Char) :
    Delimits (writtenItems items ++ (Token.closeArray.chars ++ rest)) := by
  cases items with
  | nil => exact delimits_cons (.inr (.inl rfl)) _
  | cons item items =>
    rw [writtenItems_cons]
    exact delimits_cons (.inl rfl) _

theorem delimits_members (members : List (Option String × Json)) (rest : List Char) :
    Delimits (writtenMembers members ++ (Token.closeObject.chars ++ rest)) := by
  cases members with
  | nil => exact delimits_cons (.inr (.inr rfl)) _
  | cons p members =>
    rw [writtenMembers_cons]
    exact delimits_cons (.inl rfl) _

mutual

/-- **The text of a value takes the reader behind that value**, whatever is open around it. The
induction is on the value; further items and members are read from the state behind the first. -/
theorem run?_written (j : Json) (hj : j.IsText) {state : JsonState} {outer : List JsonFrame}
    (hstate : state.Awaits outer) {rest : List Char} (hrest : Delimits rest) :
    state.run? (j.written ++ rest) = (complete outer j).run? rest := by
  match j with
  | .null =>
    have hchars : Json.null.written = Token.null.chars := rfl
    rw [hchars, run?_mark _ .null _ trivial, hstate .null (by rintro ⟨⟩)]
    rfl
  | .bool b =>
    have hchars : (Json.bool b).written = (Token.bool b).chars := List.append_nil _
    rw [hchars, run?_mark _ (.bool b) _ trivial, hstate (.bool b) (by rintro ⟨⟩)]
    rfl
  | .number n =>
    have hchars : (Json.number n).written = (Token.number n).chars := List.append_nil _
    have hread := run?_chars state (show (Token.number n).IsWritten from trivial) fun _ _ => hrest
    rw [hchars, hread, hstate (.number n) (by rintro ⟨⟩)]
    rfl
  | .string text =>
    have hchars : (Json.string text).written = (Token.string text).chars := List.append_nil _
    rw [hchars, run?_mark _ (.string text) _ hj, hstate (.string text) (by rintro ⟨⟩)]
    rfl
  | .array [] =>
    have hchars : (Json.array []).written = Token.openArray.chars ++ Token.closeArray.chars := rfl
    rw [hchars, List.append_assoc, run?_mark _ .openArray _ trivial, hstate _ (by rintro ⟨⟩)]
    exact run?_mark (arrayStart outer) .closeArray rest trivial
  | .array (item :: items) =>
    obtain ⟨hitem, hitems⟩ := hj
    rw [written_array, List.append_assoc, run?_mark _ .openArray _ trivial,
      hstate _ (by rintro ⟨⟩)]
    simp only [beginValue?, Option.bind_some, List.append_assoc]
    rw [run?_written item hitem (awaits_arrayStart outer) (delimits_items items rest)]
    exact run?_items items hitems outer [item] rest
  | .object [] =>
    have hchars : (Json.object []).written = Token.openObject.chars ++ Token.closeObject.chars := rfl
    rw [hchars, List.append_assoc, run?_mark _ .openObject _ trivial, hstate _ (by rintro ⟨⟩)]
    exact run?_mark (objectStart outer) .closeObject rest trivial
  | .object ((key, v) :: members) =>
    obtain ⟨hkey, hv, hmembers⟩ := hj
    rw [written_object, List.append_assoc, run?_mark _ .openObject _ trivial,
      hstate _ (by rintro ⟨⟩)]
    simp only [beginValue?, Option.bind_some, List.append_assoc]
    rw [run?_key hkey rfl, run?_written v hv (awaits_value _) (delimits_members members rest)]
    exact run?_members members hmembers outer [(key, v)] rest

theorem run?_items (items : List Json) (hitems : ItemsText items) (outer : List JsonFrame)
    (done : List Json) (rest : List Char) :
    (arrayNext outer done).run? (writtenItems items ++ (Token.closeArray.chars ++ rest)) =
      (complete outer (.array (done.reverse ++ items))).run? rest := by
  match items with
  | [] =>
    have hchars : writtenItems [] = [] := rfl
    rw [hchars, List.nil_append, List.append_nil, run?_mark _ .closeArray _ trivial]
    rfl
  | item :: items =>
    obtain ⟨hitem, hitems⟩ := hitems
    rw [writtenItems_cons, List.append_assoc, run?_mark _ .comma _ trivial]
    simp only [step?, Option.bind_some, List.append_assoc]
    rw [run?_written item hitem (awaits_value _) (delimits_items items rest), complete,
      run?_items items hitems outer (item :: done) rest]
    simp

theorem run?_members (members : List (Option String × Json)) (hmembers : MembersText members)
    (outer : List JsonFrame) (done : List (Option String × Json)) (rest : List Char) :
    (objectNext outer done).run? (writtenMembers members ++ (Token.closeObject.chars ++ rest)) =
      (complete outer (.object (done.reverse ++ members))).run? rest := by
  match members with
  | [] =>
    have hchars : writtenMembers [] = [] := rfl
    rw [hchars, List.nil_append, List.append_nil, run?_mark _ .closeObject _ trivial]
    rfl
  | (key, v) :: members =>
    obtain ⟨hkey, hv, hmembers⟩ := hmembers
    rw [writtenMembers_cons, List.append_assoc, run?_mark _ .comma _ trivial]
    simp only [step?, Option.bind_some, List.append_assoc]
    rw [run?_key hkey rfl, run?_written v hv (awaits_value _) (delimits_members members rest), complete,
      run?_members members hmembers outer ((key, v) :: done) rest]
    simp

end

end JsonState

/-- **A JSON value is read back from its text**, whole and unchanged. -/
theorem Json.parse?_text {j : Json} (h : j.IsText) : Json.parse? j.text = some j := by
  have hrun := JsonState.run?_written j h (JsonState.awaits_value []) delimits_nil
  rw [List.append_nil] at hrun
  unfold Json.parse? Json.text
  rw [String.toList_ofList]
  refine hrun.trans ?_
  rw [JsonState.run?.eq_def]
  rfl

end CommandLink
