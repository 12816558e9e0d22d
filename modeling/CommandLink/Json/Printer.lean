import CommandLink.Json.Token

/-!
# Writing JSON text

Values are written without white space, members in their order.
-/

namespace CommandLink.Json

mutual

/-- The tokens of a value, the last one first, before the tokens `done`. -/
def tokensOnto : Json → List Token → List Token
  | null, done => .null :: done
  | bool b, done => .bool b :: done
  | number n, done => .number n :: done
  | string text, done => .string text :: done
  | array [], done => .closeArray :: .openArray :: done
  | array (item :: items), done =>
    .closeArray :: itemsOnto items (item.tokensOnto (.openArray :: done))
  | object [], done => .closeObject :: .openObject :: done
  | object ((key, value) :: members), done =>
    .closeObject
      :: membersOnto members (value.tokensOnto (.colon :: .string key :: .openObject :: done))

/-- The tokens of further items, each behind a comma. -/
def itemsOnto : List Json → List Token → List Token
  | [], done => done
  | item :: items, done => itemsOnto items (item.tokensOnto (.comma :: done))

/-- The tokens of further members, each behind a comma. -/
def membersOnto : List (Option String × Json) → List Token → List Token
  | [], done => done
  | (key, value) :: members, done =>
    membersOnto members (value.tokensOnto (.colon :: .string key :: .comma :: done))

end

/-- The tokens of a value. -/
def tokens (j : Json) : List Token := (j.tokensOnto []).reverse

/-- The text of a value. -/
def text (j : Json) : String := String.ofList (j.tokens.flatMap Token.chars)

end CommandLink.Json
