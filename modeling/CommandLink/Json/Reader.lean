import CommandLink.Json.Token

/-!
# Reading JSON text

A reader goes over the tokens of a text once. Its state is what may come next, together with the
arrays and objects that are open; so a text may nest as deep as it likes, and how deep it may nest
is left to those who use the value.
-/

namespace CommandLink

/-- An open array or object, with what it holds so far in reverse. -/
inductive JsonFrame where
  | array (done : List Json)
  /-- An object that waits for the value of `key`. -/
  | object (done : List (Option String × Json)) (key : Option String)

/-- What may come next; `outer` are the arrays and objects around it, the innermost first. -/
inductive JsonState where
  /-- A value. -/
  | value (outer : List JsonFrame)
  /-- A first item or the end of the array. -/
  | arrayStart (outer : List JsonFrame)
  /-- A comma or the end of the array. -/
  | arrayNext (outer : List JsonFrame) (done : List Json)
  /-- A first key or the end of the object. -/
  | objectStart (outer : List JsonFrame)
  /-- A further key. -/
  | objectKey (outer : List JsonFrame) (done : List (Option String × Json))
  /-- The colon behind a key. -/
  | objectColon (outer : List JsonFrame) (done : List (Option String × Json)) (key : Option String)
  /-- A comma or the end of the object. -/
  | objectNext (outer : List JsonFrame) (done : List (Option String × Json))
  /-- Nothing. -/
  | finished (value : Json)

namespace JsonState

/-- The state behind a complete value. -/
def complete : List JsonFrame → Json → JsonState
  | [], v => finished v
  | .array done :: outer, v => arrayNext outer (v :: done)
  | .object done key :: outer, v => objectNext outer ((key, v) :: done)

/-- The state behind the first token of a value. -/
def beginValue? (outer : List JsonFrame) : Token → Option JsonState
  | .null => some (complete outer .null)
  | .bool b => some (complete outer (.bool b))
  | .number n => some (complete outer (.number n))
  | .string text => some (complete outer (.string text))
  | .openArray => some (arrayStart outer)
  | .openObject => some (objectStart outer)
  | _ => none

/-- The state behind a token, if the token may come. -/
def step? : JsonState → Token → Option JsonState
  | value outer, token => beginValue? outer token
  | arrayStart outer, .closeArray => some (complete outer (.array []))
  | arrayStart outer, token => beginValue? (.array [] :: outer) token
  | arrayNext outer done, .comma => some (value (.array done :: outer))
  | arrayNext outer done, .closeArray => some (complete outer (.array done.reverse))
  | objectStart outer, .closeObject => some (complete outer (.object []))
  | objectStart outer, .string key => some (objectColon outer [] key)
  | objectKey outer done, .string key => some (objectColon outer done key)
  | objectColon outer done key, .colon => some (value (.object done key :: outer))
  | objectNext outer done, .comma => some (objectKey outer done)
  | objectNext outer done, .closeObject => some (complete outer (.object done.reverse))
  | _, _ => none

/-- The value of a text that is read from a state on. -/
def run? (state : JsonState) (text : List Char) : Option Json :=
  match _h : text.dropWhile Token.isBlank with
  | [] =>
    match state with
    | finished v => some v
    | _ => none
  | c :: rest =>
    match _hs : Token.scan? (c :: rest) with
    | none => none
    | some (token, rest) =>
      match state.step? token with
      | none => none
      | some next => next.run? rest
termination_by text.length
decreasing_by
  have := Token.length_scan_lt _hs
  have := (List.dropWhile_sublist Token.isBlank (l := text)).length_le
  rw [_h] at this
  omega

end JsonState

/-- The value of a JSON text. -/
def Json.parse? (text : String) : Option Json := (JsonState.value []).run? text.toList

end CommandLink
