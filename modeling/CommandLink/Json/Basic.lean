import CommandLink.Decimal.Numeral

/-!
# JSON values

A value is a tree that keeps what a reader may still refuse or ignore: numbers as they are written,
members in their order with repetitions, and strings that no text equals because an escape stands
for half a surrogate pair.
-/

namespace CommandLink

/-- A JSON value. A string or a key without a text is one with half a surrogate pair. -/
inductive Json where
  | null
  | bool (b : Bool)
  | number (n : Numeral)
  | string (text : Option String)
  | array (items : List Json)
  | object (members : List (Option String × Json))

namespace Json

/-- A string. -/
def ofString (text : String) : Json := string (some text)

/-- An integer. -/
def ofInt (n : Int) : Json := number (.ofInt n)

/-- A binary number; JSON has no infinities and no NaN, so `null` stands for them. -/
def ofBinary {F : FloatFormat} (x : Binary F) : Json :=
  if x.isFinite then number ((NumeralStyle.json F).numeral x) else null

/-- An object with the given members. -/
def ofMembers (members : List (String × Json)) : Json :=
  object (members.map fun (key, value) => (some key, value))

/-- Members in ascending order of their keys with another one at its place; one with the same key
makes room. -/
def enter (key : String) (value : Json) : List (String × Json) → List (String × Json)
  | [] => [(key, value)]
  | next :: rest =>
    if key < next.1 then (key, value) :: next :: rest
    else if key = next.1 then (key, value) :: rest
    else next :: enter key value rest

/-- The object of entries that are made one after the other: the keys in ascending order, each with
the value that was entered last under it. -/
def ofEntries (entries : List (String × Json)) : Json :=
  ofMembers (entries.foldl (fun members entry => enter entry.1 entry.2 members) [])

end Json

end CommandLink
