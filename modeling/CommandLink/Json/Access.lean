import CommandLink.Json.Basic

/-!
# What a value is read as

A value is read as what the reader expects, or not at all. Nothing may repeat a member that is
expected, leave one out, or nest deeper than `maxDepth`; members that are not expected are skipped
whatever they hold.
-/

namespace CommandLink.Json

/-- The most arrays and objects that may be open around what is read. -/
def maxDepth : Nat := 127

/-- A truth value. -/
def asBool? : Json → Option Bool
  | bool b => some b
  | _ => none

/-- A text. -/
def asString? : Json → Option String
  | string text => text
  | _ => none

/-- A natural number below `bound`. -/
def asNat? (bound : Nat) : Json → Option Nat
  | number n =>
    match n.toInt? with
    | some i => if 0 ≤ i ∧ i < bound then some i.toNat else none
    | none => none
  | _ => none

/-- The finite double-precision number nearest to a number. -/
def asBinary64? : Json → Option Binary64
  | number n => if (n.round .binary64).isFinite then some (n.round .binary64) else none
  | _ => none

/-- A single-precision number. Integers of 64 bits are rounded once; any other number goes through
double precision. -/
def asBinary32? : Json → Option Binary32
  | number n =>
    match n.toInt? with
    | some i =>
      if -2 ^ 63 ≤ i ∧ i < 2 ^ 64 then some (Binary.ofInt i)
      else (asBinary64? (number n)).map Binary.narrow
    | none => (asBinary64? (number n)).map Binary.narrow
  | _ => none

/-- The items of an array inside `depth` others. -/
def asItems? (depth : Nat) : Json → Option (List Json)
  | array items => if depth < maxDepth then some items else none
  | _ => none

/-- The value of the only member of the given name. -/
def only? (name : String) (members : List (Option String × Json)) : Option Json :=
  match members.filter (·.1 == some name) with
  | [(_, value)] => some value
  | _ => none

/-- The values of the fields of the given names inside `depth` arrays and objects: from an object,
or from an array of exactly these values. -/
def asFields? (depth : Nat) (names : List String) : Json → Option (List Json)
  | array items =>
    if depth < maxDepth ∧ items.length = names.length then some items else none
  | object members =>
    if depth < maxDepth ∧ members.all (·.1.isSome) then names.mapM (only? · members) else none
  | _ => none

mutual

/-- Whether a value inside `depth` others can be kept until it is known what it is read as: every
string is a text, every number is finite, and nothing nests too deep. -/
def isPlain (depth : Nat) : Json → Bool
  | null => true
  | bool _ => true
  | number n => (n.round .binary64).isFinite
  | string text => text.isSome
  | array items => depth < maxDepth && allPlain (depth + 1) items
  | object members => depth < maxDepth && allMembersPlain (depth + 1) members

/-- The same of every item. -/
def allPlain (depth : Nat) : List Json → Bool
  | [] => true
  | item :: items => item.isPlain depth && allPlain depth items

/-- The same of every member and its key. -/
def allMembersPlain (depth : Nat) : List (Option String × Json) → Bool
  | [] => true
  | (key, value) :: members =>
    key.isSome && value.isPlain depth && allMembersPlain depth members

end

end CommandLink.Json
