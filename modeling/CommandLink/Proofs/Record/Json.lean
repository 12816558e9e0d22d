import CommandLink.Proofs.Json.Access
import CommandLink.Proofs.Json.RoundTrip
import CommandLink.Proofs.Record.Field
import CommandLink.Record.Json

/-!
# Records survive JSON

A value is told from its JSON text alone: a truth value is no number, an integer is written without
point and exponent, and a double-precision number never is. So the kinds do not mix.

* `FieldValue.ofJson?_toJson`: a value is read back with its kind and its bits.
* `Record.read_text`: so is every record whose numbers are finite, from its text.
-/

namespace CommandLink

namespace FieldValue

theorem int64?_ofInt (n : Int64) : int64? (.ofInt n.toInt) = some n := by
  have hrange : -2 ^ 63 ≤ n.toInt ∧ n.toInt < 2 ^ 63 := ⟨n.le_toInt, n.toInt_lt⟩
  unfold int64?
  rw [Numeral.toInt?_ofInt]
  simp only [if_pos hrange, Int64.ofInt_toInt]

/-- **A value is read back with its kind and its bits.** An integer is tried first, and the numeral of
a double-precision number is never one. -/
theorem ofJson?_toJson {v : FieldValue} (h : v.isFinite = true) : ofJson? v.toJson = some v := by
  cases v with
  | bool b => rfl
  | int n =>
    have hvalue : (int n).toJson = .number (.ofInt n.toInt) := rfl
    rw [hvalue, ofJson?, int64?_ofInt]
  | float x =>
    obtain ⟨n, hn, -, hinteger⟩ := Json.ofBinary_of_isFinite h
    have hread := Json.asBinary64?_ofBinary h
    have hvalue : (float x).toJson = .number n := hn
    rw [hn] at hread
    rw [hvalue, ofJson?, int64?, hinteger]
    simp only [hread, Option.map_some]

theorem isText_toJson (v : FieldValue) : v.toJson.IsText := by
  cases v <;> simp [toJson]

end FieldValue

namespace Record

/-- **A record is read back from its JSON text**, every value with its kind and its bits: truth values,
integers of 64 bits, and finite numbers with their sign, whether they are whole, zero, huge or tiny. -/
theorem read_text (r : Record) (h : ∀ x, FieldValue.float x ∈ r → x.isFinite = true) :
    (Json.parse? r.toJson.text).bind ofJson? = some r := by
  have htext : r.toJson.IsText := by
    rw [toJson, Json.isText_array, List.forall_mem_map]
    exact fun v _ => v.isText_toJson
  have hvalues : ∀ v ∈ r, FieldValue.ofJson? v.toJson = some v := by
    intro v hv
    refine FieldValue.ofJson?_toJson ?_
    cases v with
    | float x => exact h x hv
    | _ => rfl
  have hitems : r.toJson.asItems? 0 = some (r.map FieldValue.toJson) := rfl
  rw [Json.parse?_text htext, Option.bind_some, ofJson?, hitems]
  exact Json.mapM_eq_some hvalues

/-- A truth value, the least integer, minus zero, a whole number and the least positive number. -/
theorem read_text_mixed :
    let r : Record := [.bool true, .int (-9223372036854775808), .float (.zero true),
      .float (.ofBits .binary64 0x3FF0000000000000), .float (.ofBits .binary64 1)]
    (Json.parse? r.toJson.text).bind ofJson? = some r := by
  intro r
  refine read_text r fun x hx => ?_
  simp only [r, List.mem_cons, FieldValue.float.injEq, List.not_mem_nil, reduceCtorEq, false_or,
    or_false] at hx
  obtain rfl | rfl | rfl := hx <;> decide

end Record

end CommandLink
