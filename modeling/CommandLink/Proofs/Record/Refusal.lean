import CommandLink.Proofs.Record.RoundTrip

/-!
# Refused records

A record is refused for its number of values, or for the first of its values that a field refuses.

* `FieldType.encode_eq_error`: a value is refused because it is of another kind, or it is of the kind
  that is asked for and the wire type cannot carry it.
* `Message.encode_eq_error`: when a record is refused, and why.
-/

namespace CommandLink

/-- The value is of the kind that is asked for. Integers count as numbers, truth values never do. -/
inductive FieldValue.IsOf : FieldValue → ValueKind → Prop where
  | boolean (b : Bool) : IsOf (.bool b) .boolean
  | integer (n : Int64) : IsOf (.int n) .integer
  | whole (n : Int64) : IsOf (.int n) .numeric
  | number (x : Binary64) : IsOf (.float x) .numeric

namespace FieldType

/-! ## One value -/

variable {type : FieldType} {value : FieldValue} {fault : FieldFault}

/-- Why a value is refused by a field that asks for values of a kind. -/
def Faulty (kind : ValueKind) (value : FieldValue) (fault : FieldFault) : Prop :=
  ¬ value.IsOf kind ∧ fault = .kindMismatch kind ∨
    value.IsOf kind ∧ fault.isNumericOverflow = true

theorem faulty_of_encodeInteger {low high : Int} (hkind : type.kind = .integer)
    (hrefused : encodeInteger type low high value = .error fault) :
    Faulty .integer value fault := by
  unfold encodeInteger at hrefused
  rw [hkind] at hrefused
  cases value with
  | int n =>
    simp only [FieldValue.asInt?] at hrefused
    split at hrefused
    · cases hrefused
    · cases hrefused
      exact .inr ⟨.integer n, rfl⟩
  | bool b =>
    cases hrefused
    exact .inl ⟨by rintro ⟨⟩, rfl⟩
  | float x =>
    cases hrefused
    exact .inl ⟨by rintro ⟨⟩, rfl⟩

theorem isOf_numeric {x : Binary64} (hx : value.asFloat? = some x) : value.IsOf .numeric := by
  cases value with
  | bool b => cases hx
  | int n => exact .whole n
  | float y => exact .number y

theorem faulty_of_finite (hkind : type.kind = .numeric)
    (hrefused : finite type value = .error fault) : Faulty .numeric value fault := by
  unfold finite at hrefused
  rw [hkind] at hrefused
  cases hx : value.asFloat? with
  | none =>
    rw [hx] at hrefused
    cases hrefused
    refine .inl ⟨?_, rfl⟩
    rintro ⟨⟩ <;> cases hx
  | some x =>
    rw [hx] at hrefused
    simp only at hrefused
    split at hrefused
    · cases hrefused
    · cases hrefused
      exact .inr ⟨isOf_numeric hx, rfl⟩

/-- **A value is refused** because it is of another kind than the field asks for, or as a number that
the wire type cannot carry. -/
theorem encode_eq_error (hrefused : type.encode value = .error fault) :
    Faulty type.kind value fault := by
  cases type with
  | bool =>
    cases value with
    | bool b => cases hrefused
    | int n =>
      cases hrefused
      exact .inl ⟨nofun, rfl⟩
    | float x =>
      cases hrefused
      exact .inl ⟨nofun, rfl⟩
  | f32 =>
    simp only [encode] at hrefused
    cases hx : finite f32 value with
    | error e =>
      rw [hx] at hrefused
      cases hrefused
      exact faulty_of_finite rfl hx
    | ok x =>
      rw [hx] at hrefused
      simp only at hrefused
      split at hrefused
      · cases hrefused
      · cases hrefused
        exact .inr ⟨isOf_numeric (finite_eq_ok hx).1, rfl⟩
  | fixed32 scale =>
    simp only [encode] at hrefused
    cases hx : finite (fixed32 scale) value with
    | error e =>
      rw [hx] at hrefused
      cases hrefused
      exact faulty_of_finite rfl hx
    | ok x =>
      rw [hx] at hrefused
      simp only at hrefused
      split at hrefused
      · cases hrefused
        exact .inr ⟨isOf_numeric (finite_eq_ok hx).1, rfl⟩
      · cases hrefused
  | _ => exact faulty_of_encodeInteger rfl hrefused

end FieldType

/-! ## Fields of a record -/

/-- The field at `k` refuses its value, for this fault, and the fields before it accept theirs. -/
structure FirstRefusedField (fields : List Field) (record : Record) (k : Nat) (f : Field)
    (v : FieldValue) (fault : FieldFault) : Prop where
  field : fields[k]? = some f
  value : record[k]? = some v
  refused : f.type.encode v = .error fault
  before : ∀ j g w, j < k → fields[j]? = some g → record[j]? = some w →
    ∃ bytes, g.type.encode w = .ok bytes

variable {fields : List Field} {record : Record} {f : Field} {v : FieldValue} {fault : FieldFault}

/-- Behind a field that accepts its value the search goes on. -/
theorem firstRefusedField_cons {g : Field} {w : FieldValue} {bytes : Bytes}
    (haccepted : g.type.encode w = .ok bytes) {k : Nat} :
    FirstRefusedField (g :: fields) (w :: record) (k + 1) f v fault ↔
      FirstRefusedField fields record k f v fault := by
  constructor
  · intro hfirst
    refine ⟨hfirst.field, hfirst.value, hfirst.refused, fun j g' w' hj hg hw => ?_⟩
    exact hfirst.before (j + 1) g' w' (Nat.succ_lt_succ hj) hg hw
  · intro hfirst
    refine ⟨hfirst.field, hfirst.value, hfirst.refused, fun j g' w' hj hg hw => ?_⟩
    cases j with
    | zero =>
      cases hg
      cases hw
      exact ⟨bytes, haccepted⟩
    | succ j => exact hfirst.before j g' w' (Nat.lt_of_succ_lt_succ hj) hg hw

/-- A field that accepts its value is not the one that is refused. -/
theorem FirstRefusedField.pos {g : Field} {w : FieldValue} {bytes : Bytes}
    (haccepted : g.type.encode w = .ok bytes) {k : Nat}
    (hfirst : FirstRefusedField (g :: fields) (w :: record) k f v fault) : ∃ j, k = j + 1 := by
  cases k with
  | zero =>
    have hg : g = f := Option.some.inj hfirst.field
    have hw : w = v := Option.some.inj hfirst.value
    cases haccepted.symm.trans (hg ▸ hw ▸ hfirst.refused)
  | succ j => exact ⟨j, rfl⟩

/-- **Fields are written until one refuses its value.** -/
theorem writeFields_refusal (hlen : record.length = fields.length) {reason : RecordError} :
    (writeFields fields record).2 = some reason ↔
      ∃ k f v fault, FirstRefusedField fields record k f v fault ∧ reason = .field f.name fault := by
  induction fields generalizing record with
  | nil =>
    constructor
    · intro h
      simp [writeFields] at h
    · rintro ⟨k, f, v, fault, hfirst, -⟩
      cases hfirst.field
  | cons g fields ih =>
    cases record with
    | nil => cases hlen
    | cons w record =>
      cases hw : g.type.encode w with
      | error refusal =>
        simp only [writeFields, hw]
        constructor
        · rintro ⟨⟩
          exact ⟨0, g, w, refusal, ⟨rfl, rfl, hw, fun j _ _ hj => absurd hj j.not_lt_zero⟩, rfl⟩
        · rintro ⟨k, f, v, fault, hfirst, rfl⟩
          cases k with
          | zero =>
            cases hfirst.field
            cases hfirst.value
            cases hw.symm.trans hfirst.refused
            rfl
          | succ k =>
            obtain ⟨bytes, hbytes⟩ := hfirst.before 0 g w k.succ_pos rfl rfl
            cases hw.symm.trans hbytes
      | ok bytes =>
        simp only [writeFields, hw]
        rw [ih (Nat.succ.inj hlen)]
        constructor
        · rintro ⟨k, f, v, fault, hfirst, hreason⟩
          exact ⟨k + 1, f, v, fault, (firstRefusedField_cons hw).mpr hfirst, hreason⟩
        · rintro ⟨k, f, v, fault, hfirst, hreason⟩
          obtain ⟨j, rfl⟩ := hfirst.pos hw
          exact ⟨j, f, v, fault, (firstRefusedField_cons hw).mp hfirst, hreason⟩

/-! ## Records -/

/-- **A record is refused** for its number of values, or for the first value that a field refuses. -/
theorem Message.encode_eq_error {m : Message} {reason : RecordError} :
    m.encode record = .error reason ↔
      (record.length ≠ m.fields.length ∧
        reason = .fieldCount m.fields.length record.length) ∨
      (record.length = m.fields.length ∧ ∃ k f v fault,
        FirstRefusedField m.fields record k f v fault ∧ reason = .field f.name fault) := by
  unfold encode write
  by_cases hlen : record.length = m.fields.length
  · rw [if_pos hlen, ← writeFields_refusal hlen]
    rcases writeFields m.fields record with ⟨bytes, _ | refusal⟩ <;> simp [hlen]
  · rw [if_neg hlen]
    simp [hlen, eq_comm]

end CommandLink
