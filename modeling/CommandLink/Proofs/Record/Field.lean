import CommandLink.Proofs.FixedPoint.RoundTrip
import CommandLink.Record.Codec

/-!
# One value there and back

What the wire makes of a value is its **canonical** form in a field type (`FieldType.canonical`):
integers and truth values are not changed, other numbers are rounded once to what the type holds.

* `decode_encode`: the bytes of an accepted value are read back as its canonical form, unless that
  is not finite, which only a fixed-point field can bring about (`exists_scale_of_lost`).
* `encode_decode`: the bytes of a value that was read are those it was read from, so a field type
  has one byte string for each value that it can deliver.
-/

namespace CommandLink

/-- Whether a value is not a number, or a finite one. -/
def FieldValue.isFinite : FieldValue → Bool
  | .float x => x.isFinite
  | _ => true

namespace FieldType

/-- The value that a field of this type delivers for a value that it accepts. -/
def canonical (type : FieldType) (value : FieldValue) : FieldValue :=
  match type, value.asFloat? with
  | f32, some x => .float x.narrow.widen
  | fixed32 scale, some x =>
    match FixedPoint.encode x scale with
    | .ok raw => .float (FixedPoint.decode raw scale)
    | .error _ => value
  | _, _ => value

/-! ## Integers -/

/-- `low` and `high` are the bounds of two's complement, with or without a sign, in the bytes of a
type, and 64 bits hold them. -/
structure Bounds (type : FieldType) (low high : Int) : Prop where
  span : low + 256 ^ type.wireSize = high + 1
  low_nonpos : low ≤ 0
  high_nonneg : 0 ≤ high
  small : high < 2 ^ 62 ∧ -2 ^ 62 < low

variable {type : FieldType} {low high : Int} {value : FieldValue} {bytes : Bytes}

theorem Bounds.toInt_ofInt (h : type.Bounds low high) {n : Int} (hlo : low ≤ n) (hhi : n ≤ high) :
    (Int64.ofInt n).toInt = n := by
  have := h.small
  exact Int64.toInt_ofInt_of_le (by omega) (by omega)

theorem encodeInteger_eq_ok (h : encodeInteger type low high value = .ok bytes) :
    ∃ n, value = .int n ∧ low ≤ n.toInt ∧ n.toInt ≤ high ∧
      bytes = Bytes.ofNat type.wireSize (n.toInt % 256 ^ type.wireSize).toNat := by
  unfold encodeInteger at h
  cases value with
  | bool b => cases h
  | float x => cases h
  | int n =>
    simp only [FieldValue.asInt?] at h
    split at h
    · rename_i hn
      exact ⟨n, rfl, hn.1, hn.2, (Except.ok.inj h).symm⟩
    · cases h

/-- An accepted integer is read back as it was. -/
theorem decodeInteger_encodeInteger (hb : type.Bounds low high)
    (h : encodeInteger type low high value = .ok bytes) :
    decodeInteger type high bytes = value := by
  obtain ⟨n, rfl, hlo, hhi, rfl⟩ := encodeInteger_eq_ok h
  have hspan := hb.span
  have hpos : (0 : Int) < 256 ^ type.wireSize := Int.pow_pos (by decide)
  have hlt := Int.emod_lt_of_pos n.toInt hpos
  have hnn := Int.emod_nonneg n.toInt hpos.ne'
  have hread :
      (Bytes.toNat (Bytes.ofNat type.wireSize (n.toInt % 256 ^ type.wireSize).toNat) : Int) =
        n.toInt % 256 ^ type.wireSize := by
    rw [Bytes.toNat_ofNat]
    push_cast
    rw [Int.toNat_of_nonneg hnn, Int.emod_emod_of_dvd _ (Int.dvd_refl _)]
  have hval : (if n.toInt % 256 ^ type.wireSize ≤ high then n.toInt % 256 ^ type.wireSize
      else n.toInt % 256 ^ type.wireSize - 256 ^ type.wireSize) = n.toInt := by
    by_cases hneg : 0 ≤ n.toInt
    · have e : n.toInt % 256 ^ type.wireSize = n.toInt := by
        have := hb.low_nonpos
        exact Int.emod_eq_of_lt hneg (by omega)
      rw [e, if_pos hhi]
    · have e : n.toInt % 256 ^ type.wireSize = n.toInt + 256 ^ type.wireSize := by
        rw [← Int.add_emod_right]
        exact Int.emod_eq_of_lt (by have := hb.high_nonneg; omega) (by omega)
      rw [e, if_neg (by omega), Int.add_sub_cancel]
  unfold decodeInteger
  simp only [hread, hval, Int64.ofInt_toInt]

/-- An integer that was read is written as the bytes it was read from. -/
theorem encodeInteger_decodeInteger (hb : type.Bounds low high)
    (hlen : bytes.length = type.wireSize) :
    encodeInteger type low high (decodeInteger type high bytes) = .ok bytes := by
  have hspan := hb.span
  have hlow := hb.low_nonpos
  have hhigh := hb.high_nonneg
  have hlt : ((Bytes.toNat bytes : Nat) : Int) < 256 ^ type.wireSize := by
    have := Bytes.toNat_lt bytes
    rw [hlen] at this
    exact_mod_cast this
  have hback : ∀ n : Int, n % 256 ^ type.wireSize = Bytes.toNat bytes →
      Bytes.ofNat type.wireSize (n % 256 ^ type.wireSize).toNat = bytes := by
    intro n hn
    rw [hn, Int.toNat_natCast, ← hlen, Bytes.ofNat_toNat]
  unfold encodeInteger decodeInteger
  simp only [FieldValue.asInt?]
  by_cases hk : ((Bytes.toNat bytes : Nat) : Int) ≤ high
  · rw [if_pos hk, hb.toInt_ofInt (by omega) hk, if_pos ⟨by omega, hk⟩,
      hback _ (Int.emod_eq_of_lt (by omega) hlt)]
  · rw [if_neg hk, hb.toInt_ofInt (by omega) (by omega), if_pos ⟨by omega, by omega⟩, hback]
    rw [Int.sub_emod_right]
    exact Int.emod_eq_of_lt (by omega) hlt

/-! ## Numbers -/

theorem finite_eq_ok {x : Binary64} (h : finite type value = .ok x) :
    value.asFloat? = some x ∧ x.isFinite = true := by
  unfold finite at h
  split at h
  · cases h
  · rename_i y hy
    split at h
    · rename_i hfin
      cases h
      exact ⟨hy, hfin⟩
    · cases h

theorem finite_float {x : Binary64} (h : x.isFinite = true) : finite type (.float x) = .ok x := by
  unfold finite
  simp only [FieldValue.asFloat?, h, ↓reduceIte]

theorem two_mul_magnitudes : 2 * FloatFormat.binary32.magnitudes = 256 ^ 4 := by decide

/-- A 32-bit pattern is read back from its bytes. -/
theorem toNat_ofNat_toBits (x : Binary32) : Bytes.toNat (Bytes.ofNat 4 x.toBits) = x.toBits := by
  have hlt := Binary.toBits_lt x
  rw [two_mul_magnitudes] at hlt
  rw [Bytes.toNat_ofNat, Nat.mod_eq_of_lt hlt]

theorem ofNat_toNat_raw (raw : Int32) :
    (UInt32.ofNat (Bytes.toNat (Bytes.ofNat 4 raw.toUInt32.toNat))).toInt32 = raw := by
  have hlt : raw.toUInt32.toNat < 256 ^ 4 := raw.toUInt32.toNat_lt
  rw [Bytes.toNat_ofNat, Nat.mod_eq_of_lt hlt, UInt32.ofNat_toNat, Int32.toInt32_toUInt32]

theorem ofNat_raw_toNat (hlen : bytes.length = 4) :
    Bytes.ofNat 4 (UInt32.ofNat (Bytes.toNat bytes)).toInt32.toUInt32.toNat = bytes := by
  have hlt := Bytes.toNat_lt bytes
  rw [hlen] at hlt
  rw [UInt32.toUInt32_toInt32, UInt32.toNat_ofNat_of_lt' hlt, ← hlen, Bytes.ofNat_toNat]

/-! ## What is accepted and what is delivered -/

theorem encode_bool_eq_ok (h : bool.encode value = .ok bytes) :
    ∃ b, value = .bool b ∧ bytes = [if b then 1 else 0] := by
  cases value with
  | bool b => exact ⟨b, rfl, (Except.ok.inj h).symm⟩
  | int n => cases h
  | float x => cases h

theorem encode_f32_eq_ok (h : f32.encode value = .ok bytes) :
    ∃ x, value.asFloat? = some x ∧ x.narrow.isFinite = true ∧
      bytes = Bytes.ofNat 4 x.narrow.toBits := by
  simp only [encode] at h
  split at h
  · cases h
  · rename_i x hx
    split at h
    · rename_i hfin
      exact ⟨x, (finite_eq_ok hx).1, hfin, (Except.ok.inj h).symm⟩
    · cases h

theorem encode_fixed32_eq_ok {scale : Binary64} (h : (fixed32 scale).encode value = .ok bytes) :
    ∃ x raw, value.asFloat? = some x ∧ FixedPoint.encode x scale = .ok raw ∧
      bytes = Bytes.ofNat 4 raw.toUInt32.toNat := by
  simp only [encode] at h
  split at h
  · cases h
  · rename_i x hx
    split at h
    · cases h
    · rename_i raw hraw
      exact ⟨x, raw, (finite_eq_ok hx).1, hraw, (Except.ok.inj h).symm⟩

theorem encode_f32 {x : Binary64} (hx : finite f32 value = .ok x)
    (hfin : x.narrow.isFinite = true) : f32.encode value = .ok (Bytes.ofNat 4 x.narrow.toBits) := by
  simp only [encode, hx, hfin, ↓reduceIte]

theorem encode_fixed32 {x scale : Binary64} {raw : Int32}
    (hx : finite (fixed32 scale) value = .ok x) (hraw : FixedPoint.encode x scale = .ok raw) :
    (fixed32 scale).encode value = .ok (Bytes.ofNat 4 raw.toUInt32.toNat) := by
  simp only [encode, hx, hraw]

theorem decode_bool_eq_ok (h : bool.decode bytes = .ok value) :
    ∃ b, value = .bool b ∧ Bytes.toNat bytes = if b then 1 else 0 := by
  simp only [decode] at h
  split at h
  · rename_i h0
    exact ⟨false, (Except.ok.inj h).symm, h0⟩
  · rename_i h1
    exact ⟨true, (Except.ok.inj h).symm, h1⟩
  · cases h

theorem decode_f32_eq_ok (h : f32.decode bytes = .ok value) :
    ∃ x, x = Binary.ofBits .binary32 (Bytes.toNat bytes) ∧ x.isFinite = true ∧
      value = .float x.widen := by
  simp only [decode] at h
  split at h
  · rename_i hfin
    exact ⟨_, rfl, hfin, (Except.ok.inj h).symm⟩
  · cases h

theorem decode_fixed32_eq_ok {scale : Binary64} (h : (fixed32 scale).decode bytes = .ok value) :
    ∃ raw, raw = (UInt32.ofNat (Bytes.toNat bytes)).toInt32 ∧
      (FixedPoint.decode raw scale).isFinite = true ∧
      value = .float (FixedPoint.decode raw scale) := by
  simp only [decode] at h
  split at h
  · rename_i hfin
    exact ⟨_, rfl, hfin, (Except.ok.inj h).symm⟩
  · cases h

/-! ## Every type -/

/-- A decoded number is finite. -/
theorem isFinite_decode (h : type.decode bytes = .ok value) : value.isFinite = true := by
  cases type with
  | bool =>
    obtain ⟨b, rfl, -⟩ := decode_bool_eq_ok h
    rfl
  | f32 =>
    obtain ⟨x, -, hfin, rfl⟩ := decode_f32_eq_ok h
    exact (Binary.units_widen hfin).1
  | fixed32 scale =>
    obtain ⟨raw, -, hfin, rfl⟩ := decode_fixed32_eq_ok h
    exact hfin
  | _ =>
    cases h
    rfl

theorem length_encodeInteger (h : encodeInteger type low high value = .ok bytes) :
    bytes.length = type.wireSize := by
  obtain ⟨n, -, -, -, rfl⟩ := encodeInteger_eq_ok h
  exact Bytes.length_ofNat _ _

/-- A value takes as many bytes as its field type has. -/
theorem length_encode (h : type.encode value = .ok bytes) : bytes.length = type.wireSize := by
  cases type with
  | bool =>
    obtain ⟨b, -, rfl⟩ := encode_bool_eq_ok h
    rfl
  | f32 =>
    obtain ⟨x, -, -, rfl⟩ := encode_f32_eq_ok h
    exact Bytes.length_ofNat _ _
  | fixed32 scale =>
    obtain ⟨x, raw, -, -, rfl⟩ := encode_fixed32_eq_ok h
    exact Bytes.length_ofNat _ _
  | _ => exact length_encodeInteger h

theorem canonical_f32 {x : Binary64} (h : value.asFloat? = some x) :
    f32.canonical value = .float x.narrow.widen := by
  unfold canonical
  rw [h]

theorem canonical_fixed32 {x scale : Binary64} {raw : Int32} (h : value.asFloat? = some x)
    (hraw : FixedPoint.encode x scale = .ok raw) :
    (fixed32 scale).canonical value = .float (FixedPoint.decode raw scale) := by
  unfold canonical
  rw [h]
  simp only [hraw]

/-- **An accepted value is read back in its canonical form**, unless that is not finite. -/
theorem decode_encode (h : type.encode value = .ok bytes) : type.decode bytes =
    if (type.canonical value).isFinite then .ok (type.canonical value) else .error .nonFinite := by
  cases type with
  | bool =>
    obtain ⟨b, rfl, rfl⟩ := encode_bool_eq_ok h
    cases b <;> rfl
  | f32 =>
    obtain ⟨x, hval, hfin, rfl⟩ := encode_f32_eq_ok h
    have hwide := (Binary.units_widen hfin).1
    rw [canonical_f32 hval]
    simp only [decode, toNat_ofNat_toBits, Binary.ofBits_toBits, hfin, FieldValue.isFinite, hwide,
      ↓reduceIte]
  | fixed32 scale =>
    obtain ⟨x, raw, hval, hraw, rfl⟩ := encode_fixed32_eq_ok h
    rw [canonical_fixed32 hval hraw]
    simp only [decode, ofNat_toNat_raw, FieldValue.isFinite]
    rfl
  | _ =>
    obtain ⟨n, rfl, -⟩ := encodeInteger_eq_ok h
    exact congrArg Except.ok (decodeInteger_encodeInteger (by constructor <;> decide) h)

/-- **A value that was read is written as the bytes it was read from**, if the scale is valid. -/
theorem encode_decode (hlen : bytes.length = type.wireSize)
    (hscale : ∀ scale, type.scale? = some scale → FixedPoint.validScale scale = true)
    (h : type.decode bytes = .ok value) : type.encode value = .ok bytes := by
  cases type with
  | bool =>
    obtain ⟨b, rfl, hb⟩ := decode_bool_eq_ok h
    have hback := Bytes.ofNat_toNat bytes
    rw [hlen, hb] at hback
    rw [← hback]
    cases b <;> rfl
  | f32 =>
    obtain ⟨x, hx, hfin, rfl⟩ := decode_f32_eq_ok h
    have hwide := (Binary.units_widen hfin).1
    have hlt := Bytes.toNat_lt bytes
    rw [hlen, wireSize, ← two_mul_magnitudes] at hlt
    have hback := Bytes.ofNat_toNat bytes
    rw [hlen] at hback
    have hnarrow := Binary.narrow_widen hfin
    rw [encode_f32 (finite_float hwide) (by rw [hnarrow]; exact hfin), hnarrow, hx,
      Binary.toBits_ofBits hlt]
    exact congrArg Except.ok hback
  | fixed32 scale =>
    obtain ⟨raw, hraw, hfin, rfl⟩ := decode_fixed32_eq_ok h
    rw [encode_fixed32 (finite_float hfin) (FixedPoint.encode_decode (hscale scale rfl) hfin), hraw,
      ofNat_raw_toNat hlen]
  | _ =>
    cases h
    exact encodeInteger_decodeInteger (by constructor <;> decide) hlen

/-- Only a fixed-point field can deliver something that is not finite. -/
theorem exists_scale_of_lost (h : type.encode value = .ok bytes)
    (hlost : (type.canonical value).isFinite = false) : ∃ scale, type = fixed32 scale := by
  cases type with
  | bool =>
    obtain ⟨b, rfl, -⟩ := encode_bool_eq_ok h
    cases hlost
  | f32 =>
    obtain ⟨x, hval, hfin, -⟩ := encode_f32_eq_ok h
    rw [canonical_f32 hval] at hlost
    exact absurd (Binary.units_widen hfin).1 (Bool.eq_false_iff.mp hlost)
  | fixed32 scale => exact ⟨scale, rfl⟩
  | _ =>
    obtain ⟨n, rfl, -⟩ := encodeInteger_eq_ok h
    cases hlost

end FieldType

end CommandLink
