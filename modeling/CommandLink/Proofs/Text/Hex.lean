import CommandLink.Text.Hex
import Mathlib.Tactic.Common

/-!
# Hexadecimal digits are read back

* `StandsFor`: a character is a digit of the given value, in either case.
* `Spells`: a text is the digits of a byte string, two for each byte.
* `toBytes_eq_ok_iff`: exactly the texts that spell a byte string are read, and as that byte string.
  The reader sees the UTF-8 form of a text; a character outside of ASCII starts with a byte that is no
  digit, so it is refused in any place.
* `spells_flatMap`: the digits that are written for a byte string spell it.
-/

namespace CommandLink

namespace Hex

/-! ## One digit -/

/-- The character is the digit of value `d`, in lower or upper case. -/
def StandsFor (c : Char) (d : Nat) : Prop := d < 16 ∧ ∃ letters, c = digitChar letters d

theorem toNat_digitChar (letters : LetterCase) {d : Nat} (h : d < 16) :
    (digitChar letters d).toNat < 128 ∧
      digit? (UInt8.ofNat (digitChar letters d).toNat) = some d := by
  have table : ∀ letters, ∀ d : Fin 16, (digitChar letters d).toNat < 128 ∧
      digit? (UInt8.ofNat (digitChar letters d).toNat) = some d.val := by
    rintro (_ | _) <;> decide
  exact table letters ⟨d, h⟩

theorem digit?_lt {b : UInt8} {d : Nat} (h : digit? b = some d) : d < 16 := by
  unfold digit? at h
  grind

/-- An ASCII character is read as a digit exactly if it stands for one. -/
theorem digit?_eq_some_iff {c : Char} (hc : c.toNat < 128) {d : Nat} :
    digit? (UInt8.ofNat c.toNat) = some d ↔ StandsFor c d := by
  constructor
  · intro h
    refine ⟨digit?_lt h, ?_⟩
    have hvalue : (UInt8.ofNat c.toNat).toNat = c.toNat := by
      rw [UInt8.toNat_ofNat', Nat.mod_eq_of_lt (by omega)]
    unfold digit? at h
    simp only [hvalue] at h
    split at h
    · cases h
      refine ⟨.lower, ?_⟩
      rw [digitChar, if_pos (by omega), show 48 + (c.toNat - 48) = c.toNat by omega,
        Char.ofNat_toNat]
    · split at h
      · cases h
        refine ⟨.lower, ?_⟩
        rw [digitChar, if_neg (by omega), show 87 + (c.toNat - 87) = c.toNat by omega,
          Char.ofNat_toNat]
      · split at h
        · cases h
          refine ⟨.upper, ?_⟩
          rw [digitChar, if_neg (by omega), show 55 + (c.toNat - 55) = c.toNat by omega,
            Char.ofNat_toNat]
        · cases h
  · rintro ⟨hd, letters, rfl⟩
    exact (toNat_digitChar letters hd).2

theorem StandsFor.lt {c : Char} {d : Nat} (h : StandsFor c d) : c.toNat < 128 := by
  obtain ⟨hd, letters, rfl⟩ := h
  exact (toNat_digitChar letters hd).1

/-! ## Texts as bytes -/

theorem ofString_ofList (text : List Char) :
    Bytes.ofString (String.ofList text) = text.flatMap String.utf8EncodeChar := by
  simp [Bytes.ofString, String.toUTF8, List.utf8Encode]

theorem utf8_of_lt {c : Char} (h : c.toNat < 128) :
    String.utf8EncodeChar c = [UInt8.ofNat c.toNat] := by
  have h : c.val.toNat ≤ 127 := Nat.le_of_lt_succ h
  unfold String.utf8EncodeChar
  simp only [if_pos h]
  rfl

/-- A character outside of ASCII has several bytes, and the first of them is no digit. -/
theorem utf8_of_not_lt {c : Char} (h : ¬c.toNat < 128) :
    ∃ first second more, String.utf8EncodeChar c = first :: second :: more ∧
      digit? first = none := by
  have hlarge : ¬c.val.toNat ≤ 127 := fun hle => h (Nat.lt_succ_of_le hle)
  have hnone {n : Nat} (hn : 192 ≤ n) (hlt : n < 256) : digit? (UInt8.ofNat n) = none := by
    unfold digit?
    simp only [UInt8.toNat_ofNat', Nat.mod_eq_of_lt hlt]
    grind
  unfold String.utf8EncodeChar
  simp only [if_neg hlarge]
  split
  · exact ⟨_, _, _, rfl, hnone (by omega) (by omega)⟩
  · split
    · exact ⟨_, _, _, rfl, hnone (by omega) (by omega)⟩
    · exact ⟨_, _, _, rfl, hnone (by omega) (by omega)⟩

/-! ## Pairs of digits -/

/-- The text is the digits of the byte string, two for each byte, each in lower or upper case. -/
inductive Spells : List Char → Bytes → Prop where
  | nil : Spells [] []
  | cons {high low : Char} {b : UInt8} {text : List Char} {bytes : Bytes}
      (high_digit : StandsFor high (b.toNat / 16)) (low_digit : StandsFor low (b.toNat % 16))
      (rest : Spells text bytes) : Spells (high :: low :: text) (b :: bytes)

/-- Texts that spell something are as long in bytes as in characters, twice as long as it. -/
theorem Spells.length {text : List Char} {bytes : Bytes} (h : Spells text bytes) :
    (text.flatMap String.utf8EncodeChar).length = 2 * bytes.length := by
  induction h with
  | nil => rfl
  | cons hhigh hlow _ ih =>
    simp only [List.flatMap_cons, utf8_of_lt hhigh.lt, utf8_of_lt hlow.lt, List.length_append,
      List.length_cons, List.length_nil, ih]
    omega

/-- Two characters that are no two digits are refused, whatever their UTF-8 forms are, and two digits
are read as one byte. -/
theorem pairs_two_iff {a b : Char} {rest done bytes : Bytes} {position : Nat} :
    pairs (String.utf8EncodeChar a ++ (String.utf8EncodeChar b ++ rest)) position done = .ok bytes ↔
      ∃ high low, StandsFor a high ∧ StandsFor b low ∧
        pairs rest (position + 2) (UInt8.ofNat (high * 16 + low) :: done) = .ok bytes := by
  have hfirst {first second : UInt8} {rest : Bytes} (h : digit? first = none) :
      pairs (first :: second :: rest) position done ≠ .ok bytes := by
    intro hpairs
    simp [pairs, digitAt, h] at hpairs
  have hsecond {first second : UInt8} {rest : Bytes} (h : digit? second = none) :
      pairs (first :: second :: rest) position done ≠ .ok bytes := by
    intro hpairs
    simp only [pairs, digitAt, h] at hpairs
    split at hpairs <;> cases hpairs
  by_cases ha : a.toNat < 128
  · by_cases hb : b.toNat < 128
    · rw [utf8_of_lt ha, utf8_of_lt hb]
      simp only [← digit?_eq_some_iff ha, ← digit?_eq_some_iff hb, List.cons_append,
        List.nil_append]
      cases hhigh : digit? (UInt8.ofNat a.toNat) with
      | none => simpa using hfirst hhigh
      | some high =>
        cases hlow : digit? (UInt8.ofNat b.toNat) with
        | none => simpa using hsecond hlow
        | some low => simp [pairs, digitAt, hhigh, hlow]
    · obtain ⟨first, second, more, hform, hnone⟩ := utf8_of_not_lt hb
      rw [utf8_of_lt ha, hform]
      exact iff_of_false (hsecond hnone) fun ⟨_, _, _, hdigit, _⟩ => hb hdigit.lt
  · obtain ⟨first, second, more, hform, hnone⟩ := utf8_of_not_lt ha
    rw [hform]
    exact iff_of_false (hfirst hnone) fun ⟨_, _, hdigit, _⟩ => ha hdigit.lt

/-- **Pairs of digits are read as what they spell.** -/
theorem pairs_eq_ok_iff (text : List Char) {position : Nat} {done bytes : Bytes}
    (heven : (text.flatMap String.utf8EncodeChar).length % 2 = 0) :
    pairs (text.flatMap String.utf8EncodeChar) position done = .ok bytes ↔
      ∃ tail, Spells text tail ∧ bytes = done.reverse ++ tail := by
  match text with
  | [] =>
    constructor
    · intro h
      cases h
      exact ⟨[], .nil, (List.append_nil _).symm⟩
    · rintro ⟨_, ⟨⟩, rfl⟩
      rw [List.append_nil]
      rfl
  | [c] =>
    -- One byte would be an odd number of them, and a longer form starts with no digit.
    refine iff_of_false ?_ (by rintro ⟨_, ⟨⟩, -⟩)
    by_cases hc : c.toNat < 128
    · simp [utf8_of_lt hc] at heven
    · obtain ⟨first, second, more, hform, hnone⟩ := utf8_of_not_lt hc
      simp [hform, pairs, digitAt, hnone]
  | a :: b :: text =>
    rw [List.flatMap_cons, List.flatMap_cons, pairs_two_iff]
    constructor
    · rintro ⟨high, low, hhigh, hlow, hrest⟩
      have hhigh_lt := hhigh.1
      have hlow_lt := hlow.1
      have htext : (text.flatMap String.utf8EncodeChar).length % 2 = 0 := by
        simp only [List.flatMap_cons, utf8_of_lt hhigh.lt, utf8_of_lt hlow.lt, List.length_append,
          List.length_singleton] at heven
        omega
      obtain ⟨tail, hspells, rfl⟩ := (pairs_eq_ok_iff text htext).mp hrest
      have hbyte : (UInt8.ofNat (high * 16 + low)).toNat = high * 16 + low := by
        rw [UInt8.toNat_ofNat', Nat.mod_eq_of_lt (by omega)]
      refine ⟨UInt8.ofNat (high * 16 + low) :: tail, .cons ?_ ?_ hspells, by simp⟩
      · rwa [hbyte, show (high * 16 + low) / 16 = high by omega]
      · rwa [hbyte, show (high * 16 + low) % 16 = low by omega]
    · rintro ⟨_, hspells, rfl⟩
      obtain _ | ⟨hhigh, hlow, hspells⟩ := hspells
      rename_i byte tail
      refine ⟨_, _, hhigh, hlow, ?_⟩
      rw [pairs_eq_ok_iff text (by rw [hspells.length]; omega)]
      refine ⟨tail, hspells, ?_⟩
      rw [show byte.toNat / 16 * 16 + byte.toNat % 16 = byte.toNat by omega, UInt8.ofNat_toNat]
      simp

/-- **Exactly the texts that spell a byte string are read**, as that byte string. -/
theorem toBytes_eq_ok_iff (text : List Char) (bytes : Bytes) :
    toBytes (Bytes.ofString (String.ofList text)) = .ok bytes ↔ Spells text bytes := by
  rw [ofString_ofList, toBytes]
  by_cases hodd : (text.flatMap String.utf8EncodeChar).length % 2 = 1
  · rw [if_pos hodd]
    refine iff_of_false (by rintro ⟨⟩) fun h => ?_
    rw [h.length] at hodd
    omega
  · rw [if_neg hodd, pairs_eq_ok_iff text (by omega)]
    simp

/-- The digits that are written for a byte string spell it. -/
theorem spells_flatMap (bytes : Bytes) : Spells (bytes.flatMap byteChars) bytes := by
  induction bytes with
  | nil => exact .nil
  | cons b bytes ih =>
    have hb := b.toNat_lt
    exact .cons ⟨by omega, .lower, rfl⟩ ⟨by omega, .lower, rfl⟩ ih

end Hex

end CommandLink
