import CommandLink.Json.Quoted
import CommandLink.Proofs.Text.Hex

/-!
# Quoted strings are read back

* `scan_encodeChar`: whatever a character is written as, one unit is read (`unitOf`).
* `scan_encode`: an encoded text is read up to its closing quote.
* `assemble_units`: the units of a text make up the text; none of them is half of a surrogate pair.
-/

namespace CommandLink.Quoted

theorem hexDigit?_digitChar {d : Nat} (h : d < 16) :
    hexDigit? (Hex.digitChar .lower d) = some d := by
  obtain ⟨hlt, hdigit⟩ := Hex.toNat_digitChar .lower h
  rw [hexDigit?, if_pos hlt, hdigit]

/-- What is read for a character: control characters without a letter of their own come as codes. -/
def unitOf (c : Char) : TextUnit :=
  if c ∈ ['\x08', '\t', '\n', '\x0c', '\r'] ∨ 32 ≤ c.toNat then .char c else .code c.toNat

/-- A code of four digits is read back. -/
theorem hexCode?_digits {n : Nat} (h : n < 16 ^ 4) :
    hexCode? (Hex.digitChar .lower (n / 16 / 16 / 16 % 16))
      (Hex.digitChar .lower (n / 16 / 16 % 16)) (Hex.digitChar .lower (n / 16 % 16))
      (Hex.digitChar .lower (n % 16)) = some n := by
  unfold hexCode?
  simp only [hexDigit?_digitChar (Nat.mod_lt _ (by decide : 16 > 0)), Option.some.injEq]
  omega

/-- **A character is read as one unit**, whatever it is written as. -/
theorem scan_encodeChar (c : Char) (text : List Char) (done : List TextUnit) :
    scan (encodeChar c ++ text) done = scan text (unitOf c :: done) := by
  by_cases hletter : c ∈ ['"', '\\', '\x08', '\t', '\n', '\x0c', '\r']
  · simp only [List.mem_cons, List.not_mem_nil, or_false] at hletter
    obtain rfl | rfl | rfl | rfl | rfl | rfl | rfl := hletter <;> rfl
  simp only [List.mem_cons, List.not_mem_nil, or_false, not_or] at hletter
  obtain ⟨hquote, hbackslash, hb, ht, hn, hf, hr⟩ := hletter
  unfold encodeChar
  simp only [hquote, hbackslash, hb, ht, hn, hf, hr, if_false]
  split
  · -- A control character without a letter: its code.
    rename_i hcontrol
    have hunit : unitOf c = .code c.toNat := by
      unfold unitOf
      rw [if_neg]
      simp only [List.mem_cons, List.not_mem_nil, hb, ht, hn, hf, hr, or_false, false_or]
      omega
    have hcode := hexCode?_digits (Nat.lt_trans hcontrol (by decide))
    simp only [Hex.paddedOnto, List.cons_append, List.nil_append]
    rw [scan, if_neg (by decide), if_pos rfl]
    simp only [hcode, hunit]
  · rename_i hcontrol
    have hunit : unitOf c = .char c := if_pos (.inr (by omega))
    rw [hunit, List.singleton_append, scan.eq_def]
    simp only [if_neg hquote, if_neg hbackslash, if_neg hcontrol]

/-- **An encoded text is read up to its closing quote.** -/
theorem scan_encode (text rest : List Char) (done : List TextUnit) :
    scan (encode text ++ '"' :: rest) done = some (done.reverse ++ text.map unitOf, rest) := by
  induction text generalizing done with
  | nil =>
    rw [encode, List.flatMap_nil, List.nil_append, scan.eq_def]
    simp
  | cons c text ih =>
    have hcons : encode (c :: text) = encodeChar c ++ encode text := rfl
    rw [hcons, List.append_assoc, scan_encodeChar, ih]
    simp

/-- **The units of a text make up the text.** -/
theorem assemble_units (text done : List Char) :
    assemble (text.map unitOf) done = some (done.reverse ++ text) := by
  induction text generalizing done with
  | nil => simp [assemble]
  | cons c text ih =>
    rw [List.map_cons, unitOf]
    split
    · rw [assemble, ih]
      simp
    · have hsmall : c.toNat < 0xD800 := by omega
      rw [assemble.eq_def]
      simp only [if_pos (Or.inl hsmall), Char.ofNat_toNat]
      rw [ih]
      simp

end CommandLink.Quoted
