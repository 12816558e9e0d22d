import CommandLink.Json.Token
import CommandLink.Proofs.Decimal.Digits
import CommandLink.Proofs.Json.Quoted

/-!
# Tokens are read back

* `scanNumber?_chars`: a written number is read as the same numeral, not only as one of its value, up
  to a comma, a closing bracket or the end (`Delimits`).
* `scan?_chars`: every token that has a written form is read back from the front of a text. Only a
  number needs to be told from what follows it.
-/

namespace CommandLink

/-- A text that ends what stands before it: it is over, or goes on with a comma or a closing bracket. -/
def Delimits (text : List Char) : Prop := ∀ c ∈ text.head?, c = ',' ∨ c = ']' ∨ c = '\x7d'

theorem delimits_nil : Delimits [] := by
  intro c hc
  cases hc

theorem delimits_cons {c : Char} (h : c = ',' ∨ c = ']' ∨ c = '\x7d') (text : List Char) :
    Delimits (c :: text) := by
  intro c' hc
  obtain rfl := Option.some.inj hc
  exact h

namespace Numeral

/-! ## The parts of a written number -/

/-- The point and what is behind it, if there is anything. -/
def fractionChars (fraction : List Digit) : List Char :=
  if fraction.isEmpty then [] else '.' :: fraction.map Digit.char

/-- The exponent, if there is one. -/
def exponentPart (exponent : Option Int) : List Char :=
  match exponent with
  | none => []
  | some e => exponentChars e

theorem chars_eq (n : Numeral) (rest : List Char) : n.chars ++ rest =
    (if n.negative then ['-'] else []) ++
      (natChars n.whole ++ (fractionChars n.fraction ++ (exponentPart n.exponent ++ rest))) := by
  have hparts : n.chars = (if n.negative then ['-'] else []) ++ natChars n.whole ++
      fractionChars n.fraction ++ exponentPart n.exponent := rfl
  rw [hparts, List.append_assoc, List.append_assoc, List.append_assoc]

/-- A written natural number starts with a digit. -/
theorem exists_natChars (n : Nat) : ∃ (d : Digit) (text : List Char),
    natChars n = d.char :: text := by
  obtain ⟨d, digits, hdigits⟩ := List.exists_cons_of_ne_nil (Digits.ofNat_ne_nil n)
  exact ⟨d, digits.map Digit.char, by rw [natChars, hdigits, List.map_cons]⟩

/-- A digit is none of the characters that mean something else in a number or in JSON text. -/
theorem char_ne (d : Digit) : d.char ∉ ['-', '+', '.', 'e', 'E', '[', ']', '\x7b', '\x7d', ',', ':',
    '"', 'n', 't', 'f', ' ', '\t', '\n', '\r'] := by
  have table : ∀ d : Digit, d.char ∉ ['-', '+', '.', 'e', 'E', '[', ']', '\x7b', '\x7d', ',', ':',
      '"', 'n', 't', 'f', ' ', '\t', '\n', '\r'] := by decide
  exact table d

/-! ## The parts are read back -/

theorem ends_of_delimits {rest : List Char} (h : Delimits rest) : Digits.Ends rest := by
  intro c hc
  obtain rfl | rfl | rfl := h c hc <;> decide

theorem ends_exponentPart (exponent : Option Int) {rest : List Char} (h : Delimits rest) :
    Digits.Ends (exponentPart exponent ++ rest) := by
  cases exponent with
  | none => exact ends_of_delimits h
  | some e =>
    intro c hc
    obtain rfl := Option.some.inj hc
    decide

theorem ends_fractionChars (fraction : List Digit) {text : List Char} (h : Digits.Ends text) :
    Digits.Ends (fractionChars fraction ++ text) := by
  cases fraction with
  | nil => exact h
  | cons d fraction =>
    intro c hc
    obtain rfl := Option.some.inj hc
    decide

theorem scanSigned?_chars (e : Int) {rest : List Char} (h : Digits.Ends rest) :
    scanSigned? ((if e < 0 then '-' else '+') :: natChars e.natAbs ++ rest) = some (e, rest) := by
  have hscan : Digits.scan (natChars e.natAbs ++ rest) = (Digits.ofNat e.natAbs, rest) :=
    Digits.scan_chars _ h
  have hnonempty : (Digits.ofNat e.natAbs).isEmpty = false :=
    List.isEmpty_eq_false_iff.mpr (Digits.ofNat_ne_nil _)
  have hminus (text : List Char) : scanSign ('-' :: text) = (true, text) := rfl
  have hplus (text : List Char) : scanSign ('+' :: text) = (false, text) := rfl
  unfold scanSigned?
  by_cases hsign : e < 0
  · have hvalue : -(e.natAbs : Int) = e := by omega
    simp only [if_pos hsign, List.cons_append, hminus, hscan, hnonempty, Digits.toNat_ofNat, hvalue,
      if_true, Bool.false_eq_true, if_false]
  · have hvalue : (e.natAbs : Int) = e := by omega
    simp only [if_neg hsign, List.cons_append, hplus, hscan, hnonempty, Digits.toNat_ofNat, hvalue,
      Bool.false_eq_true, if_false]

theorem scanExponent?_chars (exponent : Option Int) {rest : List Char} (h : Delimits rest) :
    scanExponent? (exponentPart exponent ++ rest) = some (exponent, rest) := by
  cases exponent with
  | none =>
    cases rest with
    | nil => rfl
    | cons c rest =>
      have hc : ¬(c = 'e' ∨ c = 'E') := by
        obtain rfl | rfl | rfl := h c rfl <;> decide
      exact if_neg hc
  | some e =>
    have hsigned := scanSigned?_chars e (ends_of_delimits h)
    unfold exponentPart exponentChars
    rw [List.cons_append, scanExponent?, if_pos (.inl rfl), hsigned]
    rfl

end Numeral

namespace Token

open Numeral

theorem scanFraction?_chars (fraction : List Digit) {text : List Char} (h : Digits.Ends text)
    (hpoint : text.head? ≠ some '.') :
    scanFraction? (fractionChars fraction ++ text) = some (fraction, text) := by
  cases fraction with
  | nil =>
    have hempty : fractionChars [] = [] := rfl
    rw [hempty, List.nil_append, scanFraction?.eq_def]
    split
    · exact absurd rfl hpoint
    · rfl
  | cons d fraction =>
    have hchars : fractionChars (d :: fraction) = '.' :: (d :: fraction).map Digit.char := rfl
    rw [hchars, List.cons_append, scanFraction?, Digits.scan_chars _ h]
    rfl

/-- A number has no needless zero in front. -/
theorem isWhole_ofNat (n : Nat) : isWhole (Digits.ofNat n) = true := by
  by_cases h : n = 0
  · rw [h, Digits.ofNat_of_lt (by decide)]
    rfl
  · obtain ⟨d, hd, h0⟩ := Digits.head?_ofNat h
    cases hdigits : Digits.ofNat n with
    | nil => exact absurd hdigits (Digits.ofNat_ne_nil n)
    | cons first digits =>
      rw [hdigits] at hd
      obtain rfl := Option.some.inj hd
      cases digits with
      | nil => rfl
      | cons => exact bne_iff_ne.mpr fun heq => h0 (congrArg Fin.val heq)

theorem scanMinus_chars (n : Numeral) (rest : List Char) : scanMinus (n.chars ++ rest) =
    (n.negative,
      natChars n.whole ++ (fractionChars n.fraction ++ (exponentPart n.exponent ++ rest))) := by
  rw [chars_eq]
  cases n.negative with
  | true => rfl
  | false =>
    obtain ⟨d, text, hfirst⟩ := exists_natChars n.whole
    have hd := char_ne d
    rw [hfirst]
    simp only [Bool.false_eq_true, if_false, List.nil_append, List.cons_append]
    rw [scanMinus.eq_def]
    split
    · rename_i heq
      rw [(List.cons.inj heq).1] at hd
      exact absurd (by decide) hd
    · rfl

/-- **A written number is read as the same numeral.** -/
theorem scanNumber?_chars (n : Numeral) {rest : List Char} (h : Delimits rest) :
    scanNumber? (n.chars ++ rest) = some (n, rest) := by
  have hexponent := ends_exponentPart n.exponent h
  have hpoint : (exponentPart n.exponent ++ rest).head? ≠ some '.' := by
    intro hhead
    cases hn : n.exponent with
    | none =>
      rw [hn] at hhead
      obtain hc | hc | hc := h '.' hhead <;> revert hc <;> decide
    | some e =>
      rw [hn] at hhead
      exact absurd (Option.some.inj hhead) (by decide)
  have hdigits : Digits.scan (natChars n.whole ++
      (fractionChars n.fraction ++ (exponentPart n.exponent ++ rest))) =
        (Digits.ofNat n.whole, fractionChars n.fraction ++ (exponentPart n.exponent ++ rest)) :=
    Digits.scan_chars _ (ends_fractionChars _ hexponent)
  unfold scanNumber?
  simp only [scanMinus_chars, hdigits, isWhole_ofNat, if_true, scanFraction?_chars _ hexponent hpoint,
    scanExponent?_chars _ h, Digits.toNat_ofNat]

/-! ## Tokens -/

/-- The first character of a number starts no other token. -/
theorem exists_chars (n : Numeral) (rest : List Char) : ∃ c text, n.chars ++ rest = c :: text ∧
    c ∉ ['[', ']', '\x7b', '\x7d', ',', ':', '"', 'n', 't', 'f', ' ', '\t', '\n', '\r'] := by
  rw [chars_eq]
  cases n.negative with
  | true => exact ⟨'-', _, rfl, by decide⟩
  | false =>
    obtain ⟨d, text, hfirst⟩ := exists_natChars n.whole
    have hfewer : ['[', ']', '\x7b', '\x7d', ',', ':', '"', 'n', 't', 'f', ' ', '\t', '\n', '\r'] ⊆
        ['-', '+', '.', 'e', 'E', '[', ']', '\x7b', '\x7d', ',', ':', '"', 'n', 't', 'f', ' ', '\t',
          '\n', '\r'] := by decide
    rw [hfirst]
    exact ⟨d.char, _, rfl, fun hmem => char_ne d (hfewer hmem)⟩

theorem scan?_number (n : Numeral) {rest : List Char} (h : Delimits rest) :
    scan? (n.chars ++ rest) = some (number n, rest) := by
  have hnumber := scanNumber?_chars n h
  obtain ⟨c, text, hchars, hc⟩ := exists_chars n rest
  rw [hchars] at hnumber ⊢
  have hscan : scan? (c :: text) = (scanNumber? (c :: text)).map fun p => (number p.1, p.2) := by
    rw [scan?.eq_def]
    split <;> first
      | rfl
      | (rename_i heq
         rw [(List.cons.inj heq).1] at hc
         exact absurd (by decide) hc)
  rw [hscan, hnumber]
  rfl

/-- The token has a written form. -/
def IsWritten : Token → Prop
  | string none => False
  | _ => True

/-- **A written token is read back.** What follows a number has to end it. -/
theorem scan?_chars {token : Token} {rest : List Char} (hwritten : token.IsWritten)
    (hrest : ∀ n, token = number n → Delimits rest) :
    scan? (token.chars ++ rest) = some (token, rest) := by
  cases token with
  | number n => exact scan?_number n (hrest n rfl)
  | bool b => cases b <;> rfl
  | string text =>
    cases text with
    | none => exact hwritten.elim
    | some text =>
      have hscan := Quoted.scan_encode text.toList rest []
      have htext := Quoted.assemble_units text.toList []
      rw [List.reverse_nil, List.nil_append] at hscan htext
      have hchars : (string (some text)).chars ++ rest =
          '"' :: (Quoted.encode text.toList ++ '"' :: rest) := by
        simp [chars]
      rw [hchars]
      show scanString? (Quoted.encode text.toList ++ '"' :: rest) = _
      rw [scanString?, hscan]
      simp only [htext, Option.map_some, String.ofList_toList]
  | _ => rfl

/-- A written token starts with a character that is no white space. -/
theorem dropWhile_chars {token : Token} (rest : List Char) (hwritten : token.IsWritten) :
    token.chars ++ rest ≠ [] ∧
      (token.chars ++ rest).dropWhile isBlank = token.chars ++ rest := by
  have hfirst : ∃ c text, token.chars ++ rest = c :: text ∧ isBlank c = false := by
    cases token with
    | number n =>
      obtain ⟨c, text, hchars, hc⟩ := exists_chars n rest
      refine ⟨c, text, hchars, ?_⟩
      rw [isBlank]
      simp only [List.mem_cons, List.not_mem_nil, not_or] at hc
      simp [hc]
    | bool b => cases b <;> exact ⟨_, _, rfl, rfl⟩
    | string text =>
      cases text with
      | none => exact hwritten.elim
      | some text => exact ⟨_, _, rfl, rfl⟩
    | _ => exact ⟨_, _, rfl, rfl⟩
  obtain ⟨c, text, hchars, hc⟩ := hfirst
  rw [hchars, List.dropWhile_cons, hc]
  exact ⟨List.cons_ne_nil _ _, rfl⟩

end Token

end CommandLink
