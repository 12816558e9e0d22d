import CommandLink.Decimal.Scan
import CommandLink.Float.Format

/-!
# Digits are read back

* `toNat_ofNat`: the digits of a number stand for it.
* `foldl_padded`: so do its last digits in a fixed number of places, behind any digits before them.
* `pow_le_of_ofNat`, `lt_pow_of_ofNat`: a number with so many digits lies between two powers of ten.
* `scan_chars`: written digits are scanned up to the first character that is no digit.
-/

namespace CommandLink

namespace Digits

/-! ## The digits of a number -/

/-- Digits read after `n` are the places below it. -/
theorem foldl_eq (digits : List Digit) (n : Nat) :
    digits.foldl (fun n d => n * 10 + d.val) n = n * 10 ^ digits.length + toNat digits := by
  induction digits generalizing n with
  | nil => simp [toNat]
  | cons d digits ih =>
    simp only [toNat, List.foldl_cons, List.length_cons, Nat.zero_mul, Nat.zero_add] at ih ⊢
    rw [ih, ih d.val, Nat.add_mul, Nat.pow_succ, Nat.mul_comm (10 ^ digits.length) 10,
      ← Nat.mul_assoc, Nat.add_assoc]

theorem toNat_concat (digits : List Digit) (d : Digit) :
    toNat (digits ++ [d]) = toNat digits * 10 + d.val := by
  simp [toNat]

theorem onto_eq (n : Nat) (rest : List Digit) : onto n rest = ofNat n ++ rest := by
  unfold ofNat
  induction n using Nat.strongRecOn generalizing rest with
  | ind n ih =>
    by_cases h : n < 10
    · rw [onto, dif_pos h, onto, dif_pos h]
      rfl
    · have hlt : n / 10 < n := Nat.div_lt_self (by omega) (by decide)
      rw [onto, dif_neg h, ih _ hlt, onto.eq_def n [], dif_neg h, ih _ hlt [_]]
      simp

theorem ofNat_of_lt {n : Nat} (h : n < 10) : ofNat n = [⟨n, h⟩] := by
  rw [ofNat, onto, dif_pos h]

/-- A number of more than one digit ends in its remainder by ten. -/
theorem ofNat_of_le {n : Nat} (h : 10 ≤ n) :
    ofNat n = ofNat (n / 10) ++ [⟨n % 10, Nat.mod_lt _ (by decide)⟩] := by
  rw [ofNat, onto, dif_neg (by omega), onto_eq]

theorem ofNat_ne_nil (n : Nat) : ofNat n ≠ [] := by
  rcases Nat.lt_or_ge n 10 with h | h
  · simp [ofNat_of_lt h]
  · simp [ofNat_of_le h]

/-- **A number is read back from its digits.** -/
theorem toNat_ofNat (n : Nat) : toNat (ofNat n) = n := by
  induction n using Nat.strongRecOn with
  | ind n ih =>
    rcases Nat.lt_or_ge n 10 with h | h
    · simp [ofNat_of_lt h, toNat]
    · have hdm := Nat.div_add_mod n 10
      rw [ofNat_of_le h, toNat_concat, ih _ (Nat.div_lt_self (by omega) (by decide))]
      simp only
      omega

/-- The first digit of a number other than zero is no zero. -/
theorem head?_ofNat {n : Nat} (h : n ≠ 0) : ∃ d, (ofNat n).head? = some d ∧ d.val ≠ 0 := by
  induction n using Nat.strongRecOn with
  | ind n ih =>
    rcases Nat.lt_or_ge n 10 with hlt | hle
    · exact ⟨⟨n, hlt⟩, by simp [ofNat_of_lt hlt], h⟩
    · obtain ⟨d, hd, h0⟩ := ih (n / 10) (Nat.div_lt_self (by omega) (by decide)) (by omega)
      refine ⟨d, ?_, h0⟩
      rw [ofNat_of_le hle, List.head?_append, hd, Option.some_or]

/-! ## How many digits there are -/

theorem lt_pow_of_ofNat (n : Nat) : n < 10 ^ (ofNat n).length := by
  induction n using Nat.strongRecOn with
  | ind n ih =>
    rcases Nat.lt_or_ge n 10 with h | h
    · simpa [ofNat_of_lt h] using h
    · have hfront := ih (n / 10) (Nat.div_lt_self (by omega) (by decide))
      rw [ofNat_of_le h, List.length_append, List.length_singleton, Nat.pow_succ]
      omega

theorem pow_le_of_ofNat {n : Nat} (h : n ≠ 0) : 10 ^ ((ofNat n).length - 1) ≤ n := by
  induction n using Nat.strongRecOn with
  | ind n ih =>
    rcases Nat.lt_or_ge n 10 with hlt | hle
    · simp only [ofNat_of_lt hlt, List.length_singleton, Nat.sub_self, Nat.pow_zero]
      omega
    · have hfront := ih (n / 10) (Nat.div_lt_self (by omega) (by decide)) (by omega)
      have hpos := List.length_pos_iff.mpr (ofNat_ne_nil (n / 10))
      rw [ofNat_of_le hle, List.length_append, List.length_singleton, Nat.add_sub_cancel]
      have hpow : 10 ^ (ofNat (n / 10)).length = 10 ^ ((ofNat (n / 10)).length - 1) * 10 := by
        rw [← Nat.pow_succ, Nat.succ_eq_add_one, Nat.sub_add_cancel hpos]
      omega

/-! ## Digits in a fixed number of places -/

theorem paddedOnto_eq (count n : Nat) (rest : List Digit) :
    paddedOnto count n rest = padded count n ++ rest := by
  unfold padded
  induction count generalizing n rest with
  | zero => rfl
  | succ count ih =>
    rw [paddedOnto, ih, paddedOnto, ih _ [_]]
    simp

theorem padded_succ (count n : Nat) :
    padded (count + 1) n = padded count (n / 10) ++ [⟨n % 10, Nat.mod_lt _ (by decide)⟩] := by
  rw [padded, paddedOnto, paddedOnto_eq]

@[simp] theorem length_padded (count n : Nat) : (padded count n).length = count := by
  induction count generalizing n with
  | zero => rfl
  | succ count ih => simp [padded_succ, ih]

theorem toNat_padded (count n : Nat) : toNat (padded count n) = n % 10 ^ count := by
  induction count generalizing n with
  | zero => simp [padded, paddedOnto, toNat, Nat.mod_one]
  | succ count ih =>
    rw [padded_succ, toNat_concat, ih, Nat.pow_succ, Nat.mul_comm (10 ^ count), Nat.mod_mul]
    simp only
    omega

/-- **A number is read back from what is before its last digits and these.** -/
theorem foldl_padded (count n : Nat) :
    (padded count n).foldl (fun n d => n * 10 + d.val) (n / 10 ^ count) = n := by
  rw [foldl_eq, length_padded, toNat_padded, Nat.mul_comm]
  exact Nat.div_add_mod n _

/-! ## Written digits -/

theorem toNat_char (d : Digit) : d.char.toNat = 48 + d.val := by
  have : ∀ d : Digit, d.char.toNat = 48 + d.val := by decide
  exact this d

theorem ofChar?_char (d : Digit) : Digit.ofChar? d.char = some d := by
  have hd := d.isLt
  rw [Digit.ofChar?, dif_pos (by rw [toNat_char]; omega)]
  simp [toNat_char]

/-- A text that does not go on with a digit. -/
def Ends (text : List Char) : Prop := ∀ c ∈ text.head?, Digit.ofChar? c = none

/-- **Written digits are read up to what follows them.** -/
theorem scan_chars (digits : List Digit) {rest : List Char} (h : Ends rest) :
    scan (digits.map Digit.char ++ rest) = (digits, rest) := by
  have hall : ∀ c ∈ digits.map Digit.char, (Digit.ofChar? c).isSome = true := by
    simp [ofChar?_char]
  have hrest : rest.takeWhile (Digit.ofChar? · |>.isSome) = [] ∧
      rest.dropWhile (Digit.ofChar? · |>.isSome) = rest := by
    cases rest with
    | nil => exact ⟨rfl, rfl⟩
    | cons c rest => simp [h c rfl]
  have hread : (digits.map Digit.char).filterMap Digit.ofChar? = digits := by
    have hback : Digit.ofChar? ∘ Digit.char = some := funext ofChar?_char
    rw [List.filterMap_map, hback, List.filterMap_some]
  unfold scan
  rw [List.takeWhile_append_of_pos hall, List.dropWhile_append_of_pos hall, hrest.1, hrest.2,
    List.append_nil, hread]

end Digits

end CommandLink
