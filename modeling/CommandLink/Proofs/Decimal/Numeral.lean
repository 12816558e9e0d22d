import CommandLink.Decimal.Numeral
import CommandLink.Proofs.Decimal.Nearest

/-!
# Numerals stand for what they are written for

* `toInt?_ofInt`: the numeral of an integer stands for that integer.
* `place_layout`: in every style a decimal is laid out as a numeral of its value.
* `round_numeral`: so the numeral of a finite number is read as that number, sign included, also when
  it is a zero.
* `toInt?_json`: in JSON style such a numeral is never one of an integer, as it has a point or an
  exponent.
-/

namespace CommandLink

namespace Numeral

/-- **The numeral of an integer stands for it.** -/
theorem toInt?_ofInt (n : Int) : (ofInt n).toInt? = some n := by
  have hzero : (decide (n < 0) && n.natAbs == 0) = false := by
    rw [Bool.and_eq_false_iff, decide_eq_false_iff_not, beq_eq_false_iff_ne]
    omega
  have hvalue : (if decide (n < 0) = true then -(n.natAbs : Int) else n.natAbs) = n := by
    split <;> rename_i h <;> rw [decide_eq_true_eq] at h <;> omega
  unfold ofInt toInt?
  simp only [hzero, hvalue, List.isEmpty_nil, Option.isNone_none, Bool.and_self, Bool.not_false,
    if_true]

end Numeral

namespace NumeralStyle

variable {F : FloatFormat}

theorem negative_layout (style : NumeralStyle) (negative : Bool) (d : Decimal) :
    (style.layout negative d).negative = negative := by
  unfold layout
  (repeat' split) <;> rfl

/-- **A decimal is laid out as a numeral of its value.** Only a whole number gets other digits: zeros
for its exponent and, where the style keeps the point, one more behind it. -/
theorem place_layout (hF : 2 ≤ F.exponentBits) (style : NumeralStyle) (negative : Bool)
    (d : Decimal) : Decimal.place F (style.layout negative d).toDecimal = Decimal.place F d := by
  obtain ⟨digits, exponent⟩ := d
  unfold layout Decimal.order
  simp only
  split
  · split
    · rename_i hwhole
      obtain ⟨count, rfl⟩ := Int.eq_ofNat_of_zero_le hwhole
      have hshift (further : Nat) := Decimal.place_shift hF digits count (count + further)
      cases style.keepsPoint with
      | true => simpa [Numeral.toDecimal, Nat.pow_succ, Nat.mul_assoc] using hshift 1
      | false => simpa [Numeral.toDecimal] using hshift 0
    · rename_i hnegative
      obtain ⟨places, rfl⟩ : ∃ places : Nat, exponent = -(places : Int) :=
        ⟨(-exponent).toNat, by omega⟩
      rw [Int.neg_neg, Int.toNat_natCast]
      simp [Numeral.toDecimal, Digits.foldl_padded]
  · have hlength := List.length_pos_iff.mpr (Digits.ofNat_ne_nil digits)
    have hexponent : ((Digits.ofNat digits).length : Int) + exponent - 1
        - ((Digits.ofNat digits).length - 1 : Nat) = exponent := by
      omega
    simp only [Numeral.toDecimal, Digits.foldl_padded, Option.getD_some, Digits.length_padded,
      hexponent]

/-- **The numeral of a finite number is read as that number.** -/
theorem round_numeral (hF : 2 ≤ F.exponentBits) (style : NumeralStyle) {x : Binary F}
    (h : x.isFinite = true) : (style.numeral x).round F = x := by
  obtain ⟨negative, magnitude, hlt⟩ := x
  have hplace := Decimal.place_shortest hF style.tie (of_decide_eq_true h)
  unfold Numeral.round Decimal.round numeral
  simp only [place_layout hF, hplace, negative_layout]

/-- **In JSON style a binary number never looks like an integer.** -/
theorem toInt?_json (negative : Bool) (d : Decimal) :
    ((json F).layout negative d).toInt? = none := by
  unfold layout Numeral.toInt?
  split
  · split
    · rfl
    · have hplaces : (Digits.padded (-d.exponent).toNat d.digits).isEmpty = false := by
        rw [List.isEmpty_eq_false_iff, ← List.length_pos_iff, Digits.length_padded]
        omega
      simp [hplaces]
  · simp

end NumeralStyle

end CommandLink
