import CommandLink.Checksum
import Mathlib.Logic.Function.Iterate

/-!
# What the checksum sees

Dividing a bit out of the register is linear (`shiftBit_xor`), and as the top bit of the polynomial
is set, a register that is small afterwards was twice that before (`toNat_of_shiftBit_lt`). So no
difference between two registers is lost, and one that comes from fewer than five bytes cannot
cancel itself.

* `run_injective`: equal bytes take different registers to different registers.
* `AgreeOutside.compute_ne`: byte strings of one length that differ within four consecutive bytes
  and nowhere else have different checksums.
-/

namespace CommandLink.Checksum

/-! ## One bit -/

theorem lowBit_iff (register : UInt32) : register &&& 1 = 1 ↔ register.toNat % 2 = 1 := by
  rw [← UInt32.toNat_inj, UInt32.toNat_and]
  exact Eq.congr_left (Nat.and_one_is_mod _)

theorem xor_cancel (a b p : UInt32) : a ^^^ p ^^^ (b ^^^ p) = a ^^^ b := by
  rw [UInt32.xor_assoc, UInt32.xor_comm b p, ← UInt32.xor_assoc p, UInt32.xor_self, UInt32.zero_xor]

/-- Dividing a bit out is linear. -/
theorem shiftBit_xor (a b : UInt32) : shiftBit (a ^^^ b) = shiftBit a ^^^ shiftBit b := by
  have hlow : (a ^^^ b) &&& 1 = 1 ↔ ¬(a &&& 1 = 1 ↔ b &&& 1 = 1) := by
    rw [lowBit_iff, lowBit_iff, lowBit_iff, UInt32.toNat_xor]
    exact Nat.xor_mod_two_eq_one
  unfold shiftBit
  rw [UInt32.shiftRight_xor]
  by_cases ha : a &&& 1 = 1 <;> by_cases hb : b &&& 1 = 1
  · rw [if_neg (by rw [hlow]; simp [ha, hb]), if_pos ha, if_pos hb, xor_cancel]
  · rw [if_pos (by rw [hlow]; simp [ha, hb]), if_pos ha, if_neg hb, UInt32.xor_assoc,
      UInt32.xor_comm (b >>> 1), ← UInt32.xor_assoc]
  · rw [if_pos (by rw [hlow]; simp [ha, hb]), if_neg ha, if_pos hb, UInt32.xor_assoc]
  · rw [if_neg (by rw [hlow]; simp [ha, hb]), if_neg ha, if_neg hb]

/-- **A register whose top bit is clear after a step was twice as large before.** -/
theorem toNat_of_shiftBit_lt {a : UInt32} (h : (shiftBit a).toNat < 2 ^ 31) :
    a.toNat = 2 * (shiftBit a).toNat := by
  have hhalf : (a >>> 1).toNat = a.toNat / 2 := by
    rw [UInt32.toNat_shiftRight]
    exact Nat.shiftRight_eq_div_pow _ 1
  by_cases hodd : a &&& 1 = 1
  · -- the polynomial sets the top bit, which the shifted register has clear
    exfalso
    have ha := a.toNat_lt
    have htop : (shiftBit a).toNat.testBit 31 = true := by
      unfold shiftBit
      rw [if_pos hodd, UInt32.toNat_xor, Nat.testBit_xor, Nat.testBit_lt_two_pow (by omega)]
      decide
    have := Nat.ge_two_pow_of_testBit htop
    omega
  · have hshift : shiftBit a = a >>> 1 := if_neg hodd
    rw [lowBit_iff] at hodd
    rw [hshift, hhalf]
    omega

/-! ## One byte -/

theorem step_eq (register : UInt32) (byte : UInt8) :
    step register byte = shiftBit^[8] (register ^^^ byte.toUInt32) := rfl

theorem iterate_shiftBit_xor (n : Nat) (a b : UInt32) :
    shiftBit^[n] (a ^^^ b) = shiftBit^[n] a ^^^ shiftBit^[n] b := by
  induction n generalizing a b with
  | zero => rfl
  | succ n ih =>
    rw [Function.iterate_succ_apply, Function.iterate_succ_apply, Function.iterate_succ_apply,
      shiftBit_xor, ih]

/-- A register that is small after some steps was larger before by their power of two. -/
theorem toNat_of_iterate_lt {n : Nat} {a : UInt32} (hn : n ≤ 31)
    (h : (shiftBit^[n] a).toNat < 2 ^ (32 - n)) : a.toNat = 2 ^ n * (shiftBit^[n] a).toNat := by
  induction n generalizing a with
  | zero => rw [Function.iterate_zero_apply, Nat.pow_zero, Nat.one_mul]
  | succ n ih =>
    rw [Function.iterate_succ_apply] at h ⊢
    have hpow : 2 ^ (32 - n) = 2 * 2 ^ (32 - (n + 1)) := by
      rw [← Nat.pow_succ']
      congr 1
      omega
    have hstep := ih (a := shiftBit a) (by omega) (by omega)
    have htop : (shiftBit a).toNat < 2 ^ 31 := by
      have hlt := Nat.mul_lt_mul_of_pos_left h (Nat.two_pow_pos n)
      rw [← Nat.pow_add, ← hstep] at hlt
      rwa [show n + (32 - (n + 1)) = 31 by omega] at hlt
    rw [toNat_of_shiftBit_lt htop, hstep, Nat.pow_succ', Nat.mul_assoc]

/-- The difference of two registers after a byte each. -/
theorem step_xor_step (a b : UInt32) (x y : UInt8) :
    step a x ^^^ step b y = shiftBit^[8] ((a ^^^ b) ^^^ (x ^^^ y).toUInt32) := by
  rw [step_eq, step_eq, ← iterate_shiftBit_xor, UInt8.toUInt32_xor]
  congr 1
  rw [UInt32.xor_assoc, UInt32.xor_assoc, ← UInt32.xor_assoc x.toUInt32,
    UInt32.xor_comm x.toUInt32 b, UInt32.xor_assoc b]

/-- **A small difference after a byte is the difference before it, eight places up.** -/
theorem toNat_xor_of_step_lt {a b : UInt32} {x y : UInt8}
    (h : (step a x ^^^ step b y).toNat < 2 ^ 24) :
    ((a ^^^ b) ^^^ (x ^^^ y).toUInt32).toNat = 256 * (step a x ^^^ step b y).toNat := by
  rw [step_xor_step] at h ⊢
  exact toNat_of_iterate_lt (by decide) h

/-- Taking a byte out of a difference that ends in it leaves one of as many bytes. -/
theorem toNat_lt_of_xor {d e : UInt32} {n k : Nat} (he : e.toNat < 256)
    (hd : (d ^^^ e).toNat = 256 * n) (hn : n < 256 ^ k) : d.toNat < 256 ^ (k + 1) := by
  have hbits : 256 ^ (k + 1) = 2 ^ (8 * (k + 1)) := by rw [Nat.pow_mul]
  have hpos : 0 < 256 ^ k := Nat.pow_pos (by decide)
  have hback : d = (d ^^^ e) ^^^ e := by rw [UInt32.xor_assoc, UInt32.xor_self, UInt32.xor_zero]
  rw [hback, UInt32.toNat_xor, hbits]
  refine Nat.xor_lt_two_pow ?_ ?_
  · rw [hd, ← hbits, Nat.pow_succ']
    omega
  · rw [← hbits, Nat.pow_succ']
    omega

theorem step_injective {a b : UInt32} {x : UInt8} (h : step a x = step b x) : a = b := by
  have hzero : (step a x ^^^ step b x).toNat = 0 := by
    rw [h, UInt32.xor_self]
    rfl
  have hbefore : (a ^^^ b ^^^ (x ^^^ x).toUInt32).toNat = 0 := by
    rw [toNat_xor_of_step_lt (by rw [hzero]; decide), hzero]
  rw [UInt8.xor_self, show UInt8.toUInt32 0 = 0 from rfl, UInt32.xor_zero] at hbefore
  exact UInt32.xor_eq_zero_iff.mp (UInt32.toNat_inj.mp hbefore)

/-! ## Byte strings -/

/-- **Equal bytes take different registers to different registers.** -/
theorem run_injective {bytes : Bytes} {a b : UInt32} (h : run a bytes = run b bytes) : a = b := by
  induction bytes generalizing a b with
  | nil => exact h
  | cons x bytes ih => exact step_injective (ih h)

/-- Up to four bytes each that lead two registers to the same one tell how far apart these are, and
none of them differ if the registers do not. -/
theorem eq_of_run_eq {a b : UInt32} {front back : Bytes} (hlen : front.length = back.length)
    (hshort : front.length ≤ 4) (h : run a front = run b back) :
    (a ^^^ b).toNat < 256 ^ front.length ∧ (a = b → front = back) := by
  induction front generalizing a b back with
  | nil =>
    obtain rfl : a = b := by
      rw [List.eq_nil_of_length_eq_zero hlen.symm] at h
      exact h
    refine ⟨?_, fun _ => (List.eq_nil_of_length_eq_zero hlen.symm).symm⟩
    rw [UInt32.xor_self]
    decide
  | cons x front ih =>
    cases back with
    | nil => cases hlen
    | cons y back =>
      rw [List.length_cons] at hshort ⊢
      obtain ⟨hnear, hsame⟩ := ih (Nat.succ.inj hlen) (by omega) h
      have hpow : 256 ^ front.length ≤ 2 ^ 24 :=
        Nat.pow_le_pow_right (by decide) (by omega : front.length ≤ 3)
      have hbefore := toNat_xor_of_step_lt (Nat.lt_of_lt_of_le hnear hpow)
      have hbyte : (x ^^^ y).toUInt32.toNat < 256 := (x ^^^ y).toNat_lt
      refine ⟨toNat_lt_of_xor hbyte hbefore hnear, ?_⟩
      rintro rfl
      rw [UInt32.xor_self, UInt32.zero_xor] at hbefore
      have hzero : (x ^^^ y).toUInt32.toNat = 0 := by omega
      obtain rfl : x = y := UInt8.xor_eq_zero_iff.mp (UInt8.toNat_inj.mp hzero)
      rw [hsame rfl]

/-- A burst between equal bytes is seen. -/
theorem compute_ne_of_burst {front burst burst' back : Bytes} (hlen : burst.length = burst'.length)
    (hshort : burst.length ≤ 4) (hne : burst ≠ burst') :
    compute (front ++ burst ++ back) ≠ compute (front ++ burst' ++ back) := by
  intro h
  unfold compute at h
  have hrun := (UInt32.xor_left_inj _).mp h
  rw [run_append, run_append, run_append, run_append] at hrun
  exact hne ((eq_of_run_eq hlen hshort (run_injective hrun)).2 rfl)

/-! ## Byte strings that agree outside a window -/

/-- The byte strings are equally long and agree but for `width` positions from `start` on. -/
structure AgreeOutside (start width : Nat) (a b : Bytes) : Prop where
  length : a.length = b.length
  outside : ∀ i, i < start ∨ start + width ≤ i → a[i]? = b[i]?

namespace AgreeOutside

variable {start width : Nat} {a b : Bytes} (h : AgreeOutside start width a b)

include h in
theorem take_eq {n : Nat} (hn : n ≤ start) : a.take n = b.take n := by
  refine List.ext_getElem? fun i => ?_
  rw [List.getElem?_take, List.getElem?_take]
  by_cases hi : i < n
  · rw [if_pos hi, if_pos hi, h.outside i (.inl (Nat.lt_of_lt_of_le hi hn))]
  · rw [if_neg hi, if_neg hi]

include h in
theorem drop_eq {n : Nat} (hn : start + width ≤ n) : a.drop n = b.drop n := by
  refine List.ext_getElem? fun i => ?_
  rw [List.getElem?_drop, List.getElem?_drop, h.outside (n + i) (.inr (by omega))]

include h in
theorem take (n : Nat) : AgreeOutside start width (a.take n) (b.take n) := by
  refine ⟨by rw [List.length_take, List.length_take, h.length], fun i hi => ?_⟩
  rw [List.getElem?_take, List.getElem?_take, h.outside i hi]

include h in
/-- A wider window is left alone as well. -/
theorem widen {start' width' : Nat} (hlow : start' ≤ start)
    (hhigh : start + width ≤ start' + width') : AgreeOutside start' width' a b :=
  ⟨h.length, fun i hi => h.outside i (by omega)⟩

include h in
/-- **A burst is seen wherever it stands.** -/
theorem compute_ne (hshort : width ≤ 4) (hne : a ≠ b) : compute a ≠ compute b := by
  have hsplit (bytes : Bytes) :
      bytes = bytes.take start ++ (bytes.drop start).take width ++ bytes.drop (start + width) := by
    rw [← List.drop_drop, List.append_assoc, List.take_append_drop, List.take_append_drop]
  have hfront := h.take_eq (Nat.le_refl start)
  have hback := h.drop_eq (Nat.le_refl (start + width))
  have hlen : ((a.drop start).take width).length = ((b.drop start).take width).length := by
    rw [List.length_take, List.length_take, List.length_drop, List.length_drop, h.length]
  rw [hsplit a, hsplit b, hfront, hback]
  refine compute_ne_of_burst hlen (by rw [List.length_take]; omega) fun hburst => hne ?_
  rw [hsplit a, hsplit b, hfront, hback, hburst]

end AgreeOutside

end CommandLink.Checksum
