/-!
# Byte strings

Numbers travel as a fixed number of bytes, most significant first. `Bytes.ofNat` writes them and
`Bytes.toNat` reads them; `toNat_ofNat` and `ofNat_toNat` say that the two are inverse to each
other on numbers that fit and on byte strings of the given width.
-/

-- Powers of numbers are those of the core library, whatever else is imported.
attribute [instance (high), default_instance 20000] instPowNat

namespace CommandLink

/-- A byte string in the order of transmission. -/
abbrev Bytes := List UInt8

namespace Bytes

/-- The UTF-8 form of a text. -/
def ofString (text : String) : Bytes := text.toUTF8.data.toList

/-- The text with the given UTF-8 form. -/
def toString? (bytes : Bytes) : Option String := String.fromUTF8? ⟨bytes.toArray⟩

/-- The `width` big-endian bytes of `n`; what does not fit is dropped. -/
def ofNat : (width n : Nat) → Bytes
  | 0, _ => []
  | width + 1, n => UInt8.ofNat (n / 256 ^ width) :: ofNat width n

/-- The number with the given big-endian bytes. -/
def toNat (bytes : Bytes) : Nat :=
  bytes.foldl (fun n b => n * 256 + b.toNat) 0

@[simp] theorem length_ofNat (width n : Nat) : (ofNat width n).length = width := by
  induction width with
  | zero => rfl
  | succ width ih => simp [ofNat, ih]

/-- Bytes read after `n` are the digits below it. -/
theorem foldl_eq (bytes : Bytes) (n : Nat) :
    bytes.foldl (fun n b => n * 256 + b.toNat) n = n * 256 ^ bytes.length + toNat bytes := by
  induction bytes generalizing n with
  | nil => simp [toNat]
  | cons b bytes ih =>
    simp only [toNat, List.foldl_cons, List.length_cons, Nat.zero_mul, Nat.zero_add] at ih ⊢
    rw [ih, ih b.toNat, Nat.add_mul, Nat.pow_succ, Nat.mul_comm (256 ^ bytes.length) 256,
      ← Nat.mul_assoc, Nat.add_assoc]

theorem toNat_cons (b : UInt8) (bytes : Bytes) :
    toNat (b :: bytes) = b.toNat * 256 ^ bytes.length + toNat bytes := by
  simpa [toNat] using foldl_eq bytes b.toNat

theorem toNat_ofNat (width n : Nat) : toNat (ofNat width n) = n % 256 ^ width := by
  induction width with
  | zero => simp [ofNat, toNat, Nat.mod_one]
  | succ width ih =>
    have split : n % 256 ^ (width + 1) = n % 256 ^ width + 256 ^ width * (n / 256 ^ width % 256) := by
      rw [Nat.pow_succ, Nat.mod_mul]
    rw [ofNat, toNat_cons, length_ofNat, ih, UInt8.toNat_ofNat', split, Nat.mul_comm, Nat.add_comm]

theorem toNat_lt (bytes : Bytes) : toNat bytes < 256 ^ bytes.length := by
  induction bytes with
  | nil => simp [toNat]
  | cons b bytes ih =>
    have hb : b.toNat + 1 ≤ 256 := b.toNat_lt
    have := Nat.mul_le_mul_right (256 ^ bytes.length) hb
    rw [toNat_cons, List.length_cons, Nat.pow_succ, Nat.mul_comm (256 ^ bytes.length) 256]
    rw [Nat.add_mul] at this
    omega

theorem ofNat_mod (width n : Nat) : ofNat width (n % 256 ^ width) = ofNat width n := by
  suffices h : ∀ k, width ≤ k → ofNat width (n % 256 ^ k) = ofNat width n from h width (Nat.le_refl _)
  induction width with
  | zero => intro k _; rfl
  | succ width ih =>
    intro k hk
    rw [ofNat, ofNat, ih k (by omega)]
    congr 1
    apply UInt8.toNat_inj.1
    obtain ⟨j, rfl⟩ := Nat.exists_eq_add_of_le hk
    rw [UInt8.toNat_ofNat', UInt8.toNat_ofNat', Nat.add_assoc, Nat.pow_add, Nat.mod_mul_right_div_self,
      Nat.pow_add, Nat.pow_one]
    exact Nat.mod_mul_right_mod _ _ _

theorem ofNat_toNat (bytes : Bytes) : ofNat bytes.length (toNat bytes) = bytes := by
  induction bytes with
  | nil => rfl
  | cons b bytes ih =>
    have hlt := toNat_lt bytes
    have hpos : 0 < 256 ^ bytes.length := Nat.pow_pos (by decide)
    rw [List.length_cons, ofNat, toNat_cons]
    congr 1
    · rw [Nat.mul_comm, Nat.mul_add_div hpos, Nat.div_eq_of_lt hlt, Nat.add_zero, UInt8.ofNat_toNat]
    · rw [← ofNat_mod, Nat.mul_comm, Nat.mul_add_mod, Nat.mod_eq_of_lt hlt, ih]

end Bytes

end CommandLink
