import CommandLink.Proofs.Checksum.Burst

/-!
# The checksum as it is documented

Checks of 32 bits are documented by their parameters: the polynomial, the first register, whether
bytes and the last register are reflected, and what is added to the outcome (`Parameters.compute`).
`compute_eq_isoHdlc` says that the checksum of a packet, which works on a reflected register
throughout, is the check that is documented as CRC-32/ISO-HDLC.
-/

namespace CommandLink.Checksum

/-- The parameters of a check of 32 bits. -/
structure Parameters where
  polynomial : BitVec 32
  init : BitVec 32
  reflectIn : Bool
  reflectOut : Bool
  xorOut : BitVec 32

namespace Parameters

/-- One step of the division: the bit that leaves the register takes the polynomial with it. -/
def shift (p : Parameters) (register : BitVec 32) : BitVec 32 :=
  if register.msb then (register <<< 1) ^^^ p.polynomial else register <<< 1

/-- Takes one byte into the top of the register. -/
def step (p : Parameters) (register : BitVec 32) (byte : UInt8) : BitVec 32 :=
  let bits := if p.reflectIn then byte.toBitVec.reverse else byte.toBitVec
  p.shift^[8] (register ^^^ bits.setWidth 32 <<< 24)

/-- The check of a byte string. -/
def compute (p : Parameters) (bytes : Bytes) : BitVec 32 :=
  let register := bytes.foldl p.step p.init
  (if p.reflectOut then register.reverse else register) ^^^ p.xorOut

end Parameters

/-- CRC-32/ISO-HDLC. -/
def isoHdlc : Parameters := ⟨0x04C11DB7, 0xFFFFFFFF, true, true, 0xFFFFFFFF⟩

/-! ## Reflection -/

theorem reverse_polynomial : polynomial.toBitVec.reverse = isoHdlc.polynomial := by
  decide +kernel

theorem reverse_xor (a b : BitVec 32) : (a ^^^ b).reverse = a.reverse ^^^ b.reverse := by
  ext i hi
  simp only [BitVec.getElem_reverse, BitVec.getElem_xor, BitVec.getMsbD_xor]

theorem reverse_ushiftRight_one (a : BitVec 32) : (a >>> 1).reverse = a.reverse <<< 1 := by
  ext i hi
  rw [BitVec.getElem_reverse, BitVec.getElem_shiftLeft, BitVec.getMsbD_ushiftRight]
  by_cases h : i < 1
  · simp [h]
  · simp [h, hi, BitVec.getElem_reverse]

/-- A byte stands at the bottom of one register and, reflected, at the top of the other. -/
theorem reverse_setWidth (byte : BitVec 8) :
    (byte.setWidth 32).reverse = byte.reverse.setWidth 32 <<< 24 := by
  apply BitVec.eq_of_getLsbD_eq
  intro i hi
  rw [BitVec.getLsbD_reverse, BitVec.getMsbD_eq_getLsbD, BitVec.getLsbD_shiftLeft,
    BitVec.getLsbD_setWidth, BitVec.getLsbD_setWidth, BitVec.getLsbD_reverse,
    BitVec.getMsbD_eq_getLsbD]
  by_cases h : i < 24
  · rw [BitVec.getLsbD_of_ge byte _ (by omega)]
    simp [h]
  · have hbit : 32 - 1 - i = 8 - 1 - (i - 24) := by omega
    have hlow : i - 24 < 8 := by omega
    have hin : i - 24 < 32 := by omega
    have hout : 8 - 1 - (i - 24) < 32 := by omega
    rw [hbit]
    simp only [h, hi, hlow, hin, hout, decide_true, decide_false, Bool.true_and, Bool.not_false]

theorem lowBit_eq (register : UInt32) :
    (register &&& 1 = 1) = (register.toBitVec.getLsbD 0 = true) := by
  rw [lowBit_iff, BitVec.getLsbD, Nat.testBit_zero, decide_eq_true_eq]
  rfl

/-- Dividing a bit out of the register is a step of the division on the reflected one. -/
theorem reverse_shiftBit (register : UInt32) :
    (shiftBit register).toBitVec.reverse = isoHdlc.shift register.toBitVec.reverse := by
  unfold shiftBit Parameters.shift
  rw [BitVec.msb_reverse, ← reverse_ushiftRight_one, ← reverse_polynomial, ← reverse_xor]
  simp only [lowBit_eq]
  split <;> rfl

theorem reverse_iterate_shiftBit (n : Nat) (register : UInt32) :
    (shiftBit^[n] register).toBitVec.reverse = isoHdlc.shift^[n] register.toBitVec.reverse := by
  induction n generalizing register with
  | zero => rfl
  | succ n ih =>
    rw [Function.iterate_succ_apply, Function.iterate_succ_apply, ih, reverse_shiftBit]

theorem reverse_step (register : UInt32) (byte : UInt8) :
    (step register byte).toBitVec.reverse = isoHdlc.step register.toBitVec.reverse byte := by
  have hbyte : byte.toUInt32.toBitVec = byte.toBitVec.setWidth 32 := rfl
  rw [step_eq, reverse_iterate_shiftBit, UInt32.toBitVec_xor, reverse_xor, hbyte, reverse_setWidth]
  rfl

theorem reverse_run (register : UInt32) (bytes : Bytes) : (run register bytes).toBitVec.reverse =
    bytes.foldl isoHdlc.step register.toBitVec.reverse := by
  induction bytes generalizing register with
  | nil => rfl
  | cons byte bytes ih =>
    rw [List.foldl_cons, ← reverse_step]
    exact ih (step register byte)

/-- **The checksum is CRC-32/ISO-HDLC.** -/
theorem compute_eq_isoHdlc (bytes : Bytes) :
    (compute bytes).toBitVec = isoHdlc.compute bytes := by
  have hinit : (0xFFFFFFFF : UInt32).toBitVec.reverse = isoHdlc.init := by decide +kernel
  have hrun := reverse_run 0xFFFFFFFF bytes
  rw [hinit] at hrun
  unfold compute Parameters.compute
  rw [← hrun, UInt32.toBitVec_xor]
  exact congrArg (· ^^^ 0xFFFFFFFF#32) BitVec.reverse_reverse_eq.symm

example : compute (Bytes.ofString "123456789") = 0xCBF43926 := by decide +kernel

end CommandLink.Checksum
