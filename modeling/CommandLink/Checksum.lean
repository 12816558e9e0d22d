import CommandLink.Bytes

/-!
# The packet checksum

CRC-32 in its ISO-HDLC form: the register starts with all bits set, every byte is divided in with
its least significant bit first, and the register leaves inverted. The checksum of the nine digits
`123456789` is `0xCBF43926`.
-/

namespace CommandLink.Checksum

/-- Size of the checksum at the end of a packet. -/
def size : Nat := 4

/-- The generator polynomial, its bits reversed. -/
def polynomial : UInt32 := 0xEDB88320

/-- Divides one bit out of the register. -/
def shiftBit (register : UInt32) : UInt32 :=
  if register &&& 1 = 1 then (register >>> 1) ^^^ polynomial else register >>> 1

/-- Takes one byte into the register. -/
def step (register : UInt32) (byte : UInt8) : UInt32 :=
  shiftBit (shiftBit (shiftBit (shiftBit (shiftBit (shiftBit (shiftBit (shiftBit
    (register ^^^ byte.toUInt32))))))))

/-- The register after `bytes`, started at `register`. -/
def run (register : UInt32) (bytes : Bytes) : UInt32 :=
  bytes.foldl step register

/-- The checksum of a byte string. -/
def compute (bytes : Bytes) : UInt32 :=
  run 0xFFFFFFFF bytes ^^^ 0xFFFFFFFF

/-- Whether `expected` is the checksum of `bytes`. -/
def verify (bytes : Bytes) (expected : UInt32) : Bool :=
  compute bytes == expected

theorem run_append (register : UInt32) (front back : Bytes) :
    run register (front ++ back) = run (run register front) back :=
  List.foldl_append

end CommandLink.Checksum
