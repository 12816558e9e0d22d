import CommandLink.Packet.Flags
import CommandLink.Schema.Fingerprint

/-!
# Packet headers

Five bytes: the protocol version, the flags and the number of records, big-endian.
-/

namespace CommandLink

/-- The fixed header at the start of every packet. -/
structure Header where
  version : ProtocolVersion
  flags : Flags
  count : UInt16
deriving DecidableEq, Repr

namespace Header

/-- Size of a header in bytes. -/
def size : Nat := 5

/-- The most records that the count field can announce. -/
def maxCount : Nat := 65535

/-- The bytes of a header. -/
def toBytes (h : Header) : Bytes :=
  [h.version.major, h.version.minor, h.flags.bits] ++ Bytes.ofNat 2 h.count.toNat

/-- The header at the front of `bytes`, if there are enough of them. -/
def parse? : Bytes → Option Header
  | major :: minor :: flags :: high :: low :: _ =>
    some ⟨⟨major, minor⟩, ⟨flags⟩, UInt16.ofNat (Bytes.toNat [high, low])⟩
  | _ => none

@[simp] theorem length_toBytes (h : Header) : h.toBytes.length = size := rfl

/-- A header is read back from the front of any bytes. -/
theorem parse?_toBytes (h : Header) (rest : Bytes) : parse? (h.toBytes ++ rest) = some h := by
  have count : UInt16.ofNat (Bytes.toNat (Bytes.ofNat 2 h.count.toNat)) = h.count := by
    have fits : h.count.toNat < 256 ^ 2 := h.count.toNat_lt
    rw [Bytes.toNat_ofNat, Nat.mod_eq_of_lt fits, UInt16.ofNat_toNat]
  exact congrArg (fun n => some (Header.mk h.version h.flags n)) count

end Header

/-- The length of a packet of `count` records of `recordSize` bytes. -/
def packetLength (count recordSize : Nat) : Nat :=
  Header.size + count * recordSize + Checksum.size

/-- The length of a packet as a 64-bit size; what is longer counts as the largest size. -/
def packetSize (count recordSize : Nat) : Nat :=
  min (packetLength count recordSize) (2 ^ 64 - 1)

end CommandLink
