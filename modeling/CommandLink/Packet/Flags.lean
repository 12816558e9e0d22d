import CommandLink.Text.Hex

/-!
# Packet flags

One byte. Bit 0 asks the receiver to clear its command queue before it applies the batch; the other
bits are reserved and travel unchanged.
-/

namespace CommandLink

/-- The flags byte of a packet header. -/
structure Flags where
  bits : UInt8
deriving DecidableEq, Repr

namespace Flags

/-- No flag. -/
def none : Flags := ⟨0⟩

/-- Drop queued commands before this batch. -/
def clearQueue : Flags := ⟨1⟩

/-- All flags with a meaning. -/
def known : Flags := clearQueue

/-- The flags of either. -/
def union (a b : Flags) : Flags := ⟨a.bits ||| b.bits⟩

/-- The flags of both. -/
def inter (a b : Flags) : Flags := ⟨a.bits &&& b.bits⟩

/-- The flags of `a` that are not in `b`. -/
def diff (a b : Flags) : Flags := ⟨a.bits &&& ~~~b.bits⟩

/-- The flags of one but not of both. -/
def symmDiff (a b : Flags) : Flags := ⟨a.bits ^^^ b.bits⟩

/-- The known flags that are not set. -/
def complement (a : Flags) : Flags := known.diff a

/-- The flags without the reserved bits. -/
def truncate (a : Flags) : Flags := a.inter known

/-- The reserved bits that are set. -/
def reserved (a : Flags) : UInt8 := (a.diff known).bits

/-- The flags with the given bits, if none of them is reserved. -/
def ofBits? (bits : UInt8) : Option Flags :=
  if (Flags.mk bits).reserved = 0 then some ⟨bits⟩ else Option.none

/-- Whether `a` has all flags of `b`. -/
def contains (a b : Flags) : Bool := a.inter b == b

/-- Whether the two share a flag. -/
def intersects (a b : Flags) : Bool := a.inter b != none

/-- Whether no flag is set. -/
def isEmpty (a : Flags) : Bool := a == none

/-- Whether all known flags are set. -/
def isAll (a : Flags) : Bool := a.contains known

/-- Whether the receiver is asked to clear its queue. -/
def clearsQueue (a : Flags) : Bool := a.contains clearQueue

/-- The same flags with bit 0 set or cleared. -/
def withClearQueue (a : Flags) (on : Bool) : Flags :=
  if on then a.union clearQueue else a.diff clearQueue

/-- Flags as they appear in messages. -/
def text (a : Flags) : String :=
  "0x" ++ Hex.padded .upper 2 a.bits.toNat ++ if a.clearsQueue then " [clear-queue]" else ""

end Flags

end CommandLink
