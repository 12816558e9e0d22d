import CommandLink.Record.Error
import CommandLink.Schema.Fingerprint

/-!
# Refused packets

Why a batch cannot be encoded (`EncodeError`) and why bytes are not a packet (`DecodeError`).
-/

namespace CommandLink

/-- Why a batch cannot be encoded. -/
inductive EncodeError where
  /-- There are more records than the count field, or the configuration, allows. -/
  | batchTooLarge (count limit : Nat)
  /-- A number cannot be represented in its wire type. -/
  | numericOverflow (index : Nat) (field : String)
  | unknownMessageType (id : UInt16)
  /-- A record does not match the layout. -/
  | invalidRecord (index : Nat) (reason : RecordError)
deriving DecidableEq, Repr

namespace EncodeError

/-- The error of a batch whose record at `index` is refused. -/
def ofRecord (index : Nat) (reason : RecordError) : EncodeError :=
  if reason.isNumericOverflow then numericOverflow index (reason.field?.getD "")
  else invalidRecord index reason

/-- The wording of an error. -/
def message : EncodeError → String
  | batchTooLarge count limit => s!"batch of {count} records exceeds the maximum of {limit}"
  | numericOverflow index field =>
    s!"record {index}: field '{field}' is out of range for its wire type"
  | unknownMessageType id => s!"unknown message type {id}"
  | invalidRecord index reason => s!"record {index} is invalid: {reason.message}"

end EncodeError

/-- Why bytes are not a packet. -/
inductive DecodeError where
  /-- There are fewer bytes than the header has, or than it announces. -/
  | truncated (needed available : Nat)
  | checksumMismatch (carried computed : UInt32)
  | invalidRecord (index : Nat) (reason : RecordError)
  | unknownMessageType (id : UInt16)
  | unsupportedVersion (found expected : ProtocolVersion)
  | trailingBytes (extra : Nat)
deriving DecidableEq, Repr

namespace DecodeError

/-- The wording of an error. -/
def message : DecodeError → String
  | truncated needed available => s!"packet truncated: need {needed} bytes, have {available}"
  | checksumMismatch carried computed =>
    "checksum mismatch (carried 0x" ++ Hex.padded .upper 8 carried.toNat
      ++ ", computed 0x" ++ Hex.padded .upper 8 computed.toNat ++ ")"
  | invalidRecord index reason => s!"record {index} is invalid: {reason.message}"
  | unknownMessageType id => s!"unknown message type {id}"
  | unsupportedVersion found expected =>
    s!"unsupported protocol version {found.text} (expected {expected.text})"
  | trailingBytes extra => s!"{extra} trailing bytes after packet"

end DecodeError

end CommandLink
