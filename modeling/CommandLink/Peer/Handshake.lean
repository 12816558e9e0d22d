import CommandLink.Schema.Fingerprint

/-!
# Handshakes

A peer opens with eight bytes: the letters `BCNP` and its schema hash, big-endian. A handshake is
good for a receiver whose own hash is the same.
-/

namespace CommandLink

/-- What is done with a handshake in progress. -/
inductive HandshakeOperation where
  | start
  | feed
deriving DecidableEq, Repr

/-- Where a handshake in progress stands. -/
inductive HandshakeStage where
  | unestablished
  | awaitingPeer
  | validated
  | rejected
deriving DecidableEq, Repr

/-- The words for an operation. -/
def HandshakeOperation.text : HandshakeOperation → String
  | start => "start"
  | feed => "accept peer bytes"

/-- The words for a stage. -/
def HandshakeStage.text : HandshakeStage → String
  | unestablished => "unestablished"
  | awaitingPeer => "awaiting peer handshake"
  | validated => "validated"
  | rejected => "rejected"

/-- Why a handshake fails. -/
inductive HandshakeError where
  /-- The peer's stream ended after so many bytes. -/
  | incomplete (received : Nat)
  | badMagic (found : Bytes)
  | schemaMismatch (ours theirs : SchemaHash)
  /-- The two directions of one connection have different schemas. -/
  | splitSchema (reader writer : SchemaHash)
  /-- The peer was rejected before. -/
  | rejected
  | outOfOrder (operation : HandshakeOperation) (stage : HandshakeStage)
deriving DecidableEq, Repr

namespace Handshake

/-- The letters that a handshake begins with. -/
def magic : Bytes := [0x42, 0x43, 0x4E, 0x50]

/-- Size of a handshake in bytes. -/
def size : Nat := 8

/-- The handshake of a peer with the given schema hash. -/
def encode (hash : SchemaHash) : Bytes := magic ++ hash.toBytes

/-- Checks a handshake against the receiver's own hash: the peer's hash. Only the first eight bytes
count. -/
def validate (received : Bytes) (ours : SchemaHash) : Except HandshakeError SchemaHash :=
  if received.length < size then .error (.incomplete received.length)
  else
    let found := received.take magic.length
    let theirs := SchemaHash.ofBytes ((received.drop magic.length).take 4)
    if found ≠ magic then .error (.badMagic found)
    else if theirs ≠ ours then .error (.schemaMismatch ours theirs)
    else .ok theirs

@[simp] theorem length_encode (hash : SchemaHash) : (encode hash).length = size := rfl

/-- A peer accepts the handshake of its own hash, whatever follows it. -/
theorem validate_encode (hash : SchemaHash) (rest : Bytes) :
    validate (encode hash ++ rest) hash = .ok hash := by
  have front : (encode hash ++ rest).take magic.length = magic := rfl
  have back : ((encode hash ++ rest).drop magic.length).take 4 = hash.toBytes := rfl
  simp [validate, front, back, SchemaHash.ofBytes_toBytes]

/-- The printable form of a byte: ASCII as it is, with escapes for quotes, backslashes and what
does not print. -/
def escapeByte (b : UInt8) : String :=
  if b = 0x09 then "\\t"
  else if b = 0x0A then "\\n"
  else if b = 0x0D then "\\r"
  else if b = 0x22 then "\\\""
  else if b = 0x27 then "\\'"
  else if b = 0x5C then "\\\\"
  else if 0x20 ≤ b ∧ b ≤ 0x7E then String.ofList [Char.ofNat b.toNat]
  else "\\x" ++ Hex.padded .lower 2 b.toNat

/-- The printable form of a byte string. -/
def escape (bytes : Bytes) : String := String.join (bytes.map escapeByte)

end Handshake

/-- The wording of a failure. -/
def HandshakeError.message : HandshakeError → String
  | incomplete received => s!"incomplete handshake ({received} of 8 bytes)"
  | badMagic found => "bad handshake magic \"" ++ Handshake.escape found ++ "\""
  | schemaMismatch ours theirs => s!"schema mismatch (local {ours.text}, remote {theirs.text})"
  | splitSchema reader writer =>
    s!"reader schema {reader.text} differs from writer schema {writer.text}"
  | rejected => "handshake already rejected"
  | outOfOrder operation stage => s!"cannot {operation.text} while {stage.text}"

end CommandLink
