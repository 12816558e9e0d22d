import CommandLink.Tool.CommandLine
import CommandLink.Tool.HexInput
import CommandLink.Tool.Table

/-!
# Views of handshakes

The handshake that a peer with a schema sends, and the outcome of a received one.
-/

namespace CommandLink.Handshake

/-- The handshake of a peer with the given schema hash, as it is printed. -/
def view (hash : SchemaHash) : OutputFormat → Bytes
  | .json =>
    (Json.ofMembers [("schema_hash", .ofString hash.text),
      ("handshake", .ofString (Hex.ofBytes (encode hash))), ("size", .ofInt size)]).line
  | .table =>
    linesBytes [(Table.mk ["SCHEMA HASH", "HANDSHAKE"]
      [[hash.text, Hex.spaced (encode hash)]]).text]
  | .pretty =>
    linesBytes [s!"Schema hash: {hash.text}", "Handshake:   " ++ Hex.spaced (encode hash)]
  | .raw => encode hash

/-- An accepted handshake, as it is printed. -/
def acceptedView (ours theirs : SchemaHash) : OutputFormat → Bytes
  | .json =>
    (Json.ofMembers [("valid", .bool true), ("local_hash", .ofString ours.text),
      ("remote_hash", .ofString theirs.text)]).line
  | .table =>
    linesBytes [(Table.mk ["VALID", "LOCAL", "REMOTE"] [["true", ours.text, theirs.text]]).text]
  | .pretty | .raw => linesBytes [s!"handshake ok ({theirs.text})"]

/-- What is printed about a received handshake in hexadecimal form. -/
def check (received : String) (ours : SchemaHash) (format : OutputFormat) :
    Except ToolFailure Bytes := do
  let bytes ← HexInput.parse "--check" received
  match validate bytes ours with
  | .ok theirs => .ok (acceptedView ours theirs format)
  | .error cause => .error (.handshake cause)

end CommandLink.Handshake
