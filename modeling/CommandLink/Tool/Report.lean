import CommandLink.Json.Printer
import CommandLink.Packet.Error
import CommandLink.Peer.Handshake
import CommandLink.Schema.Basic

/-!
# Reports

What a run of the tool leaves behind: the bytes it prints and a status, or the wording of a failure,
whose status depends on the kind of the failure.
-/

namespace CommandLink

/-- Why a run of the tool fails. -/
inductive ToolFailure where
  | schema (path : String) (cause : SchemaError)
  /-- A text that has to be hexadecimal is not; `input` is what it was given as. -/
  | hex (input : String) (cause : Hex.Error)
  | handshake (cause : HandshakeError)
  | encode (cause : EncodeError)
  | decode (cause : DecodeError)
deriving DecidableEq, Repr

namespace ExitStatus

/-- The run succeeded. -/
def success : UInt8 := 0

/-- The schema file could not be read. -/
def failure : UInt8 := 1

/-- The arguments do not form a command line. -/
def rejected : UInt8 := 2

/-- A schema, packet or handshake was read and is not valid. -/
def invalidData : UInt8 := 60

/-- An argument does not make sense. -/
def usage : UInt8 := 64

/-- The peer has another schema. -/
def schemaMismatch : UInt8 := 65

/-- This cannot happen to the user of the tool. -/
def internal : UInt8 := 125

end ExitStatus

namespace ToolFailure

/-- The exit status of a failure. -/
def status : ToolFailure → UInt8
  | schema _ (.loadFailed _) => ExitStatus.failure
  | hex .. | encode (.unknownMessageType _) | decode (.unknownMessageType _) => ExitStatus.usage
  | handshake (.schemaMismatch ..) => ExitStatus.schemaMismatch
  | handshake (.outOfOrder ..) | handshake (.splitSchema ..) => ExitStatus.internal
  | schema .. | handshake _ | encode _ | decode _ => ExitStatus.invalidData

/-- The wording of a failure. -/
def message : ToolFailure → String
  | schema path cause => s!"schema {path}: {cause.message}"
  | hex input cause => s!"{input}: {cause.message}"
  | handshake cause => s!"handshake rejected: {cause.message}"
  | encode cause => s!"encode failed: {cause.message}"
  | decode cause => s!"decode failed: {cause.message}"

end ToolFailure

/-- What a run of the tool leaves behind. -/
structure Report where
  status : UInt8
  /-- The bytes of the standard output. -/
  output : Bytes
  /-- The text of the standard error output. -/
  complaint : String
deriving DecidableEq, Repr

namespace Report

/-- The report of a run that prints `output` and succeeds, or fails. -/
def ofResult : Except ToolFailure Bytes → Report
  | .ok output => ⟨ExitStatus.success, output, ""⟩
  | .error failure => ⟨failure.status, [], s!"error: {failure.message}\n"⟩

end Report

/-- Lines as bytes, each of them ended. -/
def linesBytes (lines : List String) : Bytes :=
  Bytes.ofString (String.join (lines.map (· ++ "\n")))

/-- A value on a line of its own. -/
def Json.line (j : Json) : Bytes := linesBytes [j.text]

end CommandLink
