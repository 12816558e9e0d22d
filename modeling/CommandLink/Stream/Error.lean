import CommandLink.Packet.Error
import CommandLink.Stream.Script

/-!
# Failures of packet streams
-/

namespace CommandLink

/-- Why no packet was read or written. -/
inductive FrameError where
  | encode (cause : EncodeError)
  /-- A complete packet came in and was refused. -/
  | decode (cause : DecodeError)
  /-- A header announces more records than the reader admits; the buffered bytes are gone. -/
  | packetTooLarge (count limit : Nat)
  | io (kind : IoErrorKind)
  /-- The stream has ended, or takes no more bytes. -/
  | connectionClosed
deriving DecidableEq, Repr

/-- The wording of a failure. -/
def FrameError.message : FrameError → String
  | encode cause => cause.message
  | decode cause => cause.message
  | packetTooLarge count limit => s!"packet announces {count} records (max {limit})"
  | io kind => s!"packet I/O error: {kind.text}"
  | connectionClosed => "connection closed (incomplete packet)"

/-- How one end of a stream is set up. -/
structure ChannelConfig where
  /-- The largest batch that is accepted or produced. -/
  maxRecords : Nat
  /-- The timeout of blocking calls. -/
  timeout : Option Duration
deriving DecidableEq, Repr

/-- No limit but that of the count field, and no timeout. -/
def ChannelConfig.standard : ChannelConfig := ⟨65535, none⟩

end CommandLink
