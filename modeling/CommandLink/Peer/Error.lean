import CommandLink.Peer.Handshake
import CommandLink.Stream.Error

/-!
# Failures between peers
-/

namespace CommandLink

/-- Why a session was not opened or did not answer. -/
inductive PeerError where
  | frame (cause : FrameError)
  | handshake (cause : HandshakeError)
  /-- Nothing arrived in time. -/
  | timeout (after : Duration)
  /-- The peer closed the connection. -/
  | disconnected
  /-- The stream could not be set up. -/
  | io (kind : IoErrorKind)
deriving DecidableEq, Repr

/-- The wording of a failure. -/
def PeerError.message : PeerError → String
  | frame cause => s!"frame error: {cause.message}"
  | handshake cause => s!"handshake failed: {cause.message}"
  | timeout after => s!"timed out after {after.text}"
  | disconnected => "peer disconnected: connection closed"
  | io kind => s!"I/O error: {kind.text}"

end CommandLink
