import CommandLink.Bytes
import CommandLink.Checksum
import CommandLink.Decimal.Basic
import CommandLink.Decimal.Digits
import CommandLink.Decimal.Numeral
import CommandLink.Decimal.Scan
import CommandLink.Decimal.Shortest
import CommandLink.DriveCommand
import CommandLink.FixedPoint
import CommandLink.Float.Basic
import CommandLink.Float.Format
import CommandLink.Json.Access
import CommandLink.Json.Basic
import CommandLink.Json.Printer
import CommandLink.Json.Quoted
import CommandLink.Json.Reader
import CommandLink.Json.Token
import CommandLink.Main
import CommandLink.Packet.Codec
import CommandLink.Packet.Error
import CommandLink.Packet.Flags
import CommandLink.Packet.Header
import CommandLink.Peer.Error
import CommandLink.Peer.Handshake
import CommandLink.Peer.Negotiator
import CommandLink.Peer.Session
import CommandLink.Proofs.Checksum.Burst
import CommandLink.Proofs.Checksum.Catalogue
import CommandLink.Proofs.FixedPoint.RoundTrip
import CommandLink.Proofs.Float.Arithmetic
import CommandLink.Proofs.Float.Conversion
import CommandLink.Proofs.Float.Rounding
import CommandLink.Proofs.Packet.Batch
import CommandLink.Proofs.Packet.BitFlip
import CommandLink.Proofs.Packet.Corruption
import CommandLink.Proofs.Packet.Frame
import CommandLink.Proofs.Packet.RoundTrip
import CommandLink.Proofs.Record.Field
import CommandLink.Proofs.Record.RoundTrip
import CommandLink.Record.Codec
import CommandLink.Record.Error
import CommandLink.Record.Json
import CommandLink.Record.Value
import CommandLink.Schema.Basic
import CommandLink.Schema.Description
import CommandLink.Schema.FieldType
import CommandLink.Schema.File
import CommandLink.Schema.Fingerprint
import CommandLink.Schema.Json
import CommandLink.Schema.Layout
import CommandLink.Schema.Registry
import CommandLink.Schema.WellFormed
import CommandLink.Stream.Duration
import CommandLink.Stream.Error
import CommandLink.Stream.Reader
import CommandLink.Stream.Script
import CommandLink.Stream.Writer
import CommandLink.Text.Blank
import CommandLink.Text.Hex
import CommandLink.Tool.Arguments
import CommandLink.Tool.CommandLine
import CommandLink.Tool.HandshakeView
import CommandLink.Tool.HexInput
import CommandLink.Tool.PacketView
import CommandLink.Tool.Report
import CommandLink.Tool.Run
import CommandLink.Tool.SchemaView
import CommandLink.Tool.Table
import CommandLink.Tool.Version
import CommandLink.Proofs.Packet.Front
import CommandLink.Proofs.Packet.Schedule
import CommandLink.Proofs.Stream.Ledger
import CommandLink.Proofs.Stream.Outlook
import CommandLink.Proofs.Stream.Writes
import CommandLink.Proofs.Peer.Exchange
import CommandLink.Proofs.Peer.Delivery
import CommandLink.Proofs.Peer.Agreement
import CommandLink.Proofs.Packet.Grammar
import CommandLink.Proofs.Stream.Framing
import CommandLink.Proofs.FixedPoint.Range
import CommandLink.Proofs.Packet.Acceptance
import CommandLink.Proofs.Packet.Streaming
import CommandLink.Proofs.Peer.Finality
import CommandLink.Proofs.DriveCommand.Labels
import CommandLink.Proofs.Stream.Fragmentation
import CommandLink.Proofs.Schema.Registry
import CommandLink.Proofs.Schema.Order
import CommandLink.Proofs.Schema.Canonical
import CommandLink.Proofs.Schema.Edits
import CommandLink.Proofs.Float.Spacing
import CommandLink.Proofs.DriveCommand.Quantised
import CommandLink.Proofs.DriveCommand.Relay
import CommandLink.Proofs.Packet.Extent
import CommandLink.Proofs.Packet.Refusal
import CommandLink.Proofs.Stream.UnknownType
import CommandLink.Proofs.Stream.WriteCalls
import CommandLink.Proofs.Stream.SendBuffer
import CommandLink.Proofs.Stream.Counts
import CommandLink.Proofs.Stream.BufferBound
import CommandLink.Proofs.Peer.Fragments
import CommandLink.Proofs.Schema.FirstViolation
import CommandLink.Proofs.Schema.Lookup
import CommandLink.Proofs.Schema.Listing
import CommandLink.Proofs.Peer.Strict
import CommandLink.Proofs.FixedPoint.Rounding
import CommandLink.Proofs.Schema.Json
import CommandLink.Proofs.Record.Json
import CommandLink.Proofs.Tool.HexInput
import CommandLink.Proofs.Tool.DecodedView
