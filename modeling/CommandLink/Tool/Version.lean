import CommandLink.Peer.Handshake
import CommandLink.DriveCommand
import CommandLink.Tool.Report

/-!
# The version of the tool
-/

namespace CommandLink.Tool

/-- The name of the program. -/
def name : String := "bcnp"

/-- The version of the program. -/
def version : String := "0.3.0"

/-- The name and the version. -/
def versionLine : String := s!"{name} {version}"

/-- Where a build comes from and what it runs on. -/
structure Build where
  target : String
  system : String
  architecture : String
  revision : String

/-- A build that nothing is recorded about. -/
def Build.standard : Build := ⟨"unknown", "linux", "x86_64", "unknown"⟩

/-- Everything that is known about the version. -/
def versionLines (build : Build) : List String :=
  [s!"name: {name}", s!"version: {version}", s!"protocol: {ProtocolVersion.current.text}",
    s!"header_layout: {Fingerprint.headerLayout}", s!"magic: {Handshake.escape Handshake.magic}",
    s!"builtin_schema_hash: {Schema.builtin.hash.text}", s!"target: {build.target}",
    s!"target_os: {build.system}", s!"target_arch: {build.architecture}",
    s!"git_hash: {build.revision}", "features: peer=true, cli=true"]

end CommandLink.Tool
