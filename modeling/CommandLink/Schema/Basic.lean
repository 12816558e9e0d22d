import CommandLink.Schema.Fingerprint
import CommandLink.Schema.Registry
import CommandLink.Schema.WellFormed

/-!
# Schemas

A schema is a well-formed description at a protocol version. It comes from `Schema.compile`, which
refuses every other description, or is the built-in one.
-/

namespace CommandLink

/-- Why a file could not be read as text. -/
inductive LoadFailure where
  /-- The operating system refused the path, for the given reason. -/
  | system (path reason : String)
  | notRegular (path : String)
  | tooLarge (path : String) (bytes : Nat)
  | notText (path : String)
deriving DecidableEq, Repr

/-- The wording of a load failure. -/
def LoadFailure.message : LoadFailure → String
  | system path reason => s!"{path}: {reason}"
  | notRegular path => s!"{path}: not a regular file"
  | tooLarge path bytes => s!"schema file too large ({bytes} bytes): {path}"
  | notText path => s!"{path}: stream did not contain valid UTF-8"

/-- Why there is no schema or no message type. -/
inductive SchemaError where
  | loadFailed (failure : LoadFailure)
  /-- The text is not JSON or not that of a description. -/
  | invalidJson
  /-- The description breaks a structural rule. -/
  | invalid (violation : Violation)
  | unknownMessageType (id : UInt16)
deriving DecidableEq, Repr

/-- The wording of a schema error. -/
def SchemaError.message : SchemaError → String
  | loadFailed failure => "failed to load schema: " ++ failure.message
  | invalidJson => "schema is not valid JSON"
  | invalid (.repeatedId id) => (Violation.repeatedId id).message
  | invalid violation => "invalid schema description: " ++ violation.message
  | unknownMessageType id => s!"unknown message type {id}"

/-- A well-formed description at a protocol version. -/
structure Schema where
  version : ProtocolVersion
  description : Description
  wellFormed : description.WellFormed

namespace Schema

/-- The schema of a description that obeys every rule within the limits. -/
def compile (d : Description) (version : ProtocolVersion) (limits : Limits) :
    Except SchemaError Schema :=
  match h : d.violation? limits with
  | none => .ok ⟨version, d, (Description.violation?_eq_none_iff.1 h).1⟩
  | some violation => .error (.invalid violation)

/-- The schema's fingerprint. -/
def hash (s : Schema) : SchemaHash := s.description.hash s.version

/-- The schema's message types by their ids. -/
def registry (s : Schema) : Registry := .ofMessages s.description.messages

/-- The registered message types, ascending by id. -/
def messages (s : Schema) : List Message := s.registry.messages

/-- The message type with the given id. -/
def message? (s : Schema) (id : UInt16) : Option Message := s.registry.get? id

/-- The message type with the given id, or the reason that there is none. -/
def lookup (s : Schema) (id : UInt16) : Except SchemaError Message :=
  match s.message? id with
  | some m => .ok m
  | none => .error (.unknownMessageType id)

end Schema

end CommandLink
