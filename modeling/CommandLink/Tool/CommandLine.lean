import CommandLink.DriveCommand
import CommandLink.Packet.Flags
import CommandLink.Tool.Arguments

/-!
# The command line

Options that every subcommand knows may stand before or behind its name; the later one counts.
`CommandLine.parse` reads an argument list as an invocation, as the request for the version, or
rejects it.
-/

namespace CommandLink

/-- How results are printed. -/
inductive OutputFormat where
  | json
  | table
  | pretty
  | raw
deriving DecidableEq, Repr

/-- The format of the given name. -/
def OutputFormat.ofName? : String → Option OutputFormat
  | "json" => some json
  | "table" => some table
  | "pretty" => some pretty
  | "raw" => some raw
  | _ => none

/-- What is asked for. -/
inductive Subcommand where
  /-- List the message types and the hash of the schema. -/
  | schema
  /-- Show the own handshake, or check a received one. -/
  | handshake (received : Option String)
  /-- Encode a batch of drive commands. -/
  | encode (commands : List DriveCommand) (flags : Flags)
  /-- Decode a packet. -/
  | decode (packet : String) (typeId : UInt16)
  /-- Show the version. -/
  | version (extended : Bool)
deriving DecidableEq, Repr

/-- What the options that every subcommand knows say in one place. -/
structure Settings where
  format : Option OutputFormat
  /-- The schema file to use instead of the built-in schema. -/
  schemaPath : Option String
deriving DecidableEq, Repr

/-- A subcommand with its settings. -/
structure Invocation where
  subcommand : Subcommand
  settings : Settings
deriving DecidableEq, Repr

/-- What a command line turns out to be. -/
inductive CommandLine where
  | rejected
  | showVersion
  | run (invocation : Invocation)
deriving DecidableEq, Repr

namespace Settings

/-- The shapes of the options that every subcommand knows. -/
def shape? : String → Option OptionShape
  | "--format" | "--log-format" | "--log-level" | "--schema" => some .value
  | _ => none

/-- A value that has to be read, if there is one. -/
def read? {α : Type} (value : Option String) (ofText? : String → Option α) : Option (Option α) :=
  match value with
  | none => some none
  | some text => (ofText? text).map some

/-- One of the given words. -/
def oneOf? (words : List String) (text : String) : Option String :=
  if text ∈ words then some text else none

/-- A path. -/
def path? (text : String) : Option String := if text = "" then none else some text

/-- The settings among arguments. The options about logging are checked and have no effect, as
nothing is logged. -/
def ofArguments? (arguments : List Argument) : Option Settings := do
  let format ← read? (← Argument.value? "--format" arguments) OutputFormat.ofName?
  let _ ← read? (← Argument.value? "--log-format" arguments) (oneOf? ["text", "json"])
  let _ ← read? (← Argument.value? "--log-level" arguments)
    (oneOf? ["error", "warn", "info", "debug", "trace"])
  let schemaPath ← read? (← Argument.value? "--schema" arguments) path?
  return ⟨format, schemaPath⟩

/-- The settings before a subcommand with those behind it, and the path that the environment names.
That path is looked at, and must not be empty, in each place that does not name one itself. -/
def merge? (before behind : Settings) (environment : Option String) : Option Settings :=
  let schemaPath := behind.schemaPath <|> before.schemaPath <|> environment
  if environment = some "" ∧ (before.schemaPath.isNone ∨ behind.schemaPath.isNone) then none
  else some ⟨behind.format <|> before.format, schemaPath⟩

end Settings

namespace Subcommand

/-- The shapes of the options of the subcommand of the given name; nothing if there is none. -/
def shapes? : String → Option (String → Option OptionShape)
  | "schema" => some fun _ => none
  | "handshake" => some fun
    | "--check" => some .value
    | _ => none
  | "encode" => some fun
    | "--cmd" => some .anyValue
    | "--clear-queue" => some .switch
    | "--flags" => some .value
    | _ => none
  | "decode" => some fun
    | "--type-id" => some .value
    | _ => none
  | "version" => some fun
    | "--extended" => some .switch
    | _ => none
  | _ => none

/-- A number from zero up to and without `bound`. -/
def below? (bound : Nat) (text : String) : Option Nat :=
  match Numeral.integer? text.toList with
  | some n => if 0 ≤ n ∧ n < bound then some n.toNat else none
  | none => none

/-- The encoding of the commands among arguments. -/
def encode? (arguments : List Argument) : Option Subcommand := do
  let commands ← (Argument.values "--cmd" arguments).mapM DriveCommand.ofText?
  let clearsQueue ← Argument.isOn? "--clear-queue" arguments
  let bits ← Settings.read? (← Argument.value? "--flags" arguments) (below? (2 ^ 8))
  let flags : Flags := ⟨UInt8.ofNat (bits.getD 0)⟩
  return encode commands (if clearsQueue then flags.union .clearQueue else flags)

/-- The decoding of the packet among arguments. -/
def decode? (arguments : List Argument) (packet : String) : Option Subcommand := do
  let typeId ← Settings.read? (← Argument.value? "--type-id" arguments) (below? (2 ^ 16))
  return decode packet ((typeId.map UInt16.ofNat).getD DriveCommand.typeId)

/-- The subcommand of the given name with its arguments. -/
def ofArguments? (name : String) (arguments : List Argument) : Option Subcommand :=
  match name, Argument.operands arguments with
  | "schema", [] => some schema
  | "handshake", [] => (Argument.value? "--check" arguments).map handshake
  | "encode", [] => encode? arguments
  | "decode", [packet] => decode? arguments packet
  | "version", [] => (Argument.isOn? "--extended" arguments).map version
  | _, _ => none

end Subcommand

namespace CommandLine

/-- The shapes of the options before a subcommand. -/
def shape? : String → Option OptionShape
  | "--version" | "-V" => some .switch
  | name => Settings.shape? name

/-- Only options with values may stand before a subcommand. -/
def endsSettings : Argument → Bool
  | .option .. => false
  | _ => true

/-- The invocation of the named subcommand with the words behind its name. -/
def invocation? (before : Settings) (environment : Option String) (name : String)
    (words : List String) : Option Invocation := do
  let shape? ← Subcommand.shapes? name
  let (arguments, _) ←
    Argument.scan? (fun option => shape? option <|> Settings.shape? option) (fun _ => false) words
  let behind ← Settings.ofArguments? arguments
  return ⟨← Subcommand.ofArguments? name arguments, ← before.merge? behind environment⟩

/-- Reads the words of a command line. `environment` is the schema path that the environment
names. -/
def parse (words : List String) (environment : Option String) : CommandLine :=
  match Argument.scan? shape? endsSettings words with
  | none => rejected
  | some (arguments, words) =>
    match Settings.ofArguments? arguments, arguments.getLast? with
    | some _, some (.switch _) => showVersion
    | some before, some (.operand name) =>
      match invocation? before environment name words with
      | some invocation => run invocation
      | none => rejected
    | _, _ => rejected

end CommandLine

end CommandLink
