import CommandLink.Schema.File
import CommandLink.Tool.HandshakeView
import CommandLink.Tool.PacketView
import CommandLink.Tool.SchemaView
import CommandLink.Tool.Version

/-!
# Running a command

An invocation is run against what its schema path turns out to be. The schema is loaded before the
subcommand looks at its own arguments; only the version needs none.
-/

namespace CommandLink.Invocation

/-- The schema of an invocation. -/
def loadSchema (i : Invocation) (find : String → FileLookup) : Except ToolFailure Schema :=
  match i.settings.schemaPath with
  | none => .ok .builtin
  | some path =>
    ((Description.load (find path) path .standard).bind fun description =>
      Schema.compile description .current .standard).mapError (.schema path)

/-- What an invocation prints in the given format. -/
def print (i : Invocation) (format : OutputFormat) (find : String → FileLookup) :
    Except ToolFailure Bytes :=
  match i.subcommand with
  | .schema => do return (← i.loadSchema find).view format
  | .handshake none => do return Handshake.view (← i.loadSchema find).hash format
  | .handshake (some received) => do
    Handshake.check received (← i.loadSchema find).hash format
  | .encode commands flags => do
    Packet.encodeReport (← i.loadSchema find) commands flags format
  | .decode packet typeId => do
    Packet.decodeReport (← i.loadSchema find) typeId packet format
  | .version false => .ok (linesBytes [Tool.versionLine])
  | .version true => .ok (linesBytes (Tool.versionLines .standard))

/-- The path of the file that an invocation looks at. -/
def path? (i : Invocation) : Option String :=
  match i.subcommand with
  | .version _ => none
  | _ => i.settings.schemaPath

/-- Runs an invocation. `standard` is the format of results unless one is asked for. -/
def run (i : Invocation) (standard : OutputFormat) (find : String → FileLookup) : Report :=
  .ofResult (i.print (i.settings.format.getD standard) find)

end CommandLink.Invocation
