import CommandLink.Tool.Run

/-!
# The program

Reads the command line, the environment and at most one file, and prints what the run reports.
-/

namespace CommandLink

/-- The reason of a refused path. -/
def refusal : IO.Error → String
  | .noFileOrDirectory .. => "No such file or directory (os error 2)"
  | .permissionDenied .. => "Permission denied (os error 13)"
  | .inappropriateType .. => "Not a directory (os error 20)"
  | e => e.toString

/-- What a path turns out to be, from the current directory. -/
def lookUp (path : String) : IO FileLookup := do
  try
    let file := (← IO.currentDir) / path
    let metadata ← file.metadata
    match metadata.type with
    | .file => return .file (← IO.FS.readBinFile file).toList
    | _ => return .notRegular
  catch e => return .refused (refusal e)

/-- Runs an invocation and prints its report. -/
def runAndPrint (invocation : Invocation) : IO UInt32 := do
  let stdout ← IO.getStdout
  let standard : OutputFormat := if ← stdout.isTty then .table else .json
  let found ← match invocation.path? with
    | some path => lookUp path
    | none => pure .notRegular
  let report := invocation.run standard fun _ => found
  stdout.write ⟨report.output.toArray⟩
  stdout.flush
  IO.eprint report.complaint
  return report.status.toUInt32

/-- Runs the program with the given arguments. -/
def runProgram (args : List String) : IO UInt32 := do
  match CommandLine.parse args (← IO.getEnv "BCNP_SCHEMA") with
  | .rejected =>
    IO.eprintln "usage: bcnp [OPTIONS] <schema|handshake|encode|decode|version>"
    return ExitStatus.rejected.toUInt32
  | .showVersion =>
    IO.println Tool.versionLine
    return ExitStatus.success.toUInt32
  | .run invocation => runAndPrint invocation

end CommandLink

/-- Inspects schemas, handshakes and packets. -/
def main (args : List String) : IO UInt32 := CommandLink.runProgram args
