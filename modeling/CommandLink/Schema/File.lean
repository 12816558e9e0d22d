import CommandLink.Schema.Json

/-!
# Schema files

A description is loaded from what a path turns out to be: a regular file of admitted size whose
bytes are UTF-8 text. The size is looked at before the content.
-/

namespace CommandLink

/-- What a path turns out to be. -/
inductive FileLookup where
  /-- The operating system refuses it. -/
  | refused (reason : String)
  /-- Something else than a file. -/
  | notRegular
  | file (bytes : Bytes)
deriving DecidableEq, Repr

/-- The text at a path. -/
def FileLookup.text (found : FileLookup) (path : String) (limits : Limits) :
    Except LoadFailure String :=
  match found with
  | .refused reason => .error (.system path reason)
  | .notRegular => .error (.notRegular path)
  | .file bytes =>
    if limits.fileSize < bytes.length then .error (.tooLarge path bytes.length)
    else
      match Bytes.toString? bytes with
      | none => .error (.notText path)
      | some text => .ok text

/-- The description at a path. -/
def Description.load (found : FileLookup) (path : String) (limits : Limits) :
    Except SchemaError Description :=
  match found.text path limits with
  | .error failure => .error (.loadFailed failure)
  | .ok text => Description.ofText text

end CommandLink
