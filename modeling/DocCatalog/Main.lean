import DocCatalog.CommandLine.Run

/-!
# The program

The host that works on the machine the program runs on, and the entry point. Everything that is
decided is decided elsewhere.
-/

namespace DocCatalog.Main

open Files

/-- The number that the operating system gave an error. -/
def errorNumber? : IO.Error → Option UInt32
  | .alreadyExists _ number _ | .otherError number _ | .resourceBusy number _
  | .resourceVanished number _ | .unsupportedOperation number _ | .hardwareFault number _
  | .unsatisfiedConstraints number _ | .illegalOperation number _ | .protocolError number _
  | .timeExpired number _ | .interrupted _ number _ | .noFileOrDirectory _ number _
  | .invalidArgument _ number _ | .permissionDenied _ number _ | .resourceExhausted _ number _
  | .inappropriateType _ number _ | .noSuchThing _ number _ => some number
  | .unexpectedEof | .userError _ => none

/-- The fault of an error. Some numbers arrive with the sign reversed. -/
def faultOf (error : IO.Error) : Fault :=
  let positive (number : UInt32) : UInt32 := if number < 0x80000000 then number else 0 - number
  match (errorNumber? error).map positive with
  | some 2 => .notFound
  | some 6 => .noDevice
  | some 20 => .notDirectory
  | some 21 => .isDirectory
  | some 36 => .nameTooLong
  | some 40 => .linkLoop
  | _ => .other (toString error)

/-- Runs an action and tells what went wrong with it. -/
def attempt {α : Type} (action : IO α) : IO (Except Fault α) := do
  return (← action.toBaseIO).mapError faultOf

/-- The text of a path. The system can only be asked about paths that are UTF-8. -/
def textOf (path : Files.Path) : IO String :=
  match Text.ofBytes? path.bytes with
  | some text => return text
  | none => throw (IO.userError "the path is not UTF-8")

/-- The tree of a directory entry. What cannot be read is left out. -/
partial def readEntry (entry : IO.FS.DirEntry) : IO (Files.Path × Node Unit) := do
  match (← entry.path.symlinkMetadata).type with
  | .file => return (entry.fileName, .file ())
  | .symlink => return (entry.fileName, .link .empty)
  | .other => return (entry.fileName, .special)
  | .dir =>
    match ← attempt entry.path.readDir with
    | .error _ => return (entry.fileName, .directory [])
    | .ok entries => return (entry.fileName, .directory (← entries.toList.mapM readEntry))

/-- What stands at a path, links followed. -/
def look (path : Files.Path) : IO (Node Unit) := do
  let real ← IO.FS.realPath (← textOf path)
  match (← real.metadata).type with
  | .file => return .file ()
  | .dir => return .directory (← (← real.readDir).toList.mapM readEntry)
  | .symlink | .other => return .special

def host : Host IO where
  look path := do
    return (← attempt (look path)).toOption
  read path := attempt do IO.FS.readBinFile (← textOf path)
  write path text := attempt do IO.FS.writeFile (← textOf path) text
  input := do
    (← IO.getStdin).readBinToEnd

end DocCatalog.Main

open DocCatalog in
def main (arguments : List String) : IO UInt32 := do
  let forced ← IO.getEnv "CLICOLOR_FORCE"
  let environment (name : String) : Option String :=
    if name = "CLICOLOR_FORCE" then forced else none
  let outcome ← CommandLine.run Main.host environment arguments
  IO.print outcome.output
  match outcome.complaint with
  | some complaint => IO.eprintln complaint
  | none => if outcome = .misused then IO.eprintln "usage: extract | events | init"
  return outcome.exitCode
