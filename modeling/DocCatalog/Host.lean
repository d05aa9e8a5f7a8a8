import DocCatalog.Failure
import DocCatalog.Files.Disk

/-!
# What a run asks of its surroundings

A host answers for the file system and for standard input. The same run works on the machine it is
started on and on a disk in memory.
-/

namespace DocCatalog

structure Host (m : Type → Type) where
  /-- What stands at a path, links followed; nothing when the path leads nowhere. -/
  look : Files.Path → m (Option (Files.Node Unit))
  read : Files.Path → m (Except Files.Fault ByteArray)
  write : Files.Path → String → m (Except Files.Fault Unit)
  /-- What is left of standard input. -/
  input : m ByteArray

/-- A disk in memory with what is left of standard input. -/
structure Workspace where
  disk : Files.Disk
  input : ByteArray

/-- The host that works on a disk in memory. -/
def Workspace.host : Host (StateM Workspace) where
  look path := do
    return (((← get).disk.find .follow path).toOption).map Files.Node.shape
  read path := do
    return (← get).disk.read path
  write path text := do
    match (← get).disk.write path text.toUTF8 with
    | .ok disk =>
      modify fun workspace => { workspace with disk }
      return .ok ()
    | .error fault => return .error fault
  input := modifyGet fun workspace =>
    (workspace.input, { workspace with input := ByteArray.empty })

/-- The text of UTF-8 bytes. -/
def decodeText (bytes : ByteArray) : Except Files.Fault String :=
  match String.fromUTF8? bytes with
  | some text => .ok text
  | none => .error .notText

namespace Host

variable {m : Type → Type} [Monad m]

/-- Reads a file as text. -/
def readText (host : Host m) (path : Files.Path) : m (Except Failure String) := do
  return ((← host.read path).bind decodeText).mapError (Failure.unreadable path)

/-- Reads the rest of standard input as text. -/
def inputText (host : Host m) : m (Except Failure String) := do
  return (decodeText (← host.input)).mapError Failure.io

end Host

end DocCatalog
