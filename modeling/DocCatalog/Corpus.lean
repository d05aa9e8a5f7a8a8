import DocCatalog.Host

/-!
# The corpus of a run

All inputs become one text, in the order in which they are named, so that one scan sees them as one
stream. A path is a file, a directory that is searched for supported files, or `-` for standard
input, which is also read when nothing is named.
-/

namespace DocCatalog.Corpus

/-- Adds a text after the ones before; a line feed separates it from a text that is not empty. -/
def append (buffer chunk : String) : String :=
  if buffer = "" then chunk else buffer ++ "\n" ++ chunk

/-- The text that several texts become. -/
def join (chunks : List String) : String :=
  chunks.foldl append ""

/-- The path that stands for standard input. -/
def inputPath : Files.Path := "-"

variable {m : Type → Type} [Monad m]

/-- Runs over a list and stops at the first failure. -/
def collect {α β : Type} (visit : α → m (Except Failure β)) : List α → m (Except Failure (List β))
  | [] => return .ok []
  | item :: rest => do
    match ← visit item with
    | .error failure => return .error failure
    | .ok result => return (← collect visit rest).map (result :: ·)

/-- The texts that one path stands for. -/
def readPath (host : Host m) (path : Files.Path) : m (Except Failure (List String)) := do
  if path = inputPath then
    return (← host.inputText).map fun text => [text]
  else
    match ← host.look path with
    | some (.directory members) =>
      collect host.readText (Files.Node.sources path (.directory members))
    | some (.file _) | none => return (← host.readText path).map fun text => [text]
    | some _ => return .error (.unsupported path)

/-- The text of all inputs. -/
def gather (host : Host m) : List String → m (Except Failure String)
  | [] => host.inputText
  | path :: rest => do
    let visit (path : String) := readPath host (.ofText path)
    return (← collect visit (path :: rest)).map fun chunks => join chunks.flatten

end DocCatalog.Corpus
