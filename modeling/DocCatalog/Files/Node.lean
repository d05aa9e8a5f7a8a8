import DocCatalog.Language

/-!
# File trees

A node is what a name in a directory stands for. Files carry a content of any type, so the same tree
serves with and without the bytes of the files.
-/

namespace DocCatalog.Files

inductive Node (α : Type) where
  | file (content : α)
  | directory (members : List (Path × Node α))
  /-- A symbolic link with the path it leads to. -/
  | link (target : Path)
  /-- A socket, a pipe or a device. -/
  | special

namespace Node

/-- The path of a name in a directory. -/
def join (directory name : Path) : Path :=
  if directory.bytes.getLast? = some Path.slash then ⟨directory.bytes ++ name.bytes⟩
  else ⟨directory.bytes ++ Path.slash :: name.bytes⟩

mutual

/-- The files of supported languages at or below a node, each as `path` joined with the names that
lead to it. Within a directory the names ascend by their bytes, and the files of a directory stand
where its name does. Links are not followed. -/
def sources {α : Type} (path : Path) : Node α → List Path
  | file _ => if Language.isSupported path then [path] else []
  | directory members =>
    ((memberSources path members).mergeSort fun first second =>
      decide (first.1.bytes ≤ second.1.bytes)).flatMap Prod.snd
  | link _ => []
  | special => []

/-- The names of a directory with the files at or below each. -/
def memberSources {α : Type} (path : Path) : List (Path × Node α) → List (Path × List Path)
  | [] => []
  | (name, node) :: rest => (name, sources (join path name) node) :: memberSources path rest

end

mutual

/-- The tree without the contents of its files. -/
def shape {α : Type} : Node α → Node Unit
  | file _ => file ()
  | directory members => directory (memberShapes members)
  | link target => link target
  | special => special

def memberShapes {α : Type} : List (Path × Node α) → List (Path × Node Unit)
  | [] => []
  | (name, node) :: rest => (name, shape node) :: memberShapes rest

end

end Node

end DocCatalog.Files
