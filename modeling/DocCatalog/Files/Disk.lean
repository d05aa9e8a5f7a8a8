import DocCatalog.Files.Fault
import DocCatalog.Files.Node

/-!
# A file system in memory

A disk is the root directory of a tree of files. Paths are resolved name by name: links are followed
on the way, at most forty of them, and every name but the last must lead to a directory. A name and
a path have a greatest size.
-/

namespace DocCatalog.Files

structure Disk where
  root : List (Path × Node ByteArray)

namespace Disk

def empty : Disk := ⟨[]⟩

/-- The names of a path. An empty last name tells that the path ends in a slash. -/
def names (path : Path) : List Path :=
  let parts := Text.pieces Path.slash path.bytes
  ((parts.dropLast.filter (· ≠ [])) ++ [parts.getLastD []]).map Path.mk

/-- What a path without links leads to. -/
def nodeAt? : List Path → Node ByteArray → Option (Node ByteArray)
  | [], node => some node
  | name :: rest, .directory members => (members.lookup name).bind (nodeAt? rest)
  | _ :: _, _ => none

/-- What becomes of the last name of a path. -/
inductive Ending where
  /-- A link is followed. -/
  | follow
  /-- A link is what is looked for. -/
  | keep
  /-- A link is followed, and the name may be missing. -/
  | create
deriving DecidableEq

/-- How many links a path may lead over. -/
def maxLinks : Nat := 40

/-- How many bytes a name may have. -/
def maxNameSize : Nat := 255

/-- How many bytes a path may have. -/
def maxPathSize : Nat := 4095

/-- Resolves the names of a path from a directory on, which is itself given by the names that lead
to it without links. -/
def resolve (root : Node ByteArray) (ending : Ending) :
    Nat → List Path → List Path → Except Fault (List Path)
  | _, [], here => .ok here
  | links, name :: rest, here =>
    match nodeAt? here root with
    | some (.directory members) =>
      if name = .empty ∨ name = .self then resolve root ending links rest here
      else if name = .parent then resolve root ending links rest here.dropLast
      else if ending = .create ∧ rest = [.empty] then .error .isDirectory
      else if maxNameSize < name.bytes.length then .error .nameTooLong
      else
        match members.lookup name with
        | none =>
          if ending = .create ∧ rest = [] then .ok (here ++ [name]) else .error .notFound
        | some (.link target) =>
          if ending = .keep ∧ rest = [] then .ok (here ++ [name])
          else
            match links with
            | 0 => .error .linkLoop
            | fewer + 1 => resolve root ending fewer (names target ++ rest) here
        | some _ => resolve root ending links rest (here ++ [name])
    | _ => .error .notDirectory
termination_by links todo => (links, todo.length)

/-- The place of a path. -/
def locate (disk : Disk) (ending : Ending) (path : Path) : Except Fault (List Path) :=
  if 0 ∈ path.bytes then .error .nulInName
  else if path = .empty then .error .notFound
  else if maxPathSize < path.bytes.length then .error .nameTooLong
  else resolve (.directory disk.root) ending maxLinks (names path) []

/-- What stands at a path. -/
def find (disk : Disk) (ending : Ending) (path : Path) : Except Fault (Node ByteArray) := do
  let place ← disk.locate ending path
  match nodeAt? place (.directory disk.root) with
  | some node => return node
  | none => throw .notFound

/-- The bytes of a file. -/
def read (disk : Disk) (path : Path) : Except Fault ByteArray := do
  match ← disk.find .follow path with
  | .file content => return content
  | .directory _ => throw .isDirectory
  | .special => throw .noDevice
  | .link _ => throw .linkLoop

/-- Replaces the member of a name, or adds it. -/
def setMember (name : Path) (node : Node ByteArray) :
    List (Path × Node ByteArray) → List (Path × Node ByteArray)
  | [] => [(name, node)]
  | (other, old) :: rest =>
    if other = name then (name, node) :: rest else (other, old) :: setMember name node rest

/-- Puts a node at a place, making the directories on the way that are missing. -/
def put (node : Node ByteArray) : List Path → Node ByteArray → Node ByteArray
  | [], _ => node
  | name :: rest, .directory members =>
    .directory (setMember name (put node rest ((members.lookup name).getD (.directory []))) members)
  | _ :: _, other => other

/-- The disk with a node at a place. -/
def set (disk : Disk) (place : List Path) (node : Node ByteArray) : Disk :=
  match put node place (.directory disk.root) with
  | .directory members => ⟨members⟩
  | _ => disk

/-- Adds a node under a relative path without following links. A directory that is there already
stays. -/
def add (disk : Disk) (path : Path) (node : Node ByteArray) : Disk :=
  let place := (names path).filter fun name => name ≠ .empty ∧ name ≠ .self
  match node, nodeAt? place (.directory disk.root) with
  | .directory _, some (.directory _) => disk
  | _, _ => disk.set place node

/-- Writes a file, which may be new. -/
def write (disk : Disk) (path : Path) (content : ByteArray) : Except Fault Disk := do
  let place ← disk.locate .create path
  match nodeAt? place (.directory disk.root) with
  | some (.directory _) => throw .isDirectory
  | some .special => throw .noDevice
  | _ => return disk.set place (.file content)

/-- The supported files at or below a path. A link to a directory is followed when it is the path
itself; any other link leads to nothing. -/
def search (disk : Disk) (path : Path) : List Path :=
  match disk.find .keep path with
  | .ok (.link _) =>
    match disk.find .follow path with
    | .ok (.directory members) => Node.sources path (.directory members)
    | _ => []
  | .ok node => node.sources path
  | .error _ => []

/-- What a search from the path of a text finds, as it is shown. -/
def sources (disk : Disk) (path : String) : List String :=
  (disk.search path).map Path.shown

end Disk

end DocCatalog.Files
