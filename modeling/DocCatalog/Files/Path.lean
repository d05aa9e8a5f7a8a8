import DocCatalog.Text.Bytes

/-!
# Paths

A path is a sequence of bytes, and so is the name of a file: a path without slashes. Nothing says
that the bytes are UTF-8. A text stands for the path of its bytes.
-/

namespace DocCatalog.Files

@[ext]
structure Path where
  bytes : List UInt8
deriving DecidableEq, Repr

namespace Path

def ofText (text : String) : Path := ⟨Text.bytes text⟩

instance : Coe String Path := ⟨ofText⟩

/-- What a path looks like in a message. -/
def shown (path : Path) : String := Text.shown path.bytes

def slash : UInt8 := '/'.toUInt8

def dot : UInt8 := '.'.toUInt8

def empty : Path := ⟨[]⟩

/-- The name by which a directory stands for itself. -/
def self : Path := ⟨[dot]⟩

/-- The name by which a directory stands for the one it is in. -/
def parent : Path := ⟨[dot, dot]⟩

end Path

end DocCatalog.Files
