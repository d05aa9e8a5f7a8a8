import DocCatalog.Files.Path
import DocCatalog.Text.Split

/-!
# Languages

The languages whose sources carry doc comments, told from the extension of a file name.
-/

namespace DocCatalog

inductive Language where
  | javaScript
  | typeScript
  | java
  | kotlin
  | scala
  | cSharp
  | php
  | go
  | rust
  | c
  | cpp
deriving DecidableEq, Repr

namespace Language

def all : List Language :=
  [javaScript, typeScript, java, kotlin, scala, cSharp, php, go, rust, c, cpp]

def name : Language → String
  | javaScript => "JavaScript"
  | typeScript => "TypeScript"
  | java => "Java"
  | kotlin => "Kotlin"
  | scala => "Scala"
  | cSharp => "CSharp"
  | php => "Php"
  | go => "Go"
  | rust => "Rust"
  | c => "C"
  | cpp => "Cpp"

/-- The extensions of a language, in lower case. -/
def extensions : Language → List String
  | javaScript => ["js", "jsx", "mjs", "cjs"]
  | typeScript => ["ts", "tsx", "mts", "cts"]
  | java => ["java"]
  | kotlin => ["kt", "kts"]
  | scala => ["scala"]
  | cSharp => ["cs"]
  | php => ["php"]
  | go => ["go"]
  | rust => ["rs"]
  | c => ["c", "h"]
  | cpp => ["cpp", "cc", "cxx", "hpp", "hh", "hxx"]

/-- The last name of a path. Slashes at the end and single dots do not count, and a path to a parent
has no name. -/
def fileName? (path : Files.Path) : Option Files.Path :=
  let names := (Text.pieces Files.Path.slash path.bytes).map Files.Path.mk
  (names.filter fun name => name ≠ .empty ∧ name ≠ .self).getLast?.filter (· ≠ .parent)

/-- What follows the last dot of a file name, unless that dot is its first character. -/
def extension? (path : Files.Path) : Option (List UInt8) :=
  (fileName? path).bind fun name =>
    match Text.lastSplit? Files.Path.dot name.bytes with
    | some (_ :: _, extension) => some extension
    | _ => none

/-- The language of a file by its path. An extension that is not UTF-8 tells none, and the case of
ASCII letters does not count. -/
def ofPath? (path : Files.Path) : Option Language := do
  let extension ← Text.ofBytes? (← extension? path)
  all.find? fun language => language.extensions.contains extension.toLower

/-- Whether a file is read when a directory is searched. -/
def isSupported (path : Files.Path) : Bool :=
  (ofPath? path).isSome

end Language

end DocCatalog
