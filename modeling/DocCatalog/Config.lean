import DocCatalog.Format
import DocCatalog.Host
import DocCatalog.Toml.Reader

/-!
# Configuration

The settings of a run and the file that keeps them.
-/

namespace DocCatalog

structure Config where
  /-- The character that starts a tag. -/
  marker : Char := '@'
  layout : Layout := .tree
  format : Format := .json
deriving DecidableEq, Repr

namespace Config

open Text (hexDigit)

/-- The file that is read when it is there and no other is named. -/
def defaultPath : String := "emmett.toml"

/-- The characters that comments and strings need for themselves. -/
def reserved : List Char := ['*', '/', '\\', '\x22', '\x27']

/-- Whether a marker can be told from comment syntax. -/
def isMarker (c : Char) : Bool :=
  !Text.isBlank c && !reserved.contains c

/-- The configuration, if its marker can be told from comment syntax. -/
def validate (config : Config) : Except Failure Config :=
  if isMarker config.marker then .ok config else .error (.badMarker config.marker)

theorem validate_eq_ok_iff {config : Config} :
    config.validate = .ok config ↔ isMarker config.marker = true := by
  unfold validate
  split
  case isTrue accepted => exact iff_of_true rfl accepted
  case isFalse refused => exact iff_of_false nofun refused

/-- A character as a TOML string: in single quotes where that avoids an escape, and a line feed on a
line of its own. -/
def quotedChar (c : Char) : List Char :=
  if c = '\x22' ∨ c = '\\' then ['\x27', c, '\x27']
  else if c = '\n' then "\x22\x22\x22\n\n\x22\x22\x22".toList
  else
    let inner :=
      if c = '\x08' then ['\\', 'b']
      else if c = '\t' then ['\\', 't']
      else if c = '\x0c' then ['\\', 'f']
      else if c = '\r' then ['\\', 'r']
      else if c.toNat < 0x20 ∨ c.toNat = 0x7F then
        ['\\', 'u', '0', '0', hexDigit 'A' (c.toNat / 16), hexDigit 'A' (c.toNat % 16)]
      else [c]
    '\x22' :: inner ++ ['\x22']

/-- The text of the configuration file. -/
def render (config : Config) : String :=
  String.ofList ("tag_marker = ".toList ++ quotedChar config.marker ++
    "\nlayout = \x22".toList ++ config.layout.name.toList ++
    "\x22\nformat = \x22".toList ++ config.format.name.toList ++ "\x22\n".toList)

/-- A string of one character. -/
def readChar? : Toml.Value → Option Char
  | .string text =>
    match text.toList with
    | [c] => some c
    | _ => none
  | _ => none

/-- Whether a value holds nothing, so that it can stand beside a bare name. -/
def isVoid : Toml.Value → Bool
  | .array [] => true
  | .table _ [] => true
  | _ => false

/-- One of several names: a string, or a table with the name as its only key and nothing in it. -/
def readChoice? {α : Type} (ofName? : String → Option α) : Toml.Value → Option α
  | .string name => ofName? name
  | .table _ [(name, content)] => if isVoid content then ofName? name else none
  | _ => none

/-- A setting that may be missing. -/
def readSetting? {α : Type} (key : String) (absent : α) (read? : Toml.Value → Option α)
    (members : Toml.Members) : Option α :=
  match members.lookup key with
  | none => some absent
  | some value => read? value

/-- Reads the settings of a document. Other keys are ignored. -/
def ofToml? (members : Toml.Members) : Option Config := do
  let default : Config := {}
  return {
    marker := ← readSetting? "tag_marker" default.marker readChar? members
    layout := ← readSetting? "layout" default.layout (readChoice? Layout.ofName?) members
    format := ← readSetting? "format" default.format (readChoice? Format.ofName?) members }

/-- Reads the text of a configuration file at a path. -/
def parse (path : Files.Path) (text : String) : Except Failure Config :=
  match (Toml.read? text).bind ofToml? with
  | none => .error (.badConfig path)
  | some config => config.validate

variable {m : Type → Type} [Monad m]

/-- Reads a configuration file. -/
def load (host : Host m) (path : Files.Path) : m (Except Failure Config) := do
  return (← host.readText path).bind (parse path)

/-- Writes a configuration file. -/
def save (host : Host m) (path : Files.Path) (config : Config) : m (Except Failure Unit) := do
  return (← host.write path config.render).mapError Failure.io

end Config

end DocCatalog
