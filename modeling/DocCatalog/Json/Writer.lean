import DocCatalog.Json
import DocCatalog.Text.Hex

/-!
# Writing JSON

One writer with two spacings. The compact one has no spaces; the pretty one has one item or member a
line, indented by two spaces a level. An empty array or object has no inner space in either.
-/

namespace DocCatalog.Json

open Text (hexDigit)

inductive Spacing where
  | compact
  | pretty
deriving DecidableEq, Repr

/-- What separates two items at a depth. -/
def Spacing.newLine : Spacing → Nat → List Char
  | compact, _ => []
  | pretty, depth => '\n' :: List.replicate (2 * depth) ' '

/-- What separates a key from its value. -/
def Spacing.colon : Spacing → List Char
  | compact => [':']
  | pretty => [':', ' ']

/-- How a character stands in a string. Only quotes, backslashes and control characters are escaped.
-/
def escapeChar (c : Char) : List Char :=
  if c = '\x22' then ['\\', '\x22']
  else if c = '\\' then ['\\', '\\']
  else if c = '\x08' then ['\\', 'b']
  else if c = '\x0c' then ['\\', 'f']
  else if c = '\n' then ['\\', 'n']
  else if c = '\r' then ['\\', 'r']
  else if c = '\t' then ['\\', 't']
  else if c.toNat < 0x20 then
    ['\\', 'u', '0', '0', hexDigit 'a' (c.toNat / 16), hexDigit 'a' (c.toNat % 16)]
  else [c]

/-- A string in quotes. -/
def quoted (text : String) : List Char :=
  '\x22' :: text.toList.flatMap escapeChar ++ ['\x22']

mutual

/-- Writes a value whose items, if it has any, stand one level below `depth`. -/
def write (spacing : Spacing) (depth : Nat) : Json → List Char
  | null => ['n', 'u', 'l', 'l']
  | boolean true => ['t', 'r', 'u', 'e']
  | boolean false => ['f', 'a', 'l', 's', 'e']
  | number text => text.toList
  | string text => quoted text
  | unpaired => ['\x22', '\\', 'u', 'd', '8', '0', '0', '\x22']
  | array [] => ['[', ']']
  | array (item :: rest) =>
    '[' :: spacing.newLine (depth + 1) ++ write spacing (depth + 1) item ++
      writeItems spacing (depth + 1) rest ++ spacing.newLine depth ++ [']']
  | object [] => ['\x7b', '\x7d']
  | object ((key, value) :: rest) =>
    '\x7b' :: spacing.newLine (depth + 1) ++ quoted key ++ spacing.colon ++
      write spacing (depth + 1) value ++ writeMembers spacing (depth + 1) rest ++
      spacing.newLine depth ++ ['\x7d']

/-- Writes the items after the first one, each after a comma. -/
def writeItems (spacing : Spacing) (depth : Nat) : List Json → List Char
  | [] => []
  | item :: rest =>
    ',' :: spacing.newLine depth ++ write spacing depth item ++ writeItems spacing depth rest

/-- Writes the members after the first one, each after a comma. -/
def writeMembers (spacing : Spacing) (depth : Nat) : List (String × Json) → List Char
  | [] => []
  | (key, value) :: rest =>
    ',' :: spacing.newLine depth ++ quoted key ++ spacing.colon ++ write spacing depth value ++
      writeMembers spacing depth rest

end

/-- The text of a value. -/
def render (spacing : Spacing) (json : Json) : String :=
  String.ofList (write spacing 0 json)

end DocCatalog.Json
