import DocCatalog.Tag
import DocCatalog.Text.Blank

/-!
# Events

An event is a tag with its value. The listing prints one event a line.
-/

namespace DocCatalog

structure Event where
  tag : Tag
  value : String
deriving DecidableEq, Repr

namespace Event

/-- An event whose value loses the blanks around it. -/
def make (tag : Tag) (value : String) : Event :=
  ⟨tag, Text.trimmed value⟩

/-- The event of a tag as it stands in a comment; name and value lose the blanks around them. -/
def ofRaw (name value : String) : Event :=
  make (Tag.ofName (Text.trimmed name)) value

def opening : Event := ⟨.opening, ""⟩

def closing : Event := ⟨.closing, ""⟩

/-- Writes every line feed as a backslash and an `n`. -/
def escapeLineFeeds : List Char → List Char
  | [] => []
  | c :: rest =>
    if c = '\n' then '\\' :: 'n' :: escapeLineFeeds rest else c :: escapeLineFeeds rest

/-- The event on a line: tag, tabulator, value. -/
def line (event : Event) : List Char :=
  event.tag.text.toList ++ '\t' :: escapeLineFeeds event.value.toList ++ ['\n']

/-- One line for each event. -/
def listing (events : List Event) : String :=
  String.ofList (events.flatMap line)

end Event

end DocCatalog
