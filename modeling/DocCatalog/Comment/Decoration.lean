import DocCatalog.Text.Blank

/-!
# Comment decoration

The body of a comment is freed of what only frames it: blanks around it, one layer of delimiters,
and at the start of every line the blanks and stars that draw the left margin.
-/

namespace DocCatalog.Comment

/-- A character that belongs to the margin when it stands at the start of a line. -/
def isMargin (c : Char) : Bool :=
  Text.isBlank c || c == '*'

/-- Drops the margin of every line. A line that holds nothing else disappears with its line feed,
because the line feed is blank. `atStart` tells whether only margin was met since the last line
feed. -/
def stripMargin (atStart : Bool) : List Char → List Char
  | [] => []
  | c :: rest =>
    if atStart && isMargin c then stripMargin true rest
    else c :: stripMargin (c == '\n') rest

/-- The text without a leading `/**`. -/
def dropOpener : List Char → List Char
  | '/' :: '*' :: '*' :: rest => rest
  | text => text

/-- The text without a trailing `*/`. -/
def dropCloser (text : List Char) : List Char :=
  match text.reverse with
  | '/' :: '*' :: rest => rest.reverse
  | _ => text

/-- The text that a comment body holds. -/
def bare (body : List Char) : List Char :=
  stripMargin true (dropCloser (dropOpener (Text.trim body)))

end DocCatalog.Comment
