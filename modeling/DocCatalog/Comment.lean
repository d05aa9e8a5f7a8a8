import DocCatalog.Comment.Decoration
import DocCatalog.Event
import DocCatalog.Source

/-!
# Comments

A comment has a description and tags. A tag starts at a marker that no backslash precedes; its name
is the word after the marker, and its value the text up to the next tag. A comment is told as a
fixed run of events: opening, its tags, its description, closing.
-/

namespace DocCatalog

structure Comment where
  /-- The text before the first marker, blanks included. -/
  description : String
  /-- Names and values in the order of the text, blanks included. -/
  tags : List (String × String)
deriving DecidableEq, Repr

namespace Comment

/-- Cuts a text at every marker that does not follow a backslash; `previous` is the character before
the text. The first part is what stands before all markers. -/
def cut (marker : Char) (previous : Option Char) : List Char → List Char × List (List Char)
  | [] => ([], [])
  | c :: rest =>
    let (first, others) := cut marker (some c) rest
    if c = marker ∧ previous ≠ some '\\' then ([], first :: others) else (c :: first, others)

/-- The tag that a part after a marker holds; there is none when no word follows the marker. -/
def tag? (part : List Char) : Option (String × String) :=
  match Text.word part with
  | [] => none
  | c :: rest => some (String.ofList (c :: rest), String.ofList (Text.afterWord part))

/-- Reads the text of a comment body whose decoration is gone. -/
def ofBare (marker : Char) (text : List Char) : Comment :=
  let (first, others) := cut marker none text
  ⟨String.ofList first, others.filterMap tag?⟩

/-- Reads the body of a comment. -/
def parse (marker : Char) (body : List Char) : Comment :=
  ofBare marker (bare body)

/-- The events of the tags, in order. -/
def tagEvents (comment : Comment) : List Event :=
  comment.tags.map fun (name, value) => Event.ofRaw name value

/-- The run of events that tells the comment. -/
def events (comment : Comment) : List Event :=
  Event.opening :: comment.tagEvents ++
    [Event.make .description comment.description, Event.closing]

end Comment

namespace Source

/-- The doc comments of a source text, in order. -/
def comments (marker : Char) (source : String) : List Comment :=
  (bodies source.toList).map (Comment.parse marker)

/-- The events of all doc comments of a source text. -/
def events (marker : Char) (source : String) : List Event :=
  (comments marker source).flatMap Comment.events

end Source

end DocCatalog
