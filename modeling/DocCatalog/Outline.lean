import DocCatalog.Catalog
import DocCatalog.Outline.Span

/-!
# The outline of a catalog

The outline is a list of items: the header of a namespace, the header of an overload group, or the
lines of one record. Items stand in the order of the catalog, indented by their depth.
-/

namespace DocCatalog.Outline

inductive Item where
  /-- The full path of a namespace. -/
  | scope (depth : Nat) (path : String)
  /-- The name and the size of an overload group. -/
  | overloads (depth : Nat) (name : String) (count : Nat)
  /-- A record under the title it is shown with. -/
  | record (depth : Nat) (title : String) (record : Record)
deriving Repr

/-- The items of what stands under a leaf name. The records of a group stand one level deeper. -/
def entryItems (depth : Nat) (name : String) : Entry → List Item
  | .single record => [.record depth (record.name.getD "") record]
  | .overloads records =>
    .overloads depth name records.length ::
      records.map fun record => .record (depth + 1) (record.name.getD "") record

/-- The path of a child namespace. -/
def childPath (path segment : String) : String :=
  if path = "" then segment else path ++ "." ++ segment

mutual

/-- The items of a namespace: its entries, then each child under its header. -/
def spaceItems (depth : Nat) (path : String) : Namespace → List Item
  | ⟨entries, children⟩ =>
    (entries.flatMap fun entry => entryItems depth entry.1 entry.2) ++
      childItems depth path children

def childItems (depth : Nat) (path : String) : List (String × Namespace) → List Item
  | [] => []
  | (segment, child) :: rest =>
    .scope depth (childPath path segment) ::
      spaceItems (depth + 1) (childPath path segment) child ++ childItems depth path rest

end

/-- The items of a catalog. A list shows its records under their qualified names. -/
def items : Catalog → List Item
  | .tree root => spaceItems 0 "" root
  | .flat records =>
    records.map fun record => .record 0 (record.qualifiedName.getD "") record

def indent (depth : Nat) : List Char :=
  List.replicate (2 * depth) ' '

/-- A word in a style after a space. -/
def wordSpans (style : Style) (word : String) : List Span :=
  [.plain [' '], .styled style word.toList]

/-- The declared kinds of a record in parentheses after a space. -/
def kindsText (record : Record) : List Char :=
  match record.kinds with
  | [] => []
  | kind :: kinds =>
    ' ' :: '(' :: (", ".intercalate ((kind :: kinds).map Kind.name)).toList ++ [')']

/-- The first line of a record: title, kinds and marks. -/
def headerLine (depth : Nat) (title : String) (record : Record) : List Span :=
  [.plain (indent depth), .styled .entity title.toList, .plain (kindsText record)] ++
    (if record.isPrivate then wordSpans .hidden "private" else []) ++
    (if record.isDeprecated then wordSpans .deprecated "deprecated" else [])

/-- A line below the header of a record. -/
def detailLine (depth : Nat) (style : Style) (head rest : List Char) : List Span :=
  [.plain (indent (depth + 1)), .styled style head, .plain rest]

/-- All lines of a record. -/
def recordLines (depth : Nat) (title : String) (record : Record) : List (List Span) :=
  headerLine depth title record ::
    ((Text.lines record.description.toList).map fun line => detailLine depth .faint line []) ++
    (record.params.map fun param =>
      detailLine depth .label "param".toList (' ' :: param.render)) ++
    (record.result.map fun returned =>
      detailLine depth .label "returns".toList returned.render).toList ++
    record.custom.table.flatMap fun entry =>
      entry.2.map fun value =>
        detailLine depth .customTag ('@' :: entry.1.toList) (' ' :: value.toList)

def Item.lines : Item → List (List Span)
  | scope depth path => [[.plain (indent depth), .styled .scope path.toList]]
  | overloads depth name count =>
    [[.plain (indent depth), .styled .entity name.toList, .plain [' '],
      .styled .faint (s!"({count} overloads)").toList]]
  | record depth title entity => recordLines depth title entity

/-- The line that stands for an outline without items. -/
def nothingLine : List Span :=
  [.styled .faint "No documented entities found".toList]

/-- The lines of an outline. After the items there is a blank line and the number of records. -/
def lines (catalog : Catalog) : List (List Span) :=
  match items catalog with
  | [] => [nothingLine]
  | item :: rest =>
    (item :: rest).flatMap Item.lines ++
      [[], [.plain (s!"{catalog.size} entities").toList]]

/-- The outline of a catalog as text. -/
def render (coloured : Bool) (catalog : Catalog) : String :=
  String.ofList ((lines catalog).flatMap (renderLine coloured))

end DocCatalog.Outline
