import DocCatalog.Catalog
import DocCatalog.Comment

/-!
# Building a catalog

A builder folds events into a catalog. Between the opening and the closing event of a comment it
holds an open record; the closing event commits the record under its qualified name, or discards it
when it has no usable name. The namespace stays in force until a tag replaces it, also across
comments.
-/

namespace DocCatalog

structure Builder where
  /-- The namespace in force. -/
  scope : String
  /-- The record of the comment that is open. -/
  current : Option Record
  catalog : Catalog
  committed : Nat
  discarded : Nat
deriving Repr

namespace Builder

def start (layout : Layout) : Builder :=
  ⟨"", none, Catalog.empty layout, 0, 0⟩

/-- The place of a name in a namespace: the segments of both, the last one apart. There is none when
both hold dots only. -/
def place? (scope name : String) : Option (List String × String) :=
  let path := Text.segments (scope ++ "." ++ name)
  path.getLast?.map fun leaf => (path.dropLast, leaf)

/-- The place of a record, if it has a usable name. -/
def placeOf? (scope : String) (record : Record) : Option (List String × String) :=
  if record.isNamed then place? scope (record.name.getD "") else none

/-- Ends the open record, if there is one. -/
def commit (builder : Builder) : Builder :=
  match builder.current with
  | none => builder
  | some record =>
    match placeOf? builder.scope record with
    | none => { builder with current := none, discarded := builder.discarded + 1 }
    | some (path, leaf) =>
      let placed := { record with name := some leaf, scope := Text.dotted path }
      { builder with
        current := none
        catalog := builder.catalog.add path leaf placed
        committed := builder.committed + 1 }

/-- Takes one event. What a record needs is ignored while none is open. -/
def step (builder : Builder) (event : Event) : Builder :=
  match event.tag with
  | .opening => { builder with current := some {} }
  | .closing => builder.commit
  | .scope => { builder with scope := event.value }
  | tag =>
    { builder with current := builder.current.map fun record => record.apply tag event.value }

/-- Takes a run of events. -/
def run (builder : Builder) (events : List Event) : Builder :=
  events.foldl step builder

/-- Takes a source text. -/
def scan (builder : Builder) (marker : Char) (source : String) : Builder :=
  builder.run (Source.events marker source)

/-- The catalog of what was committed. -/
def finish (builder : Builder) : Catalog :=
  builder.catalog.sorted

end Builder

/-- The catalog of a source text. -/
def Catalog.ofSource (marker : Char) (layout : Layout) (source : String) : Catalog :=
  ((Builder.start layout).scan marker source).finish

end DocCatalog
