/-!
# Tags

A tag names what a piece of a comment says. The delimiters of a comment are tags of their own, so
that a comment becomes one run of tagged values. A tag keeps the name it was made from
(`text_ofName`), so different names give different tags.
-/

namespace DocCatalog

/-- The sorts of entity that a tag can declare while naming one. -/
inductive Kind where
  | function
  | klass
  | object
  | field
deriving DecidableEq, Repr

def Kind.name : Kind → String
  | .function => "function"
  | .klass => "class"
  | .object => "object"
  | .field => "field"

inductive Tag where
  /-- The start of a comment. -/
  | opening
  /-- The end of a comment. -/
  | closing
  /-- The text before the first tag of a comment. -/
  | description
  | name
  | kind (kind : Kind)
  | param
  | result
  | hidden
  | deprecated
  /-- The namespace that this record and the ones after it belong to. -/
  | scope
  /-- Any other name. -/
  | custom (name : String)
deriving DecidableEq, Repr

namespace Tag

/-- How the tag is written. -/
def text : Tag → String
  | opening => "/**"
  | closing => "*/"
  | description => "description"
  | name => "name"
  | kind k => k.name
  | param => "param"
  | result => "return"
  | hidden => "private"
  | deprecated => "deprecated"
  | scope => "namespace"
  | custom other => other

/-- The tags that have a meaning of their own. -/
def reserved : List Tag :=
  [opening, closing, description, name, kind .function, kind .klass, kind .object, kind .field,
   param, result, hidden, deprecated, scope]

/-- The tag of a name, which is taken literally. -/
def ofName (written : String) : Tag :=
  (reserved.find? fun tag => tag.text == written).getD (custom written)

theorem text_ofName (written : String) : (ofName written).text = written := by
  unfold ofName
  cases found : reserved.find? fun tag => tag.text == written with
  | none => rfl
  | some tag => simpa using List.find?_some found

theorem ofName_injective {first second : String} (equal : ofName first = ofName second) :
    first = second := by
  rw [← text_ofName first, equal, text_ofName]

end Tag

end DocCatalog
