import DocCatalog.Param
import DocCatalog.Table
import DocCatalog.Tag
import DocCatalog.Text.LowerCase

/-!
# Records

A record holds what one comment says about an entity.
-/

namespace DocCatalog

structure Record where
  name : Option String := none
  /-- The dotted path of the namespace, empty at the root. -/
  scope : String := ""
  isFunction : Bool := false
  isClass : Bool := false
  isObject : Bool := false
  isField : Bool := false
  description : String := ""
  params : List Param := []
  result : Option ReturnValue := none
  isPrivate : Bool := false
  isDeprecated : Bool := false
  /-- The values of the tags without a field of their own, in the order of the comment. -/
  custom : Dictionary (List String) := .empty
deriving DecidableEq, Repr

namespace Record

/-- A name that is there but empty does not count. -/
def isNamed (record : Record) : Bool :=
  match record.name with
  | none => false
  | some name => name != ""

/-- The name with the path of the namespace before it. -/
def qualifiedName (record : Record) : Option String :=
  record.name.map fun name => if record.scope = "" then name else record.scope ++ "." ++ name

/-- The key that orders records without regard to case. It has a dot before the name even at the
root. -/
def sortKey (record : Record) : String :=
  Text.lowerCase (record.scope ++ "." ++ record.name.getD "")

/-- The values of a custom tag. -/
def tagValues (record : Record) (tag : String) : List String :=
  (record.custom.get? tag).getD []

def hasKind (record : Record) : Kind → Bool
  | .function => record.isFunction
  | .klass => record.isClass
  | .object => record.isObject
  | .field => record.isField

/-- The kinds that were declared, in a fixed order. -/
def kinds (record : Record) : List Kind :=
  [Kind.function, .klass, .object, .field].filter record.hasKind

/-- Declares a kind. -/
def setKind (record : Record) : Kind → Record
  | .function => { record with isFunction := true }
  | .klass => { record with isClass := true }
  | .object => { record with isObject := true }
  | .field => { record with isField := true }

/-- Adds a value of a custom tag after the ones before. -/
def addCustom (record : Record) (tag value : String) : Record :=
  { record with custom := record.custom.alter tag fun values => values.getD [] ++ [value] }

/-- Takes over what a tag says. A tag that names the entity replaces an earlier name, and a custom
tag without a name or a value says nothing. -/
def apply (record : Record) (tag : Tag) (value : String) : Record :=
  match tag with
  | .name => { record with name := some value }
  | .kind kind => { record.setKind kind with name := some value }
  | .description => { record with description := value }
  | .param => { record with params := record.params ++ [Param.parse value] }
  | .result => { record with result := some (ReturnValue.parse value) }
  | .hidden => { record with isPrivate := true }
  | .deprecated => { record with isDeprecated := true }
  | .custom name => if name = "" ∨ value = "" then record else record.addCustom name value
  | .opening | .closing | .scope => record

end Record

end DocCatalog
