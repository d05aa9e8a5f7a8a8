import DocCatalog.Json.Writer
import DocCatalog.Namespace.Json
import DocCatalog.Outline

/-!
# Output formats
-/

namespace DocCatalog

inductive Format where
  | text
  | json
  | jsonPretty
deriving DecidableEq, Repr

namespace Format

def name : Format → String
  | text => "text"
  | json => "json"
  | jsonPretty => "json-pretty"

def ofName? (name : String) : Option Format :=
  [text, json, jsonPretty].find? fun format => format.name == name

end Format

/-- The text of a catalog in a format. Only the outline knows colour. -/
def Catalog.render (format : Format) (coloured : Bool) (catalog : Catalog) : String :=
  match format with
  | .text => Outline.render coloured catalog
  | .json => catalog.toJson.render .compact
  | .jsonPretty => catalog.toJson.render .pretty

end DocCatalog
