import DocCatalog.Json.Reader
import DocCatalog.Json.Writer
import DocCatalog.Namespace

/-!
# Records as JSON

The object of a record has its fields in a fixed order and then the custom tags by name. What is
unset, false or empty is left out, the namespace and the description apart. Reading takes the
members in any order, refuses a field that stands twice, and takes every other member for a custom
tag.
-/

namespace DocCatalog

/-- A member that is written only when there is a value. -/
def optionalText (key : String) (value : Option String) : List (String × Json) :=
  (value.map fun text => (key, Json.string text)).toList

/-- A member that is written only when it is true. -/
def flag (key : String) (value : Bool) : List (String × Json) :=
  if value then [(key, .boolean true)] else []

def textArray (texts : List String) : Json :=
  .array (texts.map Json.string)

/-- Reads a member that may be missing but may not stand twice. -/
def readMember? {α : Type} (key : String) (absent : α) (read? : Json → Option α)
    (members : List (String × Json)) : Option α :=
  match members.filter fun entry => entry.1 == key with
  | [] => some absent
  | [entry] => read? entry.2
  | _ => none

def readText? : Json → Option String
  | .string text => some text
  | _ => none

/-- A text or null. -/
def readNullableText? : Json → Option (Option String)
  | .null => some none
  | .string text => some (some text)
  | _ => none

def readBoolean? : Json → Option Bool
  | .boolean value => some value
  | _ => none

def readArray? {α : Type} (readItem? : Json → Option α) : Json → Option (List α)
  | .array items => items.mapM readItem?
  | _ => none

/-- The members of an object, or of an array that lists the values of the fields in order. -/
def readFields? (keys : List String) : Json → Option (List (String × Json))
  | .object members => some members
  | .array items => if items.length ≤ keys.length then some (keys.zip items) else none
  | _ => none

namespace Param

def toJson (param : Param) : Json :=
  .object (optionalText "type" param.type ++ [("optional", .boolean param.optional)] ++
    optionalText "name" param.name ++ optionalText "defaultValue" param.defaultValue ++
    optionalText "description" param.description)

/-- Reads a parameter; members of other names are ignored. -/
def ofJson? (json : Json) : Option Param := do
  let members ← readFields? ["type", "optional", "name", "defaultValue", "description"] json
  return {
    type := ← readMember? "type" none readNullableText? members
    optional := ← readMember? "optional" false readBoolean? members
    name := ← readMember? "name" none readNullableText? members
    defaultValue := ← readMember? "defaultValue" none readNullableText? members
    description := ← readMember? "description" none readNullableText? members }

end Param

namespace ReturnValue

def toJson (returned : ReturnValue) : Json :=
  .object (optionalText "type" returned.type ++ optionalText "description" returned.description)

/-- Reads a return value; members of other names are ignored. -/
def ofJson? (json : Json) : Option ReturnValue := do
  let members ← readFields? ["type", "description"] json
  return {
    type := ← readMember? "type" none readNullableText? members
    description := ← readMember? "description" none readNullableText? members }

/-- A return value or null. -/
def ofNullableJson? : Json → Option (Option ReturnValue)
  | .null => some none
  | json => (ofJson? json).map some

end ReturnValue

namespace Record

/-- The keys that are fields of a record. -/
def fieldKeys : List String :=
  ["name", "namespace", "function", "class", "object", "field", "description", "param", "return",
   "private", "deprecated"]

/-- The members of a record that are not custom tags. -/
def fields (record : Record) : List (String × Json) :=
  optionalText "name" record.name ++ [("namespace", .string record.scope)] ++
    flag "function" record.isFunction ++ flag "class" record.isClass ++
    flag "object" record.isObject ++ flag "field" record.isField ++
    [("description", .string record.description)] ++
    (if record.params = [] then [] else [("param", .array (record.params.map Param.toJson))]) ++
    (record.result.map fun returned => ("return", returned.toJson)).toList ++
    flag "private" record.isPrivate ++ flag "deprecated" record.isDeprecated

/-- The members of a record in the order in which they are written. -/
def members (record : Record) : List (String × Json) :=
  record.fields ++ record.custom.table.map fun entry => (entry.1, textArray entry.2)

def toJson (record : Record) : Json :=
  .object record.members

/-- Reads the custom tags; of two members with one name the last one counts. -/
def readCustom? :
    List (String × Json) → Dictionary (List String) → Option (Dictionary (List String))
  | [], custom => some custom
  | (key, json) :: rest, custom => do
    let values ← readArray? readText? json
    readCustom? rest (custom.alter key fun _ => values)

def ofMembers? (members : List (String × Json)) : Option Record := do
  return {
    name := ← readMember? "name" none readNullableText? members
    scope := ← readMember? "namespace" "" readText? members
    isFunction := ← readMember? "function" false readBoolean? members
    isClass := ← readMember? "class" false readBoolean? members
    isObject := ← readMember? "object" false readBoolean? members
    isField := ← readMember? "field" false readBoolean? members
    description := ← readMember? "description" "" readText? members
    params := ← readMember? "param" [] (readArray? Param.ofJson?) members
    result := ← readMember? "return" none ReturnValue.ofNullableJson? members
    isPrivate := ← readMember? "private" false readBoolean? members
    isDeprecated := ← readMember? "deprecated" false readBoolean? members
    custom := ← readCustom? (members.filter fun entry => !fieldKeys.contains entry.1) .empty }

def ofJson? : Json → Option Record
  | .object members => ofMembers? members
  | _ => none

/-- Reads the text of a record. -/
def read? (text : String) : Option Record :=
  (Json.read? text).bind ofJson?

end Record

namespace Entry

/-- A record is an object, an overload group an array of them. -/
def toJson : Entry → Json
  | single record => record.toJson
  | overloads records => .array (records.map Record.toJson)

def ofJson? : Json → Option Entry
  | .object members => (Record.ofMembers? members).map single
  | .array items => (items.mapM Record.ofJson?).map overloads
  | _ => none

/-- How deep the text of an entry may nest. -/
def maxNesting : Nat := 127

/-- Reads the text of an entry. Also what its records ignore must fit, because the shape of the
entry is only known when all of it was read. -/
def read? (text : String) : Option Entry :=
  (Json.read? text).bind fun json => if json.fits maxNesting then ofJson? json else none

end Entry

end DocCatalog
