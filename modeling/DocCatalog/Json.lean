/-!
# JSON values

An object is a list of members, so their order is part of the value.
-/

namespace DocCatalog

inductive Json where
  | null
  | boolean (value : Bool)
  /-- A number as it is written. -/
  | number (text : String)
  | string (text : String)
  /-- A string, or an object with a key, in which an escape names half of a surrogate pair. The
  grammar allows it, but it stands for no text. -/
  | unpaired
  | array (items : List Json)
  | object (members : List (String × Json))
deriving Repr

namespace Json

/-- The value of a member. -/
def member? (key : String) : Json → Option Json
  | object members => (members.find? fun entry => entry.1 == key).map Prod.snd
  | _ => none

end Json

end DocCatalog
