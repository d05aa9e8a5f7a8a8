import DocCatalog.Text.Blank
import DocCatalog.Text.Split

/-!
# Parameters and return values

The value of a `param` tag is an optional type in braces, a name, and a description. A name in
brackets is optional and may carry a default after an equals sign. The value of a `return` tag is an
optional type and a description. Both can be written back in the form they are read from.
-/

namespace DocCatalog

/-- A type in braces at the start of a text, and what follows it. Empty braces are no type. -/
def splitType? : List Char → Option (List Char × List Char)
  | '\x7b' :: text =>
    match text.takeWhile (· ≠ '\x7d'), text.dropWhile (· ≠ '\x7d') with
    | c :: more, _ :: after => some (c :: more, after)
    | _, _ => none
  | _ => none

/-- Writes a type in braces. -/
def bracedType (type : String) : List Char :=
  '\x7b' :: type.toList ++ ['\x7d']

structure Param where
  type : Option String := none
  optional : Bool := false
  name : Option String := none
  defaultValue : Option String := none
  description : Option String := none
deriving DecidableEq, Repr

namespace Param

/-- A name and a default value around the first equals sign, neither of them empty. -/
def splitDefault? (text : List Char) : Option (List Char × List Char) :=
  match text.takeWhile (· ≠ '='), text.dropWhile (· ≠ '=') with
  | c :: more, _ :: d :: value => some (c :: more, d :: value)
  | _, _ => none

/-- What stands between the brackets of an optional parameter. -/
def ofBrackets (inner : List Char) : Param :=
  match splitDefault? inner with
  | some (name, value) =>
    { optional := true
      name := some (String.ofList name)
      defaultValue := some (String.ofList value) }
  | none => { optional := true, name := some (String.ofList inner) }

/-- A name in brackets at the start of a text, and what follows it. -/
def splitBrackets? : List Char → Option (Param × List Char)
  | '[' :: text =>
    match text.takeWhile (· ≠ ']'), text.dropWhile (· ≠ ']') with
    | c :: more, _ :: after => some (ofBrackets (c :: more), after)
    | _, _ => none
  | _ => none

/-- A bare name at the start of a text, and what follows it. -/
def splitWord? (text : List Char) : Option (Param × List Char) :=
  match Text.word text with
  | [] => none
  | c :: more => some ({ name := some (String.ofList (c :: more)) }, Text.afterWord text)

/-- A name and a description. -/
def ofNamed? (text : List Char) : Option Param :=
  let text := Text.trimStart text
  (splitBrackets? text <|> splitWord? text).map fun (param, after) =>
    { param with description := Text.nonBlank? after }

/-- A type before a name and a description. -/
def ofTyped? (text : List Char) : Option Param := do
  let (type, after) ← splitType? text
  let param ← ofNamed? after
  return { param with type := some (String.ofList type) }

/-- Reads the value of a `param` tag. Braces that no name follows are themselves the name, and a
blank value is an empty description. -/
def parse (value : String) : Param :=
  let text := Text.trim value.toList
  ((ofTyped? text <|> ofNamed? text)).getD { description := some (String.ofList text) }

/-- The name as it is written, in brackets when it is optional. -/
def renderName (param : Param) (name : String) : List Char :=
  match param.defaultValue with
  | some value => '[' :: name.toList ++ '=' :: value.toList ++ [']']
  | none => if param.optional then '[' :: name.toList ++ [']'] else name.toList

/-- Writes a parameter in the form it is read from. -/
def render (param : Param) : List Char :=
  Text.joined [' ']
    ((param.type.map bracedType).toList ++ (param.name.map param.renderName).toList ++
      ((param.description.filter (· ≠ "")).map String.toList).toList)

end Param

structure ReturnValue where
  type : Option String := none
  description : Option String := none
deriving DecidableEq, Repr

namespace ReturnValue

/-- Reads the value of a `return` tag. -/
def parse (value : String) : ReturnValue :=
  let text := Text.trim value.toList
  match splitType? text with
  | some (type, after) =>
    { type := some (String.ofList type), description := Text.nonBlank? after }
  | none => { description := Text.nonBlank? text }

/-- Writes a return value in the form it is read from, with a space before each part. -/
def render (returned : ReturnValue) : List Char :=
  (returned.type.map fun type => ' ' :: bracedType type).getD [] ++
    (returned.description.map fun description => ' ' :: description.toList).getD []

end ReturnValue

end DocCatalog
