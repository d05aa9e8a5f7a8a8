import DocCatalog.Json
import DocCatalog.Json.Scaled
import DocCatalog.Text.Hex

/-!
# Reading JSON

The reader accepts the JSON grammar strictly: no trailing comma, no comment, no byte order mark, no
raw control character in a string, and nothing but spaces around the value. It sets no limit to the
nesting; `fits` says whether a value keeps a limit, and whether it can be handed on without loss.
-/

namespace DocCatalog.Json

open Text (hexUnit?)

def isSpace (c : Char) : Bool :=
  c = ' ' || c = '\t' || c = '\n' || c = '\r'

def skipSpace (text : List Char) : List Char :=
  text.dropWhile isSpace

def isHighSurrogate (unit : Nat) : Bool :=
  0xD800 ≤ unit && unit < 0xDC00

def isLowSurrogate (unit : Nat) : Bool :=
  0xDC00 ≤ unit && unit < 0xE000

/-- The character of a surrogate pair. -/
def pairChar (high low : Nat) : Char :=
  Char.ofNat (0x10000 + 0x400 * (high - 0xD800) + (low - 0xDC00))

/-- The character that stands for a one-letter escape. -/
def simpleEscape? (c : Char) : Option Char :=
  if c = '\x22' then some '\x22'
  else if c = '\\' then some '\\'
  else if c = '/' then some '/'
  else if c = 'b' then some '\x08'
  else if c = 'f' then some '\x0c'
  else if c = 'n' then some '\n'
  else if c = 'r' then some '\r'
  else if c = 't' then some '\t'
  else none

/-- The low surrogate that an escape at the start of a text names, and what follows the escape. -/
def lowEscape? : List Char → Option Nat
  | '\\' :: 'u' :: a :: b :: c :: d :: _ => (hexUnit? a b c d).filter isLowSurrogate
  | _ => none

/-- Reads a string whose opening quote was just passed: its content and what follows it. The content
is missing when an escape names a lone surrogate. `high` is the high surrogate that was passed last
if its partner comes next. -/
def stringBody (high : Option Nat) : List Char → Option (Option (List Char) × List Char)
  | [] => none
  | '\x22' :: rest => some (some [], rest)
  | '\\' :: 'u' :: a :: b :: c :: d :: rest =>
    match hexUnit? a b c d, high with
    | none, _ => none
    | some unit, some first =>
      (stringBody none rest).map fun (content, after) =>
        (content.map (pairChar first unit :: ·), after)
    | some unit, none =>
      if isHighSurrogate unit then
        if (lowEscape? rest).isSome then stringBody (some unit) rest
        else (stringBody none rest).map fun (_, after) => (none, after)
      else if isLowSurrogate unit then
        (stringBody none rest).map fun (_, after) => (none, after)
      else
        (stringBody none rest).map fun (content, after) =>
          (content.map (Char.ofNat unit :: ·), after)
  | '\\' :: c :: rest =>
    match simpleEscape? c with
    | none => none
    | some char =>
      (stringBody none rest).map fun (content, after) => (content.map (char :: ·), after)
  | c :: rest =>
    if c = '\\' ∨ c.toNat < 0x20 then none
    else (stringBody none rest).map fun (content, after) => (content.map (c :: ·), after)

/-- A non-empty run of digits and what follows it. -/
def digits? (text : List Char) : Option (List Char × List Char) :=
  match text.takeWhile Char.isDigit with
  | [] => none
  | run => some (run, text.dropWhile Char.isDigit)

/-- Digits without a needless zero in front. -/
def whole? : List Char → Option (List Char × List Char)
  | '0' :: rest => some (['0'], rest)
  | text => digits? text

/-- An optional point with digits. -/
def fraction? : List Char → Option (List Char × List Char)
  | '.' :: rest => (digits? rest).map fun (run, after) => ('.' :: run, after)
  | text => some ([], text)

/-- An optional exponent. -/
def exponent? : List Char → Option (List Char × List Char)
  | e :: rest =>
    if e = 'e' ∨ e = 'E' then
      match rest with
      | '+' :: more => (digits? more).map fun (run, after) => (e :: '+' :: run, after)
      | '-' :: more => (digits? more).map fun (run, after) => (e :: '-' :: run, after)
      | more => (digits? more).map fun (run, after) => (e :: run, after)
    else some ([], e :: rest)
  | [] => some ([], [])

/-- A number without a sign. -/
def magnitude? (text : List Char) : Option (List Char × List Char) := do
  let (whole, text) ← whole? text
  let (fraction, text) ← fraction? text
  let (exponent, text) ← exponent? text
  return (whole ++ fraction ++ exponent, text)

def number? : List Char → Option (List Char × List Char)
  | '-' :: rest => (magnitude? rest).map fun (numeral, after) => ('-' :: numeral, after)
  | text => magnitude? text

/-- The value of a string whose content may be missing. -/
def ofContent : Option (List Char) → Json
  | some content => string (String.ofList content)
  | none => unpaired

/-- The object of members whose keys may be missing. -/
def ofMembers (members : List (Option (List Char) × Json)) : Json :=
  match members.mapM fun (key, value) => key.map fun text => (String.ofList text, value) with
  | some complete => object complete
  | none => unpaired

mutual

/-- Reads a value and says what follows it. -/
def readValue : Nat → List Char → Option (Json × List Char)
  | 0, _ => none
  | fuel + 1, text =>
    match skipSpace text with
    | '\x22' :: rest =>
      (stringBody none rest).map fun (content, after) => (ofContent content, after)
    | '[' :: rest =>
      match skipSpace rest with
      | ']' :: after => some (array [], after)
      | inner => (readItems fuel inner).map fun (items, after) => (array items, after)
    | '\x7b' :: rest =>
      match skipSpace rest with
      | '\x7d' :: after => some (object [], after)
      | inner => (readMembers fuel inner).map fun (members, after) => (ofMembers members, after)
    | 'n' :: 'u' :: 'l' :: 'l' :: after => some (null, after)
    | 't' :: 'r' :: 'u' :: 'e' :: after => some (boolean true, after)
    | 'f' :: 'a' :: 'l' :: 's' :: 'e' :: after => some (boolean false, after)
    | other => (number? other).map fun (numeral, after) => (number (String.ofList numeral), after)

/-- Reads one or more items up to the closing bracket. -/
def readItems : Nat → List Char → Option (List Json × List Char)
  | 0, _ => none
  | fuel + 1, text =>
    match readValue fuel text with
    | none => none
    | some (item, after) =>
      match skipSpace after with
      | ']' :: rest => some ([item], rest)
      | ',' :: rest => (readItems fuel rest).map fun (others, rest) => (item :: others, rest)
      | _ => none

/-- Reads one or more members up to the closing brace. -/
def readMembers : Nat → List Char → Option (List (Option (List Char) × Json) × List Char)
  | 0, _ => none
  | fuel + 1, text =>
    match skipSpace text with
    | '\x22' :: rest =>
      match stringBody none rest with
      | none => none
      | some (key, after) =>
        match skipSpace after with
        | ':' :: rest =>
          match readValue fuel rest with
          | none => none
          | some (value, after) =>
            match skipSpace after with
            | '\x7d' :: rest => some ([(key, value)], rest)
            | ',' :: rest =>
              (readMembers fuel rest).map fun (others, rest) => ((key, value) :: others, rest)
            | _ => none
        | _ => none
    | _ => none

end

/-- Reads a whole text. Every level of the grammar takes at least one character, so twice the length
of the text is fuel enough. -/
def read? (text : String) : Option Json :=
  match readValue (2 * text.length + 2) text.toList with
  | none => none
  | some (json, after) => if skipSpace after = [] then some json else none

/-- Whether a numeral is within the range of a double. -/
def numeralFits (numeral : String) : Bool :=
  match numeral.toList with
  | '-' :: rest => !(Scaled.ofNumeral rest).isInfinite
  | rest => !(Scaled.ofNumeral rest).isInfinite

mutual

/-- Whether arrays and objects nest at most `nesting` deep, every number is within the range of a
double, and every string is text. -/
def fits (nesting : Nat) : Json → Bool
  | null | boolean _ | string _ => true
  | number numeral => numeralFits numeral
  | unpaired => false
  | array items =>
    match nesting with
    | 0 => false
    | below + 1 => itemsFit below items
  | object members =>
    match nesting with
    | 0 => false
    | below + 1 => membersFit below members

def itemsFit (nesting : Nat) : List Json → Bool
  | [] => true
  | item :: rest => fits nesting item && itemsFit nesting rest

def membersFit (nesting : Nat) : List (String × Json) → Bool
  | [] => true
  | (_, value) :: rest => fits nesting value && membersFit nesting rest

end

end DocCatalog.Json
