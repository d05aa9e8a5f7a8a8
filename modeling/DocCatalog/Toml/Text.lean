import DocCatalog.Text.Hex

/-!
# TOML characters, strings and keys

Every reader takes the text from where it stands and says what follows what it read. A line feed may
have a carriage return before it and counts as a bare line feed within a string.
-/

namespace DocCatalog.Toml

open Text (hexUnit?)

/-- A character that may stand in a comment or, quotes and backslashes apart, in a string: a
tabulator, or no control character. -/
def isPlain (c : Char) : Bool :=
  c = '\t' || (0x20 ≤ c.toNat && c.toNat ≠ 0x7F)

def isWhite (c : Char) : Bool :=
  c = ' ' || c = '\t'

def skipWhite (text : List Char) : List Char :=
  text.dropWhile isWhite

/-- What follows the line feed at the start of a text. -/
def afterNewline? : List Char → Option (List Char)
  | '\n' :: rest => some rest
  | '\r' :: '\n' :: rest => some rest
  | _ => none

/-- What follows the rest of a line that holds nothing but a comment. -/
def endLine? (text : List Char) : Option (List Char) :=
  let afterComment :=
    match skipWhite text with
    | '#' :: rest => rest.dropWhile isPlain
    | rest => rest
  match afterComment with
  | [] => some []
  | rest => afterNewline? rest

/-- Skips white space, line feeds and comments. A comment must end before the text does. -/
def skipVoid? (inComment : Bool) : List Char → Option (List Char)
  | [] => if inComment then none else some []
  | '\n' :: rest => skipVoid? false rest
  | '\r' :: '\n' :: rest => skipVoid? false rest
  | c :: rest =>
    if inComment then if isPlain c then skipVoid? true rest else none
    else if isWhite c then skipVoid? false rest
    else if c = '#' then skipVoid? true rest
    else some (c :: rest)

/-- Skips white space and line feeds. -/
def skipWhiteLines : List Char → List Char
  | '\n' :: rest => skipWhiteLines rest
  | '\r' :: '\n' :: rest => skipWhiteLines rest
  | c :: rest => if isWhite c then skipWhiteLines rest else c :: rest
  | [] => []

/-- The character with a code point, if there is one. -/
def scalar? (code : Nat) : Option Char :=
  if code < 0xD800 ∨ (0xE000 ≤ code ∧ code < 0x110000) then some (Char.ofNat code) else none

/-- Reads an escape whose backslash was just passed. -/
def escape? : List Char → Option (Char × List Char)
  | 'b' :: rest => some ('\x08', rest)
  | 't' :: rest => some ('\t', rest)
  | 'n' :: rest => some ('\n', rest)
  | 'f' :: rest => some ('\x0c', rest)
  | 'r' :: rest => some ('\r', rest)
  | '\x22' :: rest => some ('\x22', rest)
  | '\\' :: rest => some ('\\', rest)
  | 'u' :: a :: b :: c :: d :: rest => do
    return (← scalar? (← hexUnit? a b c d), rest)
  | 'U' :: a :: b :: c :: d :: e :: f :: g :: h :: rest => do
    return (← scalar? (65536 * (← hexUnit? a b c d) + (← hexUnit? e f g h)), rest)
  | _ => none

/-- Reads a string on one line whose opening quote was just passed. Only double quotes allow
escapes. -/
def lineString? (quote : Char) : Nat → List Char → Option (List Char × List Char)
  | 0, _ => none
  | _ + 1, [] => none
  | fuel + 1, c :: rest =>
    if c = quote then some ([], rest)
    else if c = '\\' ∧ quote = '\x22' then
      (escape? rest).bind fun (char, after) =>
        (lineString? quote fuel after).map fun (content, after) => (char :: content, after)
    else if isPlain c then
      (lineString? quote fuel rest).map fun (content, after) => (c :: content, after)
    else none

/-- Reads a string over several lines whose opening quotes were just passed. Three quotes or more
end it; at most two of those before the last three belong to the string. A backslash at the end of a
line joins it with what follows the white space. -/
def blockString? (quote : Char) : Nat → List Char → Option (List Char × List Char)
  | 0, _ => none
  | _ + 1, [] => none
  | fuel + 1, c :: rest =>
    if c = quote then
      let run := 1 + (rest.takeWhile (· = quote)).length
      if run < 3 then
        (blockString? quote fuel rest).map fun (content, after) => (quote :: content, after)
      else
        let kept := min (run - 3) 2
        some (List.replicate kept quote, rest.drop (2 + kept))
    else if c = '\\' ∧ quote = '\x22' then
      match escape? rest, afterNewline? (skipWhite rest) with
      | some (char, after), _ =>
        (blockString? quote fuel after).map fun (content, after) => (char :: content, after)
      | none, some after => blockString? quote fuel (skipWhiteLines after)
      | none, none => none
    else
      match afterNewline? (c :: rest) with
      | some after =>
        (blockString? quote fuel after).map fun (content, after) => ('\n' :: content, after)
      | none =>
        if isPlain c then
          (blockString? quote fuel rest).map fun (content, after) => (c :: content, after)
        else none

/-- Reads a string of any of the four forms. A line feed right after three opening quotes does not
count. -/
def string? : List Char → Option (List Char × List Char)
  | a :: b :: c :: rest =>
    if a ≠ '\x22' ∧ a ≠ '\x27' then none
    else if a = b ∧ b = c then
      blockString? a (rest.length + 1) ((afterNewline? rest).getD rest)
    else lineString? a (rest.length + 3) (b :: c :: rest)
  | a :: rest =>
    if a ≠ '\x22' ∧ a ≠ '\x27' then none else lineString? a (rest.length + 1) rest
  | [] => none

def isBareKeyChar (c : Char) : Bool :=
  c.isAlphanum || c = '_' || c = '-'

/-- Reads one part of a key: bare, or a string on one line. -/
def simpleKey? : List Char → Option (List Char × List Char)
  | [] => none
  | c :: rest =>
    if c = '\x22' ∨ c = '\x27' then lineString? c (rest.length + 1) rest
    else if isBareKeyChar c then
      some ((c :: rest).takeWhile isBareKeyChar, (c :: rest).dropWhile isBareKeyChar)
    else none

/-- Reads the parts of a dotted key, white space around each included. -/
def keyParts? : Nat → List Char → Option (List String × List Char)
  | 0, _ => none
  | fuel + 1, text => do
    let (part, after) ← simpleKey? (skipWhite text)
    match skipWhite after with
    | '.' :: rest =>
      (keyParts? fuel rest).map fun (others, after) => (String.ofList part :: others, after)
    | rest => some ([String.ofList part], rest)

/-- How deep values may nest, and a bound that the number of parts of a key stays below. -/
def maxDepth : Nat := 80

/-- Reads a key, which is never empty. -/
def key? (text : List Char) : Option (List String × List Char) :=
  keyParts? (maxDepth - 1) text

end DocCatalog.Toml
