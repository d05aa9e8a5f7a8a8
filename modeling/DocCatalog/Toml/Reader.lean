import DocCatalog.Toml.Scalar
import DocCatalog.Toml.Text

/-!
# Reading TOML

A document is read line by line: a header opens a table, and a key with a value adds to the table
that is open. Nothing is accepted that the language forbids, also in parts that nobody asks for.
-/

namespace DocCatalog.Toml

mutual

/-- Reads a value that may hold `depth` levels of arrays and inline tables. -/
def readValue? : Nat → Nat → List Char → Option (Value × List Char)
  | 0, _, _ => none
  | fuel + 1, depth, text =>
    match text with
    | '[' :: rest =>
      match depth with
      | 0 => none
      | below + 1 =>
        (readItems? fuel below rest).map fun (items, after) => (.array items, after)
    | '\x7b' :: rest =>
      match depth with
      | 0 => none
      | below + 1 =>
        match skipWhite rest with
        | '\x7d' :: after => some (.table .inline [], after)
        | inner =>
          (readPairs? fuel below [] inner).map fun (members, after) =>
            (.table .inline members, after)
    | '\x22' :: _ | '\x27' :: _ =>
      (string? text).map fun (content, after) => (.string (String.ofList content), after)
    | _ => readWord? text

/-- Reads the items of an array up to its closing bracket; a comma may stand before the bracket. -/
def readItems? : Nat → Nat → List Char → Option (List Value × List Char)
  | 0, _, _ => none
  | fuel + 1, depth, text =>
    match skipVoid? false text with
    | none => none
    | some (']' :: after) => some ([], after)
    | some inner =>
      match readValue? fuel depth inner with
      | none => none
      | some (item, after) =>
        match skipVoid? false after with
        | some (']' :: after) => some ([item], after)
        | some (',' :: rest) =>
          (readItems? fuel depth rest).map fun (others, after) => (item :: others, after)
        | _ => none

/-- Reads the pairs of an inline table up to its closing brace; no comma may stand before the brace.
-/
def readPairs? : Nat → Nat → Members → List Char → Option (Members × List Char)
  | 0, _, _, _ => none
  | fuel + 1, depth, members, text =>
    match key? text with
    | some (key, '=' :: rest) =>
      match readValue? fuel depth (skipWhite rest) with
      | none => none
      | some (value, after) =>
        match assign? value key members with
        | none => none
        | some members =>
          match skipWhite after with
          | '\x7d' :: after => some (members, after)
          | ',' :: rest => readPairs? fuel depth members rest
          | _ => none
    | _ => none

end

/-- Reads the lines of a document; `path` is the header of the table that is open. -/
def readLines? : Nat → List String → Members → List Char → Option Members
  | 0, _, _, _ => none
  | fuel + 1, path, root, text =>
    match skipWhite text with
    | [] => some root
    | '[' :: '[' :: rest =>
      match key? rest with
      | some (key, ']' :: ']' :: after) => do
        let rest ← endLine? after
        let root ← within? (appendTable? (key.getLastD "")) key.dropLast root
        readLines? fuel key root rest
      | _ => none
    | '[' :: rest =>
      match key? rest with
      | some (key, ']' :: after) => do
        let rest ← endLine? after
        let root ← within? (openTable? (key.getLastD "")) key.dropLast root
        readLines? fuel key root rest
      | _ => none
    | c :: rest =>
      if c = '#' ∨ c = '\n' ∨ c = '\r' then
        (endLine? (c :: rest)).bind (readLines? fuel path root)
      else
        match key? (c :: rest) with
        | some (key, '=' :: after) => do
          let (value, after) ← readValue? (2 * after.length + 2) (maxDepth - 1) (skipWhite after)
          let rest ← endLine? after
          let root ← within? (assign? value key) path root
          readLines? fuel path root rest
        | _ => none

/-- Reads a document, which may start with a byte order mark. -/
def read? (text : String) : Option Members :=
  let body :=
    match text.toList with
    | '\ufeff' :: rest => rest
    | rest => rest
  readLines? (body.length + 1) [] [] body

end DocCatalog.Toml
