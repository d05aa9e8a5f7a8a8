import DocCatalog.Text.LowerCase.Table

/-!
# Lower case

Full lower case of a text, as Unicode defines it without a language: every capital becomes its small
letter, `İ` becomes an `i` with a dot above it, and a capital sigma becomes `ς` at the end
of a word and `σ` elsewhere.
-/

namespace DocCatalog.Text

namespace LowerCase

def inRanges (ranges : List (Nat × Nat)) (c : Char) : Bool :=
  ranges.any fun range => range.1 ≤ c.toNat && c.toNat ≤ range.2

def isCased (c : Char) : Bool :=
  inRanges casedRanges c

def isIgnorable (c : Char) : Bool :=
  inRanges ignorableRanges c

def Row.covers (row : Row) (c : Char) : Bool :=
  row.first ≤ c.toNat && c.toNat ≤ row.last && (c.toNat - row.first) % row.step == 0

/-- The small letter of a capital; any other character is kept. -/
def simple (c : Char) : Char :=
  if c.toNat < 0x80 then c.toLower
  else
    match rows.find? (·.covers c) with
    | some row => Char.ofNat (c.toNat + row.offset).toNat
    | none => c

/-- Whether the nearest character that counts has a case. -/
def touchesCased (nearby : List Char) : Bool :=
  match nearby.dropWhile isIgnorable with
  | [] => false
  | c :: _ => isCased c

/-- Walks over the text; `before` holds what was passed, the nearest character first. -/
def fold (before : List Char) : List Char → List Char
  | [] => []
  | c :: rest =>
    let small :=
      if c = 'Σ' then
        if touchesCased before && !touchesCased rest then ['ς'] else ['σ']
      else if c = 'İ' then ['i', '\u0307']
      else [simple c]
    small ++ fold (c :: before) rest

end LowerCase

/-- The text in lower case. -/
def lowerCase (text : String) : String :=
  String.ofList (LowerCase.fold [] text.toList)

end DocCatalog.Text
