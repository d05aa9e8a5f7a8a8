/-!
# Blank characters

Blank means the Unicode property White_Space. Trimming, the end of a tag name and the
decoration of a comment line all use this one class.
-/

namespace DocCatalog.Text

/-- The 25 characters of White_Space, by code point. -/
def isBlank (c : Char) : Bool :=
  let n := c.toNat
  (0x9 ≤ n && n ≤ 0xD) || n == 0x20 || n == 0x85 || n == 0xA0 || n == 0x1680 ||
    (0x2000 ≤ n && n ≤ 0x200A) || n == 0x2028 || n == 0x2029 || n == 0x202F || n == 0x205F ||
    n == 0x3000

/-- Drops the blanks in front. -/
def trimStart (text : List Char) : List Char :=
  text.dropWhile isBlank

/-- Drops the blanks at the end. -/
def trimEnd (text : List Char) : List Char :=
  (text.reverse.dropWhile isBlank).reverse

/-- Drops the blanks at both ends. -/
def trim (text : List Char) : List Char :=
  trimEnd (trimStart text)

/-- The text without the blanks at its ends. -/
def trimmed (text : String) : String :=
  String.ofList (trim text.toList)

/-- The characters up to the first blank. -/
def word (text : List Char) : List Char :=
  text.takeWhile fun c => !isBlank c

/-- What follows the first word: empty, or a text that starts with a blank. -/
def afterWord (text : List Char) : List Char :=
  text.dropWhile fun c => !isBlank c

theorem word_append_afterWord (text : List Char) : word text ++ afterWord text = text :=
  List.takeWhile_append_dropWhile

/-- A trimmed text, or nothing when only blanks are there. -/
def nonBlank? (text : List Char) : Option String :=
  match trim text with
  | [] => none
  | c :: rest => some (String.ofList (c :: rest))

@[simp] theorem trim_nil : trim [] = [] := rfl

@[simp] theorem trimmed_empty : trimmed "" = "" := rfl

end DocCatalog.Text
