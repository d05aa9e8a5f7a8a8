/-!
# Cutting at separators

`pieces` cuts at every separator, `segments` reads a dotted path, and `lines` reads the lines
of a text. Joining the pieces with the separator gives the whole back (`joined_pieces`). What is cut
can be the characters of a text or the bytes of a path.
-/

namespace DocCatalog.Text

section Pieces

variable {α : Type} [DecidableEq α]

/-- The parts between the separators, one more than there are separators. -/
def pieces (separator : α) : List α → List (List α)
  | [] => [[]]
  | c :: rest =>
    match pieces separator rest with
    | [] => [[c]]
    | piece :: others =>
      if c = separator then [] :: piece :: others else (c :: piece) :: others

/-- Writes the parts one after the other with a separator between them. -/
def joined (separator : List α) : List (List α) → List α
  | [] => []
  | [piece] => piece
  | piece :: next :: others => piece ++ separator ++ joined separator (next :: others)

theorem pieces_ne_nil (separator : α) (text : List α) : pieces separator text ≠ [] := by
  cases text with
  | nil => simp [pieces]
  | cons c rest =>
    rw [pieces]
    split
    · simp
    · split <;> simp

theorem joined_pieces (separator : α) (text : List α) :
    joined [separator] (pieces separator text) = text := by
  induction text with
  | nil => rfl
  | cons c rest ih =>
    rw [pieces]
    split
    case h_1 none => exact absurd none (pieces_ne_nil separator rest)
    case h_2 piece others cut =>
      rw [cut] at ih
      split
      case isTrue equal =>
        subst equal
        rw [joined, ih]
        rfl
      case isFalse =>
        cases others with
        | nil => simpa [joined] using ih
        | cons next more => simpa [joined] using ih

/-- The part before the last separator and the part after it. -/
def lastSplit? (separator : α) (text : List α) : Option (List α × List α) :=
  let after := text.reverse.takeWhile (· ≠ separator)
  match text.reverse.dropWhile (· ≠ separator) with
  | [] => none
  | _ :: before => some (before.reverse, after.reverse)

end Pieces

/-- The non-empty parts of a dotted path, so stray dots do not matter. -/
def segments (path : String) : List String :=
  ((pieces '.' path.toList).filter (· ≠ [])).map String.ofList

/-- Joins names with dots. -/
def dotted (names : List String) : String :=
  String.intercalate "." names

/-- Drops the carriage return that stands before a line feed. -/
def dropReturn (line : List Char) : List Char :=
  match line.reverse with
  | '\r' :: rest => rest.reverse
  | _ => line

/-- The lines of a text, ended by a line feed or by a carriage return and a line feed. A last line
without an end is kept as it is, and there is no line after the last end. -/
def lines (text : List Char) : List (List Char) :=
  let parts := pieces '\n' text
  let last := parts.getLastD []
  parts.dropLast.map dropReturn ++ if last = [] then [] else [last]

end DocCatalog.Text
