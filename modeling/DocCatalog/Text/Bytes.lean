/-!
# UTF-8

Every text has its bytes. Bytes have a text only when they are UTF-8, but all bytes can be shown:
what is no character is shown as a replacement character.
-/

namespace DocCatalog.Text

/-- The bytes of a text in UTF-8. -/
def bytes (text : String) : List UInt8 :=
  text.toUTF8.data.toList

/-- The text of bytes that are UTF-8. -/
def ofBytes? (bytes : List UInt8) : Option String :=
  String.fromUTF8? bytes.toByteArray

/-- The character at the start of bytes. No character has more than four. -/
def firstChar? (bytes : List UInt8) : Option Char :=
  (bytes.take 4).toByteArray.utf8DecodeChar? 0

/-- Whether a character breaks off behind these bytes, of which there are two or three: one or two
more would complete it. -/
def breaksOff (bytes : List UInt8) : Bool :=
  [1, 2].any fun missing => (firstChar? (bytes ++ List.replicate missing 0x80)).isSome

/-- How many more bytes are shown together with a byte that no character starts with: those of the
longest character that breaks off. -/
def brokenTail (first : UInt8) (rest : List UInt8) : Nat :=
  ([2, 1].find? fun more => breaksOff (first :: rest.take more)).getD 0

/-- The characters that bytes are shown as. -/
def shownChars : List UInt8 → List Char
  | [] => []
  | first :: rest =>
    match firstChar? (first :: rest) with
    | some c => c :: shownChars (rest.drop (c.utf8Size - 1))
    | none => '\uFFFD' :: shownChars (rest.drop (brokenTail first rest))
termination_by bytes => bytes.length
decreasing_by all_goals exact Nat.lt_succ_of_le (List.length_drop ▸ Nat.sub_le _ _)

/-- What bytes are shown as. -/
def shown (bytes : List UInt8) : String :=
  String.ofList (shownChars bytes)

end DocCatalog.Text
