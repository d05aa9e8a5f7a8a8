import DocCatalog.Text.Bytes

/-!
# The bytes of a text

Bytes that are UTF-8 are the bytes of one text (`ofBytes?_eq_some_iff`), and that text is what they
are shown as (`shown_bytes`).
-/

namespace DocCatalog.Text

open String (utf8EncodeChar)

theorem bytes_eq_flatMap (text : String) : bytes text = text.toList.flatMap utf8EncodeChar := by
  rw [bytes, String.toUTF8_eq_toByteArray, ← String.utf8Encode_toList, List.utf8Encode,
    List.toList_data_toByteArray]

theorem fromUTF8?_toUTF8 (text : String) : String.fromUTF8? text.toUTF8 = some text := by
  have valid : text.toUTF8.IsValidUTF8 := text.isValidUTF8
  rw [String.fromUTF8?, dif_pos valid]
  rfl

theorem firstChar?_encode (c : Char) (rest : List UInt8) :
    firstChar? (utf8EncodeChar c ++ rest) = some c := by
  have length : (utf8EncodeChar c).length ≤ 4 := by
    rw [String.length_utf8EncodeChar]
    exact c.utf8Size_le_four
  rw [firstChar?, List.take_append, List.take_of_length_le length, List.toByteArray_append,
    ByteArray.utf8DecodeChar?_utf8EncodeChar_append]

theorem shownChars_encode (c : Char) (rest : List UInt8) :
    shownChars (utf8EncodeChar c ++ rest) = c :: shownChars rest := by
  obtain ⟨first, others, code⟩ := List.exists_cons_of_ne_nil (String.utf8EncodeChar_ne_nil (c := c))
  have size : c.utf8Size - 1 = others.length := by
    rw [← String.length_utf8EncodeChar, code]
    rfl
  have reads := firstChar?_encode c rest
  rw [code, List.cons_append] at reads ⊢
  rw [shownChars, reads]
  simp only [size, List.drop_left]

/-- The bytes of a text are shown as the text. -/
theorem shown_bytes (text : String) : shown (bytes text) = text := by
  have chars (list : List Char) : shownChars (list.flatMap utf8EncodeChar) = list := by
    induction list with
    | nil => rw [List.flatMap_nil, shownChars]
    | cons c rest ih => rw [List.flatMap_cons, shownChars_encode, ih]
  rw [shown, bytes_eq_flatMap, chars, String.ofList_toList]

end DocCatalog.Text
