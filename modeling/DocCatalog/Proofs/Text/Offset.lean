import Mathlib.Data.String.Basic
import DocCatalog.Proofs.Text.Bytes
import DocCatalog.Text.Blank

/-!
# Byte offsets

An offset into a text counts bytes, and not every offset stands between two characters. Taking a
slice is therefore checked: offsets out of order, behind the end of the text or inside a character
have no slice.

Results:
1. `slice?_eq_some_iff`: there is a slice exactly where the text is put together from what stands
   before it, the slice and what stands after it.
2. `eq_toUInt8_iff`: the byte of a one-byte character occurs in the code of no other character.
3. `exists_char_at`: an offset inside a text falls in one of its characters.
4. `offsetWhere?_isBlank`: the first word of a text ends at the offset of the first blank.
-/

namespace DocCatalog.Text

open String (utf8Len utf8EncodeChar)

theorem utf8Len_concat (front : List Char) (c : Char) :
    utf8Len (front ++ [c]) = utf8Len front + c.utf8Size := by
  rw [String.utf8Len_append, String.utf8Len_cons, String.utf8Len_nil, Nat.zero_add]

/-! ## Slices -/

/-- The part of a text between two byte offsets. Both have to stand between characters of the text,
at its start or at its end, and the first must not be after the second. -/
def slice? (text : String) (start stop : Nat) : Option String :=
  if start ≤ stop ∧ String.Pos.Raw.IsValid text ⟨start⟩ ∧ String.Pos.Raw.IsValid text ⟨stop⟩ then
    some (String.Pos.Raw.extract text ⟨start⟩ ⟨stop⟩)
  else
    none

theorem isValid_iff {text : String} {offset : Nat} :
    String.Pos.Raw.IsValid text ⟨offset⟩ ↔
      ∃ front back, text.toList = front ++ back ∧ utf8Len front = offset := by
  rw [String.Pos.Raw.isValid_iff_exists_append]
  constructor
  · rintro ⟨front, back, rfl, same⟩
    refine ⟨front.toList, back.toList, String.toList_append, ?_⟩
    rw [String.utf8Len_toList]
    exact (congrArg String.Pos.Raw.byteIdx same).symm
  · rintro ⟨front, back, whole, rfl⟩
    refine ⟨String.ofList front, String.ofList back, ?_, (String.rawEndPos_ofList front).symm⟩
    rw [← String.ofList_append, ← whole, String.ofList_toList]

/-- There is a slice exactly where the text is put together from what stands before it, the slice
and what stands after it. -/
theorem slice?_eq_some_iff {text part : String} {start stop : Nat} :
    slice? text start stop = some part ↔
      ∃ front back, text.toList = front ++ part.toList ++ back ∧
        utf8Len front = start ∧ utf8Len front + utf8Len part.toList = stop := by
  have taken {front inner back : List Char} (whole : text.toList = front ++ inner ++ back) :
      String.Pos.Raw.extract text ⟨utf8Len front⟩ ⟨utf8Len front + utf8Len inner⟩ =
        String.ofList inner := by
    rw [← String.ofList_toList (s := text), whole, String.extract_of_valid]
  unfold slice?
  constructor
  · intro found
    obtain ⟨⟨ordered, validStart, validStop⟩, extracted⟩ := Option.ite_none_right_eq_some.1 found
    obtain ⟨front, rest, wholeStart, rfl⟩ := isValid_iff.1 validStart
    obtain ⟨upTo, back, wholeStop, rfl⟩ := isValid_iff.1 validStop
    -- The shorter of the two beginnings starts the longer one.
    obtain ⟨inner, rfl⟩ : front <+: upTo := by
      rcases List.append_eq_append_iff.1 (wholeStart.symm.trans wholeStop) with
        ⟨inner, extended, -⟩ | ⟨inner, extended, -⟩
      · exact ⟨inner, extended.symm⟩
      · have noMore : utf8Len inner = 0 := by
          rw [extended, String.utf8Len_append] at ordered
          omega
        rw [String.utf8Len_eq_zero.1 noMore, List.append_nil] at extended
        exact ⟨[], by rw [List.append_nil, extended]⟩
    rw [String.utf8Len_append, taken wholeStop, Option.some.injEq] at extracted
    refine ⟨front, back, ?_, rfl, ?_⟩
    · rw [← extracted, String.toList_ofList, wholeStop]
    · rw [← extracted, String.toList_ofList, String.utf8Len_append]
  · rintro ⟨front, back, whole, rfl, rfl⟩
    have validStop : String.Pos.Raw.IsValid text ⟨utf8Len front + utf8Len part.toList⟩ :=
      isValid_iff.2 ⟨front ++ part.toList, back, whole, String.utf8Len_append _ _⟩
    have validStart : String.Pos.Raw.IsValid text ⟨utf8Len front⟩ :=
      isValid_iff.2 ⟨front, part.toList ++ back, by rw [whole, List.append_assoc], rfl⟩
    rw [if_pos ⟨Nat.le_add_right _ _, validStart, validStop⟩, taken whole, String.ofList_toList]

theorem slice?_ofList {text : String} {front inner back : List Char}
    (whole : text.toList = front ++ inner ++ back) :
    slice? text (utf8Len front) (utf8Len front + utf8Len inner) = some (String.ofList inner) :=
  slice?_eq_some_iff.2
    ⟨front, back, by rw [whole, String.toList_ofList], rfl, by rw [String.toList_ofList]⟩

theorem slice?_front {text : String} {inner back : List Char}
    (whole : text.toList = inner ++ back) :
    slice? text 0 (utf8Len inner) = some (String.ofList inner) :=
  slice?_eq_some_iff.2
    ⟨[], back, by rw [whole, String.toList_ofList, List.nil_append], rfl,
      by rw [String.toList_ofList, String.utf8Len_nil, Nat.zero_add]⟩

theorem slice?_back {text : String} {front inner : List Char}
    (whole : text.toList = front ++ inner) :
    slice? text (utf8Len front) text.utf8ByteSize = some (String.ofList inner) :=
  slice?_eq_some_iff.2
    ⟨front, [], by rw [whole, String.toList_ofList, List.append_nil], rfl,
      by rw [String.toList_ofList, ← String.utf8Len_toList, whole, String.utf8Len_append]⟩

/-! ## Bytes -/

theorem length_flatMap_encode (text : List Char) :
    (text.flatMap utf8EncodeChar).length = utf8Len text := by
  induction text with
  | nil => rfl
  | cons c rest ih =>
    rw [List.flatMap_cons, List.length_append, String.length_utf8EncodeChar, ih, Nat.add_comm,
      String.utf8Len_cons]

theorem length_bytes (text : String) : (bytes text).length = text.utf8ByteSize := by
  rw [bytes_eq_flatMap, length_flatMap_encode, String.utf8Len_toList]

/-- A byte in the code of a character is the byte of a one-byte character only if it is that
character's. -/
theorem eq_toUInt8_iff {a c : Char} (single : a.utf8Size = 1) {byte : UInt8}
    (member : byte ∈ utf8EncodeChar c) : byte = a.toUInt8 ↔ c = a := by
  constructor
  · rintro rfl
    have small : a.val.toNat ≤ 127 := Char.utf8Size_eq_one_iff.1 single
    have value : a.toUInt8.toNat = a.val.toNat := by
      rw [Char.toUInt8, UInt32.toNat_toUInt8]
      omega
    have bounded : c.val.toNat < 0x110000 := c.valid.elim (by omega) (by omega)
    refine Char.ext (UInt32.toNat_inj.1 ?_)
    -- Every byte of a longer code is at least 128.
    simp only [utf8EncodeChar] at member
    split_ifs at member <;>
      simp only [List.mem_cons, List.not_mem_nil, or_false, ← UInt8.toNat_inj, value,
        UInt8.toNat_ofNat'] at member <;> omega
  · rintro rfl
    rw [String.utf8EncodeChar_eq_singleton single] at member
    exact List.mem_singleton.1 member

/-- The bytes of a text behind its first part. -/
theorem drop_bytes {text : String} {front back : List Char} (whole : text.toList = front ++ back) :
    (bytes text).drop (utf8Len front) = back.flatMap utf8EncodeChar := by
  rw [bytes_eq_flatMap, whole, List.flatMap_append, ← length_flatMap_encode, List.drop_left]

theorem getElem?_bytes {text : String} {front back : List Char}
    (whole : text.toList = front ++ back) (i : Nat) :
    (bytes text)[utf8Len front + i]? = (back.flatMap utf8EncodeChar)[i]? := by
  rw [← drop_bytes whole, List.getElem?_drop]

/-- The bytes of one character of a text. -/
theorem getElem?_bytes_cons {text : String} {front back : List Char} {c : Char}
    (whole : text.toList = front ++ c :: back) {i : Nat} (inside : i < c.utf8Size) :
    (bytes text)[utf8Len front + i]? = (utf8EncodeChar c)[i]? := by
  rw [getElem?_bytes whole, List.flatMap_cons, List.getElem?_append_left]
  rwa [String.length_utf8EncodeChar]

theorem exists_byte {text : String} {front back : List Char} {c : Char}
    (whole : text.toList = front ++ c :: back) {i : Nat} (inside : i < c.utf8Size) :
    ∃ byte ∈ utf8EncodeChar c, (bytes text)[utf8Len front + i]? = some byte := by
  have inCode : i < (utf8EncodeChar c).length := by rwa [String.length_utf8EncodeChar]
  rw [getElem?_bytes_cons whole inside]
  exact ⟨(utf8EncodeChar c)[i], List.getElem_mem inCode, List.getElem?_eq_getElem inCode⟩

theorem getElem?_bytes_single {text : String} {front back : List Char} {c : Char}
    (whole : text.toList = front ++ c :: back) (single : c.utf8Size = 1) :
    (bytes text)[utf8Len front]? = some c.toUInt8 := by
  have first := getElem?_bytes_cons whole (i := 0) (by omega)
  rwa [Nat.add_zero, String.utf8EncodeChar_eq_singleton single] at first

/-- An offset inside a text falls on one of the bytes of one of its characters. -/
theorem exists_char_at {text : List Char} {offset : Nat} (inside : offset < utf8Len text) :
    ∃ front c back i, text = front ++ c :: back ∧ i < c.utf8Size ∧ utf8Len front + i = offset := by
  induction text generalizing offset with
  | nil => cases inside
  | cons c rest ih =>
    by_cases first : offset < c.utf8Size
    · exact ⟨[], c, rest, offset, rfl, first, Nat.zero_add _⟩
    · rw [String.utf8Len_cons] at inside
      have later : offset - c.utf8Size < utf8Len rest := by omega
      obtain ⟨front, d, back, i, rfl, inChar, place⟩ := ih later
      refine ⟨c :: front, d, back, i, rfl, inChar, ?_⟩
      rw [String.utf8Len_cons]
      omega

/-! ## Searching -/

/-- The offset of the first position at which the rest of the text meets a condition. -/
def offsetWhere? (meets : List Char → Bool) (text : List Char) : Option Nat :=
  if meets text then some 0
  else
    match text with
    | [] => none
    | c :: rest => (offsetWhere? meets rest).map (c.utf8Size + ·)

/-- The first word of a text ends at the offset of the first blank. -/
theorem offsetWhere?_isBlank (text : List Char) :
    (offsetWhere? (fun rest => rest.head?.any isBlank) text).getD (utf8Len text) =
      utf8Len (word text) := by
  induction text with
  | nil => rfl
  | cons c rest ih =>
    rw [offsetWhere?, word, List.takeWhile_cons]
    by_cases blank : isBlank c
    · simp [blank]
    · rw [if_neg (by simpa using blank), if_pos (by simpa using blank), String.utf8Len_cons,
        String.utf8Len_cons, Nat.add_comm _ c.utf8Size, Nat.add_comm _ c.utf8Size,
        Option.getD_map (c.utf8Size + ·), ih, word]

end DocCatalog.Text
