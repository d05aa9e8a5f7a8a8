import DocCatalog.Proofs.Comment.TagName
import DocCatalog.Proofs.Text.Offset

/-!
# A comment read by byte offsets

A comment body can be read without taking it apart character by character: the byte offsets of its
markers are collected first, and the description, the segments after the markers, the names and the
values are slices of the text between such offsets. Every slice is checked here, and reading gives
nothing as soon as one check fails.

No check ever fails, whatever the marker and the body are, and what is read is the comment
(`parseByOffset?_eq`). The marker matters because it takes up to four bytes: a segment starts that
many bytes after the offset of its marker.

Results:
1. `markOffsets_headD`: the first offset is the end of the text before all markers.
2. `tagOfSegment?_eq`: a segment gives the tag that is read from its characters.
3. `tagsByOffset?_eq`: so do the segments between the offsets of a text, by induction on what is
   left of it.
-/

namespace DocCatalog.Comment

open String (utf8Len)
open Text (offsetWhere? slice? slice?_back slice?_front slice?_ofList utf8Len_concat)

/-! ## Definitions -/

/-- The byte offsets of the markers that no backslash precedes. The text starts at an offset itself,
after the character `previous`. -/
def markOffsets (marker : Char) (previous : Option Char) (offset : Nat) : List Char → List Nat
  | [] => []
  | c :: rest =>
    let later := markOffsets marker (some c) (offset + c.utf8Size) rest
    if c = marker ∧ previous ≠ some '\\' then offset :: later else later

/-- The tag of a segment: its name ends at the first blank, and an empty name makes no tag. The
result is `none` when a slice fails and `some none` when there is no tag. -/
def tagOfSegment? (segment : String) : Option (Option (String × String)) := do
  let nameEnd :=
    (offsetWhere? (fun rest => rest.head?.any Text.isBlank) segment.toList).getD
      segment.utf8ByteSize
  if nameEnd = 0 then
    return none
  let name ← slice? segment 0 nameEnd
  let value ← slice? segment nameEnd segment.utf8ByteSize
  return some (name, value)

/-- The tags of the segments of a text whose markers stand at the given offsets. A segment reaches
from the end of its marker to the next marker, the last one to the end of the text. -/
def tagsByOffset? (marker : Char) (text : String) : List Nat → Option (List (String × String))
  | [] => some []
  | start :: later => do
    let segment ← slice? text (start + marker.utf8Size) (later.headD text.utf8ByteSize)
    let tag ← tagOfSegment? segment
    let others ← tagsByOffset? marker text later
    return tag.toList ++ others

/-- Reads the body of a comment by byte offsets. -/
def parseByOffset? (marker : Char) (body : String) : Option Comment := do
  let text := String.ofList (bare body.toList)
  let offsets := markOffsets marker none 0 text.toList
  let description ← slice? text 0 (offsets.headD text.utf8ByteSize)
  let tags ← tagsByOffset? marker text offsets
  return ⟨description, tags⟩

/-! ## No slice fails -/

/-- The first offset is the end of the text before all markers. -/
theorem markOffsets_headD (marker : Char) (previous : Option Char) (offset : Nat)
    (text : List Char) :
    (markOffsets marker previous offset text).headD (offset + utf8Len text) =
      offset + utf8Len (cut marker previous text).1 := by
  induction text generalizing previous offset with
  | nil => rfl
  | cons c rest ih =>
    rw [markOffsets, cut_cons]
    split
    · rfl
    · have next := ih (some c) (offset + c.utf8Size)
      rwa [Nat.add_assoc, Nat.add_assoc, Nat.add_comm _ (utf8Len rest),
        Nat.add_comm _ (utf8Len (cut marker (some c) rest).1)] at next

/-- What a text holds from one of its offsets to the first marker after it. -/
theorem slice?_cut {text : String} {before rest : List Char} (whole : text.toList = before ++ rest)
    (marker : Char) (previous : Option Char) :
    slice? text (utf8Len before)
        ((markOffsets marker previous (utf8Len before) rest).headD text.utf8ByteSize) =
      some (String.ofList (cut marker previous rest).1) := by
  obtain ⟨back, split⟩ := isPrefix_cut marker previous rest
  have size : text.utf8ByteSize = utf8Len before + utf8Len rest := by
    rw [← String.utf8Len_toList, whole, String.utf8Len_append]
  rw [size, markOffsets_headD]
  have parts : text.toList = before ++ (cut marker previous rest).1 ++ back := by
    rw [whole, List.append_assoc, split]
  exact slice?_ofList parts

/-- A segment gives the tag that is read from its characters. -/
theorem tagOfSegment?_eq (part : List Char) :
    tagOfSegment? (String.ofList part) = some (tag? part) := by
  have whole : (String.ofList part).toList = Text.word part ++ Text.afterWord part := by
    rw [String.toList_ofList, Text.word_append_afterWord]
  have value := slice?_back whole
  rw [String.utf8ByteSize_ofList] at value
  rw [tagOfSegment?, String.toList_ofList, String.utf8ByteSize_ofList, Text.offsetWhere?_isBlank,
    slice?_front whole, value, tag?]
  cases Text.word part with
  | nil => rfl
  | cons c rest =>
    have named : utf8Len (c :: rest) ≠ 0 := by
      rw [Ne, String.utf8Len_eq_zero]
      exact List.cons_ne_nil c rest
    rw [if_neg named]
    rfl

theorem tagsByOffset?_eq {text : String} {before rest : List Char}
    (whole : text.toList = before ++ rest) (marker : Char) (previous : Option Char) :
    tagsByOffset? marker text (markOffsets marker previous (utf8Len before) rest) =
      some ((cut marker previous rest).2.filterMap tag?) := by
  induction rest generalizing before previous with
  | nil => rfl
  | cons c rest ih =>
    have grown := whole.trans (List.append_cons before c rest)
    have later := ih grown (some c)
    rw [markOffsets, cut_cons, ← utf8Len_concat]
    split
    case isTrue marked =>
      obtain ⟨rfl, -⟩ := marked
      rw [tagsByOffset?, ← utf8Len_concat, slice?_cut grown, Option.bind_eq_bind, Option.bind_some,
        tagOfSegment?_eq, Option.bind_eq_bind, Option.bind_some, later, List.filterMap_cons]
      cases tag? (cut c (some c) rest).1 <;> rfl
    case isFalse => exact later

/-- Reading by byte offsets never fails and gives the comment. -/
theorem parseByOffset?_eq (marker : Char) (body : String) :
    parseByOffset? marker body = some (parse marker body.toList) := by
  have whole : (String.ofList (bare body.toList)).toList = [] ++ bare body.toList :=
    String.toList_ofList
  have description := slice?_cut whole marker none
  have tags := tagsByOffset?_eq whole marker none
  rw [String.utf8Len_nil] at description tags
  rw [parseByOffset?, String.toList_ofList, description, Option.bind_eq_bind, Option.bind_some,
    tags]
  rfl

end DocCatalog.Comment
