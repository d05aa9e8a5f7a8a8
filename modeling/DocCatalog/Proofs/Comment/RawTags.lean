import DocCatalog.Config
import DocCatalog.Proofs.Comment.Marks

/-!
# Tags as the body has them

Marks are looked for when the frame of a body is gone, and whether a marker counts depends on the
character before it. Yet the tags can be read off the body as it stands, frame and all: taking the
frame off drops blanks, stars and one opener, and none of them is a marker, an escape, or stands
inside a name. That is why some characters are no markers.

Results:
1. `gist_cut_stripMargin`, `gist_cut_bare`: without the frame every part after a mark begins with
   the same word and holds the same characters but for blanks and stars.
2. `reading_congr`: this is all that the tags depend on, up to blanks and stars in the values.
3. `tags_of_body`: the tags are what follows the marks of the body that a name follows.
-/

namespace DocCatalog.Comment

open Source (Unclosed)

/-! ## What of a part is kept -/

/-- A text without its blanks and stars. -/
def scrub (text : List Char) : List Char :=
  text.filter fun c => !isMargin c

/-- The first word of a part, and all of the part but for blanks and stars. -/
def gist (part : List Char) : List Char × List Char :=
  (Text.word part, scrub part)

theorem scrub_append (first second : List Char) :
    scrub (first ++ second) = scrub first ++ scrub second :=
  List.filter_append ..

theorem scrub_cons_of_margin {c : Char} (margin : isMargin c = true) (rest : List Char) :
    scrub (c :: rest) = scrub rest :=
  List.filter_cons_of_neg (by simp [margin])

theorem scrub_cons_congr (c : Char) {first second : List Char}
    (same : scrub first = scrub second) : scrub (c :: first) = scrub (c :: second) := by
  rw [← List.singleton_append, scrub_append, same, ← scrub_append, List.singleton_append]

theorem word_cons (c : Char) (rest : List Char) :
    Text.word (c :: rest) = if Text.isBlank c then [] else c :: Text.word rest := by
  rw [Text.word, List.takeWhile_cons]
  by_cases blank : Text.isBlank c <;> simp [blank, Text.word]

theorem gist_cons_of_blank {c : Char} (blank : Text.isBlank c = true) {first second : List Char}
    (same : scrub first = scrub second) : gist (c :: first) = gist (c :: second) := by
  rw [gist, gist, word_cons, word_cons, if_pos blank, if_pos blank, scrub_cons_congr c same]

theorem gist_cons (c : Char) {first second : List Char} (same : gist first = gist second) :
    gist (c :: first) = gist (c :: second) := by
  obtain ⟨word, rest⟩ := Prod.mk.inj same
  rw [gist, gist, word_cons, word_cons, word, scrub_cons_congr c rest]

theorem gist_of_blank {text : List Char} (blank : ∀ c ∈ text, Text.isBlank c = true) :
    gist text = gist [] := by
  induction text with
  | nil => rfl
  | cons c rest ih =>
    obtain ⟨first, others⟩ := List.forall_mem_cons.1 blank
    have margin : isMargin c = true := by simp [isMargin, first]
    obtain ⟨-, restScrubbed⟩ := Prod.mk.inj (ih others)
    rw [gist, word_cons, if_pos first, scrub_cons_of_margin margin, restScrubbed]
    rfl

/-! ## The frame -/

/-- Margin is no marker and no escape, so what follows it is cut as if it stood alone. -/
theorem cut_cons_of_margin {marker c : Char} (solid : isMargin marker = false)
    (margin : isMargin c = true) (previous : Option Char) (rest : List Char) :
    cut marker previous (c :: rest) = (c :: (cut marker none rest).1, (cut marker none rest).2) := by
  have notMarker : ¬ (c = marker ∧ previous ≠ some '\\') := by
    rintro ⟨rfl, -⟩
    rw [margin] at solid
    cases solid
  have notEscape : some c ≠ some '\\' := by
    rintro ⟨⟩
    exact absurd margin (by decide)
  have noneBefore : (none : Option Char) ≠ some '\\' := nofun
  rw [cut_cons, if_neg notMarker, cut_congr (iff_of_false notEscape noneBefore)]

/-- Margin stands at the start of a line, so no word is touched that follows a mark. Before the first
mark only the characters count, for there the text may begin with margin. -/
theorem gist_cut_stripMargin {marker : Char} (solid : isMargin marker = false) (text : List Char) :
    (∀ previous, Alike marker gist previous (stripMargin false text) text) ∧
      scrub (cut marker none (stripMargin true text)).1 = scrub (cut marker none text).1 ∧
      (cut marker none (stripMargin true text)).2.map gist = (cut marker none text).2.map gist := by
  induction text with
  | nil => exact ⟨fun _ => ⟨rfl, rfl⟩, rfl, rfl⟩
  | cons c rest ih =>
    obtain ⟨inLine, first, others⟩ := ih
    constructor
    · intro previous
      rw [stripMargin, Bool.false_and, if_neg Bool.false_ne_true]
      by_cases lineFeed : c = '\n'
      · subst lineFeed
        rw [beq_self_eq_true]
        constructor
        · rw [cut_cons_of_margin solid (by decide), cut_cons_of_margin solid (by decide)]
          exact gist_cons_of_blank (by decide) first
        · rw [cut_cons_of_margin solid (by decide), cut_cons_of_margin solid (by decide)]
          exact others
      · rw [beq_false_of_ne lineFeed]
        exact (inLine (some c)).cons gist_cons previous
    · rw [stripMargin, Bool.true_and]
      split
      case isTrue margin =>
        rw [cut_cons_of_margin solid margin, scrub_cons_of_margin margin]
        exact ⟨first, others⟩
      case isFalse ink =>
        have sameLine : c ≠ '\n' := by
          rintro rfl
          exact ink (by decide)
        rw [beq_false_of_ne sameLine]
        have alike := (inLine (some c)).cons gist_cons none
        exact ⟨(Prod.mk.inj alike.first).2, alike.others⟩

/-- Text without a marker in front changes only the part before all marks. -/
theorem others_cut_append {marker : Char} {front : List Char} (absent : marker ∉ front)
    (noEscape : '\\' ∉ front) (text : List Char) :
    (cut marker none (front ++ text)).2 = (cut marker none text).2 := by
  have unmarked : marks marker front = [] := List.filter_eq_nil_iff.2 fun i _ mark =>
    absent (List.mem_of_getElem? (decide_eq_true_iff.1 mark).1)
  have last : front.getLast?.or none ≠ some '\\' := by
    rw [Option.or_none]
    exact fun escape => noEscape (List.mem_of_getLast? escape)
  have noneBefore : (none : Option Char) ≠ some '\\' := nofun
  rw [cut_append_of_unmarked unmarked, cut_congr (iff_of_false last noneBefore)]

theorem exists_append_dropOpener (text : List Char) :
    ∃ opener, (opener = [] ∨ opener = ['/', '*', '*']) ∧ opener ++ dropOpener text = text := by
  unfold dropOpener
  split
  · exact ⟨['/', '*', '*'], .inr rfl, rfl⟩
  · exact ⟨[], .inl rfl, rfl⟩

/-- A marker that a configuration accepts belongs to no frame. -/
theorem frame_free_of_isMarker {marker : Char} (accepted : Config.isMarker marker = true) :
    isMargin marker = false ∧ Text.isBlank marker = false ∧ marker ∉ ['/', '*', '*'] := by
  obtain ⟨solid, free⟩ : Text.isBlank marker = false ∧ marker ∉ Config.reserved := by
    simpa [Config.isMarker] using accepted
  have notStar : marker ≠ '*' := fun star => free (star ▸ by decide)
  refine ⟨by simp [isMargin, solid, notStar], solid, fun member => free ?_⟩
  exact (by decide : ['/', '*', '*'] ⊆ Config.reserved) member

/-- Taking off the frame of a body keeps the gist of all parts after a mark. -/
theorem gist_cut_bare {marker : Char} (accepted : Config.isMarker marker = true)
    {body : List Char} (unclosed : Unclosed body) :
    (cut marker none (bare body)).2.map gist = (cut marker none body).2.map gist := by
  obtain ⟨notMargin, solid, noDelimiter⟩ := frame_free_of_isMarker accepted
  have notIn {blanks : List Char} (blank : ∀ c ∈ blanks, Text.isBlank c = true) {c : Char}
      (ink : Text.isBlank c = false) : c ∉ blanks := by
    intro member
    rw [blank c member] at ink
    cases ink
  obtain ⟨front, frontBlank, wholeBody⟩ := Text.exists_append_trimStart body
  obtain ⟨back, backBlank, wholeStart⟩ := Text.exists_trimEnd_append (Text.trimStart body)
  obtain ⟨opener, isOpener, wholeTrim⟩ := exists_append_dropOpener (Text.trim body)
  have noMarker : marker ∉ opener := by
    rcases isOpener with rfl | rfl
    · exact List.not_mem_nil
    · exact noDelimiter
  have noEscape : '\\' ∉ opener := by
    rcases isOpener with rfl | rfl <;> decide
  let content := dropOpener (Text.trim body)
  have inside : content <:+: body :=
    (isSuffix_dropOpener _).isInfix.trans (Text.isInfix_trim body)
  have noCloser : ¬ ['*', '/'] <:+ content := fun closer => unclosed.within inside closer.isInfix
  have framed : bare body = stripMargin true content :=
    congrArg (stripMargin true) (dropCloser_eq_self noCloser)
  calc (cut marker none (bare body)).2.map gist
      = (cut marker none content).2.map gist := by
        rw [framed]
        exact (gist_cut_stripMargin notMargin content).2.2
    _ = (cut marker none (Text.trim body)).2.map gist := by
        rw [← wholeTrim, others_cut_append noMarker noEscape]
    _ = (cut marker none (Text.trimStart body)).2.map gist := by
        have alike : Alike marker gist none (Text.trim body ++ back) (Text.trim body) :=
          alike_append (notIn backBlank solid) gist_cons (gist_of_blank backBlank) none _
        rw [← alike.others, Text.trim, wholeStart]
    _ = (cut marker none body).2.map gist := by
        have absent := notIn frontBlank solid
        have unescaped : '\\' ∉ front := notIn frontBlank (by decide)
        rw [← others_cut_append absent unescaped, wholeBody]

/-! ## From parts to tags -/

/-- What the parts after the markers say: the names, and the values but for blanks and stars. -/
def reading (parts : List (List Char)) : List (List Char × List Char) :=
  (parts.filter fun part => Text.word part ≠ []).map fun part =>
    (Text.word part, scrub (Text.afterWord part))

theorem scrub_afterWord (part : List Char) :
    scrub (Text.afterWord part) = (scrub part).drop (scrub (Text.word part)).length := by
  have whole : scrub part = scrub (Text.word part) ++ scrub (Text.afterWord part) := by
    rw [← scrub_append, Text.word_append_afterWord]
  rw [whole, List.drop_left]

/-- The gist of the parts is all that they say. -/
theorem reading_congr {first second : List (List Char)} (same : first.map gist = second.map gist) :
    reading first = reading second := by
  have ofGists (parts : List (List Char)) : reading parts =
      ((parts.map gist).filter fun kept => kept.1 ≠ []).map fun kept =>
        (kept.1, kept.2.drop (scrub kept.1).length) := by
    rw [reading, List.filter_map, List.map_map]
    exact List.map_congr_left fun part _ => by rw [scrub_afterWord]; rfl
  rw [ofGists, ofGists, same]

theorem reading_eq_map_tags (parts : List (List Char)) :
    (parts.filterMap tag?).map (fun tag => (tag.1.toList, scrub tag.2.toList)) =
      reading parts := by
  induction parts with
  | nil => rfl
  | cons part rest ih =>
    rw [List.filterMap_cons, tag?_eq, reading, List.filter_cons]
    by_cases none : Text.word part = []
    · simpa [none, reading] using ih
    · simpa [none, reading] using ih

/-! ## The body as it stands -/

/-- A name starts at a position: a character stands there that is neither blank nor a mark. -/
def startsName (marker : Char) (body : List Char) (i : Nat) : Bool :=
  body[i]?.any fun c => !(Text.isBlank c || isMark marker body i)

/-- The marks of a body that a name follows directly, in order. -/
def tagMarks (marker : Char) (body : List Char) : List Nat :=
  (marks marker body).filter fun i => startsName marker body (i + 1)

/-- The name after a mark: what follows up to a blank, the next mark or the end. -/
def nameAfter (marker : Char) (body : List Char) (i : Nat) : List Char :=
  upTo (fun c j => Text.isBlank c || isMark marker body j) body (i + 1)

/-- What follows the name after a mark, up to the next mark or the end. -/
def restAfter (marker : Char) (body : List Char) (i : Nat) : List Char :=
  (upToMark marker body (i + 1)).drop (nameAfter marker body i).length

variable (marker : Char) (body : List Char) (i : Nat)

theorem nameAfter_eq_word : nameAfter marker body i = Text.word (upToMark marker body (i + 1)) :=
  upTo_or Text.isBlank _ body (i + 1)

theorem restAfter_eq_afterWord :
    restAfter marker body i = Text.afterWord (upToMark marker body (i + 1)) := by
  rw [restAfter, nameAfter_eq_word]
  generalize upToMark marker body (i + 1) = part
  calc part.drop (Text.word part).length
      = (Text.word part ++ Text.afterWord part).drop (Text.word part).length := by
        rw [Text.word_append_afterWord]
    _ = Text.afterWord part := List.drop_left

theorem startsName_iff : startsName marker body (i + 1) = true ↔ nameAfter marker body i ≠ [] := by
  unfold nameAfter startsName
  by_cases inside : i + 1 < body.length
  · rw [upTo_of_lt _ inside, List.getElem?_eq_getElem inside, Option.any_some]
    split
    case isTrue stops => simp [stops]
    case isFalse goesOn => simp [goesOn]
  · have beyond : body.length ≤ i + 1 := Nat.le_of_not_lt inside
    rw [upTo_of_le _ beyond, List.getElem?_eq_none beyond]
    simp

/-- What the parts of a body say, read off its marks. -/
theorem reading_cut :
    reading (cut marker none body).2 =
      (tagMarks marker body).map fun i => (nameAfter marker body i, scrub (restAfter marker body i)) := by
  rw [cut_eq, reading, List.filter_map, List.map_map, tagMarks]
  have named : ∀ i ∈ marks marker body,
      (decide (Text.word (upToMark marker body (i + 1)) ≠ [])) = startsName marker body (i + 1) := by
    intro i _
    rw [← nameAfter_eq_word, Bool.eq_iff_iff, decide_eq_true_iff, startsName_iff]
  rw [← List.filter_congr named]
  refine List.map_congr_left fun i _ => ?_
  rw [nameAfter_eq_word, restAfter_eq_afterWord]
  rfl

/-- The tags of a body that holds no closer, as the bodies of a source text do. One tag stands for
each mark of the body as it is that a name follows directly, in the order of the marks. Its name is
what follows the mark up to a blank, the next mark or the end, and its value is what then follows up
to the next mark or the end, but for blanks and stars. -/
theorem tags_of_body {config : Config} (accepted : config.validate = .ok config)
    {body : List Char} (unclosed : ¬ ['*', '/'] <:+: body) :
    (parse config.marker body).tags.map (fun tag => (tag.1.toList, scrub tag.2.toList)) =
      (tagMarks config.marker body).map fun i =>
        (nameAfter config.marker body i, scrub (restAfter config.marker body i)) := by
  have isMarker : Config.isMarker config.marker = true := by
    unfold Config.validate at accepted
    split at accepted
    case isTrue yes => exact yes
    case isFalse => cases accepted
  calc (parse config.marker body).tags.map (fun tag => (tag.1.toList, scrub tag.2.toList))
      = reading (cut config.marker none (bare body)).2 := reading_eq_map_tags _
    _ = reading (cut config.marker none body).2 := reading_congr (gist_cut_bare isMarker unclosed)
    _ = _ := reading_cut config.marker body

/-- An escaped marker counts neither before a name nor in it, a marker before a blank or a marker
starts no tag, and only margin is missing in the value that goes on in the next line. -/
theorem tags_of_body_framed :
    let body := " \\@x\n * @a\\@b v\n * *w @ @@c*".toList
    ({} : Config).validate = .ok {} ∧ (¬ ['*', '/'] <:+: body) ∧ tagMarks '@' body = [8, 25] ∧
      (parse '@' body).tags.map (fun tag => (tag.1.toList, scrub tag.2.toList)) =
        [(['a', '\\', '@', 'b'], ['v', 'w']), (['c', '*'], [])] := by
  intro body
  have spelled : body =
      [' ', '\\', '@', 'x', '\n', ' ', '*', ' ', '@', 'a', '\\', '@', 'b', ' ', 'v', '\n', ' ', '*',
        ' ', '*', 'w', ' ', '@', ' ', '@', '@', 'c', '*'] := by decide
  have accepted : ({} : Config).validate = .ok {} := by rfl
  have unclosed : ¬ ['*', '/'] <:+: body := by
    rw [spelled]
    decide
  refine ⟨accepted, unclosed, ?_, (tags_of_body accepted unclosed).trans ?_⟩
  · rw [spelled]
    decide
  · rw [spelled]
    decide

end DocCatalog.Comment
