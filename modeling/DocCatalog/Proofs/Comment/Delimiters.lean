import Mathlib.Data.List.Basic
import DocCatalog.Proofs.Comment.Margin
import DocCatalog.Proofs.Comment.RawTags

/-!
# A comment body in its delimiters

The frame that is taken off a body may have a `/**` and a `*/` in it, and a body says the same with
and without them. The two texts are not trimmed at the same place: inside the delimiters the blanks
at the ends of the body are left. In front they belong to the margin, and at the end they go to the
last part of the text, where they neither lengthen a name nor show in a trimmed value. For this no
more is needed of the marker than that it is not blank.

Results:
1. `bare_delimited`: inside its delimiters nothing of the body is lost but the margin.
2. `tagEvent?_append`: blanks at the end of a part do not show in its event.
3. `events_ofBare_append`: so they do not show in the events of a text.
4. `events_delimited`: what a body in its delimiters says.
5. `delimiters_optional`: it is what the body itself says, when that has no delimiter of its own.
-/

namespace DocCatalog

/-! ## Blanks at the end -/

namespace Text

theorem trimEnd_append {blanks : List Char} (blank : ∀ c ∈ blanks, isBlank c = true)
    (text : List Char) : trimEnd (text ++ blanks) = trimEnd text := by
  have dropped : (blanks.reverse ++ text.reverse).dropWhile isBlank =
      text.reverse.dropWhile isBlank :=
    List.dropWhile_append_of_pos fun c member => blank c (List.mem_reverse.1 member)
  rw [trimEnd, List.reverse_append, dropped, trimEnd]

theorem trimEnd_cons_congr (c : Char) {first second : List Char}
    (same : trimEnd first = trimEnd second) : trimEnd (c :: first) = trimEnd (c :: second) := by
  have kept (text : List Char) : trimEnd (c :: text) = trimEnd (c :: trimEnd text) := by
    obtain ⟨blanks, blank, whole⟩ := exists_trimEnd_append text
    calc trimEnd (c :: text)
        = trimEnd ((c :: trimEnd text) ++ blanks) := by rw [List.cons_append, whole]
      _ = trimEnd (c :: trimEnd text) := trimEnd_append blank _
  rw [kept first, same, ← kept second]

theorem trim_append {blanks : List Char} (blank : ∀ c ∈ blanks, isBlank c = true)
    (text : List Char) : trim (text ++ blanks) = trim text := by
  induction text with
  | nil => exact trim_eq_nil_iff.2 (ink_eq_nil_iff.2 blank)
  | cons c rest ih =>
    by_cases first : isBlank c = true
    · rw [List.cons_append, trim_cons_of_blank first, trim_cons_of_blank first, ih]
    · have solid (text : List Char) : trimStart (c :: text) = c :: text :=
        List.dropWhile_cons_of_neg first
      rw [List.cons_append, trim, trim, solid, solid, ← List.cons_append, trimEnd_append blank]

/-- Blanks at the end of a text stand behind its first word. -/
theorem word_append_blanks {blanks : List Char} (blank : ∀ c ∈ blanks, isBlank c = true)
    (text : List Char) :
    word (text ++ blanks) = word text ∧ afterWord (text ++ blanks) = afterWord text ++ blanks := by
  have starts : ∀ c ∈ (afterWord text ++ blanks).head?, isBlank c = true := by
    intro c head
    rw [List.head?_append] at head
    cases first : (afterWord text).head? with
    | none =>
      rw [first] at head
      exact blank c (List.mem_of_mem_head? head)
    | some d =>
      rw [first] at head
      cases head
      exact blank_of_head?_afterWord first
  have whole : text ++ blanks = word text ++ (afterWord text ++ blanks) := by
    rw [← List.append_assoc, word_append_afterWord]
  rw [whole]
  exact ⟨word_append (fun _ => not_blank_of_mem_word) starts,
    afterWord_append (fun _ => not_blank_of_mem_word) starts⟩

end Text

namespace Comment

/-! ## The frame -/

/-- Margin in front of a text disappears, whatever it is. -/
theorem stripMargin_append_of_margin {front : List Char}
    (margin : ∀ c ∈ front, isMargin c = true) (rest : List Char) :
    stripMargin true (front ++ rest) = stripMargin true rest := by
  induction front with
  | nil => rfl
  | cons c front ih =>
    obtain ⟨first, others⟩ := List.forall_mem_cons.1 margin
    rw [List.cons_append, stripMargin_cons_of_margin first, ih others]

/-- A text is freed of its margin from front to back. -/
theorem exists_stripMargin_append (atStart : Bool) (text : List Char) :
    ∃ after, ∀ rest,
      stripMargin atStart (text ++ rest) = stripMargin atStart text ++ stripMargin after rest := by
  induction text generalizing atStart with
  | nil => exact ⟨atStart, fun rest => rfl⟩
  | cons c text ih =>
    by_cases here : (atStart && isMargin c) = true
    · obtain ⟨after, append⟩ := ih true
      refine ⟨after, fun rest => ?_⟩
      rw [List.cons_append, stripMargin, if_pos here, append, stripMargin, if_pos here]
    · obtain ⟨after, append⟩ := ih (c == '\n')
      refine ⟨after, fun rest => ?_⟩
      rw [List.cons_append, stripMargin, if_neg here, append, stripMargin, if_neg here,
        List.cons_append]

/-- Inside its delimiters a body keeps everything but its margin. -/
theorem bare_delimited (body : List Char) :
    bare ("/**".toList ++ body ++ "*/".toList) = stripMargin true body := by
  have spelled : "/**".toList ++ body ++ "*/".toList =
      '/' :: ('*' :: '*' :: body ++ ['*']) ++ ['/'] := by simp
  have tight : Text.Tight ('/' :: ('*' :: '*' :: body ++ ['*']) ++ ['/']) :=
    Text.tight_delimited (by decide) (by decide) _
  have closer : dropCloser (body ++ ['*', '/']) = body := by simp [dropCloser]
  rw [bare, spelled, tight.trim_eq]
  simp [dropOpener, closer]

/-! ## The events -/

/-- The event of the tag that a part after a marker holds. -/
def tagEvent? (part : List Char) : Option Event :=
  (tag? part).map fun tag => Event.ofRaw tag.1 tag.2

theorem events_ofBare (marker : Char) (text : List Char) :
    (ofBare marker text).events =
      Event.opening :: (cut marker none text).2.filterMap tagEvent? ++
        [Event.make .description (String.ofList (cut marker none text).1), Event.closing] := by
  have tags : (ofBare marker text).tagEvents = (cut marker none text).2.filterMap tagEvent? :=
    List.map_filterMap
  have description : (ofBare marker text).description =
      String.ofList (cut marker none text).1 := rfl
  rw [events, tags, description]

theorem trimmed_ofList_eq {first second : List Char} (same : Text.trim first = Text.trim second) :
    Text.trimmed (String.ofList first) = Text.trimmed (String.ofList second) := by
  rw [Text.trimmed, Text.trimmed, String.toList_ofList, String.toList_ofList, same]

theorem tagEvent?_append {blanks : List Char} (blank : ∀ c ∈ blanks, Text.isBlank c = true)
    (part : List Char) : tagEvent? (part ++ blanks) = tagEvent? part := by
  obtain ⟨word, after⟩ := Text.word_append_blanks blank part
  have value := trimmed_ofList_eq (Text.trim_append blank (Text.afterWord part))
  rw [tagEvent?, tagEvent?, tag?_eq, tag?_eq, word, after]
  by_cases none : Text.word part = []
  · rw [if_pos none, if_pos none]
  · simp only [if_neg none, Option.map_some, Event.ofRaw, Event.make, value]

/-- A part says what it says without the blanks at its end. -/
theorem tagEvent?_trimEnd (part : List Char) : tagEvent? (Text.trimEnd part) = tagEvent? part := by
  obtain ⟨blanks, blank, whole⟩ := Text.exists_trimEnd_append part
  rw [← tagEvent?_append blank, whole]

theorem trim_trimEnd (text : List Char) : Text.trim (Text.trimEnd text) = Text.trim text := by
  obtain ⟨blanks, blank, whole⟩ := Text.exists_trimEnd_append text
  rw [← Text.trim_append blank, whole]

/-- Blanks at the end of a text do not show in its events. -/
theorem events_ofBare_append {marker : Char} (solid : Text.isBlank marker = false)
    {blanks : List Char} (blank : ∀ c ∈ blanks, Text.isBlank c = true) (text : List Char) :
    (ofBare marker (text ++ blanks)).events = (ofBare marker text).events := by
  have absent : marker ∉ blanks := by
    intro member
    rw [blank marker member] at solid
    cases solid
  have unseen : Text.trimEnd blanks = Text.trimEnd [] := Text.trimEnd_append blank []
  obtain ⟨first, others⟩ : Alike marker Text.trimEnd none (text ++ blanks) text :=
    alike_append absent Text.trimEnd_cons_congr unseen none text
  have told (parts : List (List Char)) :
      parts.filterMap tagEvent? = (parts.map Text.trimEnd).filterMap tagEvent? := by
    rw [List.filterMap_map]
    exact List.filterMap_congr fun part _ => (tagEvent?_trimEnd part).symm
  have description : Text.trim (cut marker none (text ++ blanks)).1 =
      Text.trim (cut marker none text).1 := by
    rw [← trim_trimEnd, first, trim_trimEnd]
  rw [events_ofBare, events_ofBare, told, others, ← told, Event.make, Event.make,
    trimmed_ofList_eq description]

/-- A body in its delimiters says what is left of it without blanks around it. -/
theorem events_delimited {marker : Char} (solid : Text.isBlank marker = false)
    (body : List Char) :
    (parse marker ("/**".toList ++ body ++ "*/".toList)).events =
      (ofBare marker (stripMargin true (Text.trim body))).events := by
  obtain ⟨front, frontBlank, wholeBody⟩ := Text.exists_append_trimStart body
  obtain ⟨back, backBlank, wholeStart⟩ := Text.exists_trimEnd_append (Text.trimStart body)
  obtain ⟨after, append⟩ := exists_stripMargin_append true (Text.trim body)
  have frontMargin : ∀ c ∈ front, isMargin c = true := by
    intro c member
    simp [isMargin, frontBlank c member]
  have left : stripMargin true body =
      stripMargin true (Text.trim body) ++ stripMargin after back := by
    calc stripMargin true body
        = stripMargin true (front ++ (Text.trim body ++ back)) := by
          rw [Text.trim, wholeStart, wholeBody]
      _ = stripMargin true (Text.trim body ++ back) := stripMargin_append_of_margin frontMargin _
      _ = stripMargin true (Text.trim body) ++ stripMargin after back := append back
  have leftBlank : ∀ c ∈ stripMargin after back, Text.isBlank c = true :=
    fun c member => backBlank c ((stripMargin_sublist after back).subset member)
  rw [parse, bare_delimited, left, events_ofBare_append solid leftBlank]

/-- A body that neither begins with an opener nor ends with a closer, blanks aside, says the same
when it stands in its delimiters. -/
theorem delimiters_optional {config : Config} (accepted : config.validate = .ok config)
    {body : List Char} (noOpener : ¬ "/**".toList <+: Text.trim body)
    (noCloser : ¬ "*/".toList <:+ Text.trim body) :
    (parse config.marker ("/**".toList ++ body ++ "*/".toList)).events =
      (parse config.marker body).events := by
  have isMarker := Config.validate_eq_ok_iff.1 accepted
  obtain ⟨-, solid, -⟩ := frame_free_of_isMarker isMarker
  have bareBody : bare body = stripMargin true (Text.trim body) := by
    rw [bare, dropOpener_eq_self noOpener, dropCloser_eq_self noCloser]
  rw [events_delimited solid, parse, bareBody]

/-- The body begins and ends with stars and holds blanks at both ends, its last line is margin, and
its last tag has neither a value nor a blank behind it. -/
theorem delimiters_optional_starred :
    let body := " *\n * A \\@.\n *  @a /** v\n\n * @b\n **\n ".toList
    ({} : Config).validate = .ok {} ∧ (¬ "/**".toList <+: Text.trim body) ∧
      (¬ "*/".toList <:+ Text.trim body) ∧
      (parse '@' ("/**".toList ++ body ++ "*/".toList)).events = (parse '@' body).events ∧
      (parse '@' body).events =
        [Event.opening, ⟨.custom "a", "/** v"⟩, ⟨.custom "b", ""⟩, ⟨.description, "A \\@."⟩,
          Event.closing] := by
  intro body
  have accepted : ({} : Config).validate = .ok {} := by rfl
  have noOpener : ¬ "/**".toList <+: Text.trim body := by decide
  have noCloser : ¬ "*/".toList <:+ Text.trim body := by decide
  exact ⟨accepted, noOpener, noCloser, delimiters_optional accepted noOpener noCloser, by decide⟩

end Comment

end DocCatalog
