import DocCatalog.Comment
import DocCatalog.Proofs.Source.Closed
import DocCatalog.Proofs.Source.Closer

/-!
# Literals and comments keep their contents to themselves

Between a text that ends in plain code and any other text, a string literal or a line comment adds
nothing, and a doc comment adds exactly itself. What stands inside may look like every other
construct: openers and closers in a literal, quotes in a comment, stars before the closer.

What is asked of the content is only that it does not end the construct too early: every quote in a
literal is escaped, a line comment has no line feed, a doc comment has no closer. The text before
must not end with a slash, because a slash would combine with the delimiter after it.

Results:
1. `afterString_sealed`, `afterLine_append`, `splitBody_append`: the scanner leaves a construct
   exactly behind its end.
2. `read_string_of_fresh`, `read_line_of_fresh`, `read_doc_of_fresh`: after plain code a delimiter
   starts its construct.
3. `constructs_opaque`: the comments of the whole text.
-/

namespace DocCatalog.Source

/-! ## Contents -/

/-- What a literal can hold: every quote has a backslash directly before it, and the quote after the
content has none. -/
structure Sealed (quote : Char) (content : List Char) : Prop where
  escaped : ∀ i < content.length,
    content[i]? = some quote → 0 < i ∧ content[i - 1]? = some '\\'
  last : content.getLast? ≠ some '\\'

/-- A literal ends at the quote after its content. `previous` stands before the content, so that the
quotes of a content that was entered in the middle are escaped by it as well. -/
theorem afterString_content {quote previous : Char} {content : List Char}
    (escaped : ∀ i < content.length,
      content[i]? = some quote → (previous :: content)[i]? = some '\\')
    (last : (previous :: content).getLast? ≠ some '\\') (rest : List Char) :
    afterString quote previous (content ++ quote :: rest) = rest := by
  induction content generalizing previous with
  | nil =>
    have notEscaped : previous ≠ '\\' := by simpa using last
    simp [afterString, notEscaped]
  | cons c tail ih =>
    have stays : ¬ (c = quote ∧ previous ≠ '\\') := by
      rintro ⟨rfl, notEscaped⟩
      have first := escaped 0 (by simp) (by simp)
      exact notEscaped (by simpa using first)
    rw [List.cons_append, afterString, if_neg stays]
    apply ih
    · intro i inside found
      simpa using escaped (i + 1) (by simpa using inside) (by simpa using found)
    · simpa using last

theorem afterString_sealed {quote : Char} {content : List Char} (isSealed : Sealed quote content)
    (notBackslash : quote ≠ '\\') (rest : List Char) :
    afterString quote quote (content ++ quote :: rest) = rest := by
  apply afterString_content
  · intro i inside found
    obtain ⟨positive, before⟩ := isSealed.escaped i inside found
    obtain ⟨j, rfl⟩ := Nat.exists_eq_add_of_lt positive
    simpa using before
  · rw [List.getLast?_cons]
    cases ending : content.getLast? with
    | none => simpa using notBackslash
    | some c =>
      have differs := isSealed.last
      rw [ending] at differs
      simpa using differs

theorem afterLine_append {content : List Char} (oneLine : '\n' ∉ content) (rest : List Char) :
    afterLine (content ++ '\n' :: rest) = rest := by
  induction content with
  | nil => rfl
  | cons c tail ih =>
    have first : c ≠ '\n' := fun feed => oneLine (feed ▸ List.mem_cons_self)
    have others : '\n' ∉ tail := fun inTail => oneLine (List.mem_cons_of_mem c inTail)
    rw [List.cons_append, afterLine, if_neg first, ih others]

theorem splitAtClose?_append {content : List Char} (unclosed : Unclosed content)
    (rest : List Char) :
    splitAtClose? (content ++ '*' :: '/' :: rest) = some (content, rest) := by
  induction content with
  | nil => rfl
  | cons c tail ih =>
    obtain ⟨apart, inside⟩ := unclosed_cons.1 unclosed
    -- The closer begins with a star, so no star of the content can close with it.
    have noCloser : ∀ after, c = '*' → tail ++ '*' :: '/' :: rest ≠ '/' :: after := by
      intro after star equal
      cases tail with
      | nil => simp at equal
      | cons d more =>
        have slash : d = '/' := (List.cons.inj equal).1
        exact apart star (by rw [slash]; rfl)
    rw [List.cons_append, splitAtClose?, ih inside]
    · rfl
    · exact noCloser

theorem splitBody_append {content : List Char} (unclosed : Unclosed content)
    (first : content.head? ≠ some '/') (rest : List Char) :
    splitBody (content ++ '*' :: '/' :: rest) = (content, rest) := by
  unfold splitBody
  split
  case h_1 after equal =>
    cases content with
    | nil => simp at equal
    | cons c tail =>
      have slash : c = '/' := (List.cons.inj equal).1
      exact absurd (by rw [slash]; rfl) first
  case h_2 => rw [splitAtClose?_append unclosed, Option.getD_some]

/-! ## Plain code -/

namespace Mode

/-- Whether a mode is code. A slash or a `/*` that opened nothing is code. -/
def isPlain : Mode → Bool
  | code | slash | slashStar => true
  | string _ _ | line | doc _ => false

/-- Whether a mode is code in which the next character starts afresh. -/
def isFresh : Mode → Bool
  | code | slashStar => true
  | slash | string _ _ | line | doc _ => false

theorem isClosed_of_isPlain {mode : Mode} (plain : mode.isPlain = true) :
    mode.isClosed = true := by
  cases mode with
  | code | slash | slashStar => rfl
  | string quote previous | line | doc held => simp [isPlain] at plain

theorem eq_slash_of_next {mode : Mode} {c : Char} (next : mode.next c = slash) : c = '/' := by
  have ofCode (found : afterCode c = slash) : c = '/' := by
    unfold afterCode at found
    split at found
    · cases found
    · split at found
      case isTrue equal => exact equal
      case isFalse => cases found
  cases mode with
  | code => exact ofCode next
  | slash =>
    simp only [Mode.next] at next
    split at next
    · cases next
    · split at next
      · cases next
      · exact ofCode next
  | slashStar =>
    simp only [Mode.next] at next
    split at next
    · cases next
    · exact ofCode next
  | string quote previous | line | doc held =>
    simp only [Mode.next] at next
    split at next <;> cases next

end Mode

theorem getLast?_of_endMode_slash {text : List Char} (ending : endMode text = .slash) :
    text.getLast? = some '/' := by
  rcases List.eq_nil_or_concat text with rfl | ⟨front, c, rfl⟩
  · cases ending
  · rw [List.concat_eq_append] at ending ⊢
    have next : (endMode front).next c = .slash := by
      rw [← ending, endMode, endMode, List.foldl_append]
      rfl
    rw [Mode.eq_slash_of_next next]
    simp

theorem isFresh_endMode {text : List Char} (plain : (endMode text).isPlain = true)
    (apart : text.getLast? ≠ some '/') : (endMode text).isFresh = true := by
  cases ending : endMode text with
  | code | slashStar => rfl
  | slash => exact absurd (getLast?_of_endMode_slash ending) apart
  | string quote previous | line | doc held => simp [ending, Mode.isPlain] at plain

/-! ## Delimiters after plain code -/

section Fresh

variable {mode : Mode}

theorem read_string_of_fresh (fresh : mode.isFresh = true) {quote : Char}
    (isQuote : quote = '\x27' ∨ quote = '\x22') (text : List Char) :
    read mode (quote :: text) = read (.string quote quote) text := by
  have notStar : quote ≠ '*' := by rintro rfl; simp at isQuote
  cases mode with
  | code => simp [read, Mode.next, Mode.ended?, Mode.afterCode, isQuote]
  | slashStar => simp [read, Mode.next, Mode.ended?, Mode.afterCode, isQuote, notStar]
  | slash | string quote previous | line | doc held => simp [Mode.isFresh] at fresh

theorem read_slash_of_fresh (fresh : mode.isFresh = true) (text : List Char) :
    read mode ('/' :: text) = read .slash text := by
  cases mode with
  | code | slashStar => simp [read, Mode.next, Mode.ended?, Mode.afterCode]
  | slash | string quote previous | line | doc held => simp [Mode.isFresh] at fresh

theorem read_line_of_fresh (fresh : mode.isFresh = true) (text : List Char) :
    read mode ('/' :: '/' :: text) = read .line text := by
  rw [read_slash_of_fresh fresh]
  simp [read, Mode.next, Mode.ended?]

theorem read_doc_of_fresh (fresh : mode.isFresh = true) (text : List Char) :
    read mode ('/' :: '*' :: '*' :: text) = read (.doc []) text := by
  rw [read_slash_of_fresh fresh]
  simp [read, Mode.next, Mode.ended?]

end Fresh

/-! ## The whole text -/

/-- After plain code nothing is left open, so the bodies found so far are those of the text. -/
theorem bodies_append_of_isPlain {before : List Char} (plain : (endMode before).isPlain = true)
    (rest : List Char) :
    bodies (before ++ rest) = bodies before ++ read (endMode before) rest := by
  have nothingOpen := Mode.cutOff?_eq_none (Mode.isClosed_of_isPlain plain)
  rw [bodies_append, bodies_eq_endedIn before, nothingOpen]
  simp

section Constructs

variable {before : List Char} (plain : (endMode before).isPlain = true)
  (apart : before.getLast? ≠ some '/')

include plain apart

theorem bodies_append_string {quote : Char} (isQuote : quote = '\x27' ∨ quote = '\x22')
    {content : List Char} (isSealed : Sealed quote content) (after : List Char) :
    bodies (before ++ quote :: (content ++ quote :: after)) = bodies before ++ bodies after := by
  have notBackslash : quote ≠ '\\' := by rintro rfl; simp at isQuote
  rw [bodies_append_of_isPlain plain, read_string_of_fresh (isFresh_endMode plain apart) isQuote,
    read_string, afterString_sealed isSealed notBackslash, bodies_eq_read after]

theorem bodies_append_line {content : List Char} (oneLine : '\n' ∉ content) (after : List Char) :
    bodies (before ++ '/' :: '/' :: (content ++ '\n' :: after)) =
      bodies before ++ bodies after := by
  rw [bodies_append_of_isPlain plain, read_line_of_fresh (isFresh_endMode plain apart), read_line,
    afterLine_append oneLine, bodies_eq_read after]

theorem bodies_append_doc {content : List Char} (unclosed : Unclosed content)
    (first : content.head? ≠ some '/') (after : List Char) :
    bodies (before ++ '/' :: '*' :: '*' :: (content ++ '*' :: '/' :: after)) =
      bodies before ++ content :: bodies after := by
  rw [bodies_append_of_isPlain plain, read_doc_of_fresh (isFresh_endMode plain apart), read_doc,
    splitBody_append unclosed first, bodies_eq_read after]

end Constructs

/-- Between a text that ends in plain code, and not with a slash, and any other text, a string
literal and a line comment add no comment, whatever they hold, and a doc comment adds the comment of
its content. The comments of the two texts are those that they have alone. -/
theorem constructs_opaque (marker : Char) {before : String}
    (plain : (endMode before.toList).isPlain = true)
    (apart : before.toList.getLast? ≠ some '/') (after : String) :
    (∀ (quote : Char) (content : String), quote = '\x27' ∨ quote = '\x22' →
      Sealed quote content.toList →
      comments marker
          (before ++ String.singleton quote ++ content ++ String.singleton quote ++ after) =
        comments marker before ++ comments marker after) ∧
    (∀ content : String, '\n' ∉ content.toList →
      comments marker (before ++ "//" ++ content ++ "\n" ++ after) =
        comments marker before ++ comments marker after) ∧
    (∀ content : String, Unclosed content.toList → content.toList.head? ≠ some '/' →
      comments marker (before ++ "/**" ++ content ++ "*/" ++ after) =
        comments marker before ++
          Comment.parse marker content.toList :: comments marker after) := by
  refine ⟨fun quote content isQuote isSealed => ?_, fun content oneLine => ?_,
    fun content unclosed first => ?_⟩
  · have whole : (before ++ String.singleton quote ++ content ++ String.singleton quote ++
        after).toList = before.toList ++ quote :: (content.toList ++ quote :: after.toList) := by
      simp
    rw [comments, whole, bodies_append_string plain apart isQuote isSealed, List.map_append]
    rfl
  · have whole : (before ++ "//" ++ content ++ "\n" ++ after).toList =
        before.toList ++ '/' :: '/' :: (content.toList ++ '\n' :: after.toList) := by
      simp
    rw [comments, whole, bodies_append_line plain apart oneLine, List.map_append]
    rfl
  · have whole : (before ++ "/**" ++ content ++ "*/" ++ after).toList =
        before.toList ++ '/' :: '*' :: '*' :: (content.toList ++ '*' :: '/' :: after.toList) := by
      simp
    rw [comments, whole, bodies_append_doc plain apart unclosed first, List.map_append]
    rfl

/-- A text before that ends with `/*`, a text after that begins with a slash, and contents that look
like every other construct. -/
theorem constructs_opaque_at_imitations :
    let before := "x /*"
    let after := "/ /** @name b */"
    let literal := "// /** ' \\\" */ "
    let line := "/** \" ' */ /*"
    let doc := " @name a ' \" // /** *"
    (endMode before.toList).isPlain = true ∧ before.toList.getLast? ≠ some '/' ∧
      Sealed '\x22' literal.toList ∧ '\n' ∉ line.toList ∧ Unclosed doc.toList ∧
      doc.toList.head? ≠ some '/' ∧
      comments '@'
          (before ++ String.singleton '\x22' ++ literal ++ String.singleton '\x22' ++ after) =
        [⟨"", [("name", " b")]⟩] ∧
      comments '@' (before ++ "//" ++ line ++ "\n" ++ after) = [⟨"", [("name", " b")]⟩] ∧
      comments '@' (before ++ "/**" ++ doc ++ "*/" ++ after) =
        [⟨"", [("name", " a ' \" // /** *")]⟩, ⟨"", [("name", " b")]⟩] := by
  intro before after literal line doc
  have plain : (endMode before.toList).isPlain = true := by decide
  have apart : before.toList.getLast? ≠ some '/' := by decide
  have isSealed : Sealed '\x22' literal.toList := ⟨by decide, by decide⟩
  have oneLine : '\n' ∉ line.toList := by decide
  have unclosed : Unclosed doc.toList := by simp [doc, unclosed_cons, unclosed_nil]
  have first : doc.toList.head? ≠ some '/' := by decide
  obtain ⟨ofLiteral, ofLine, ofDoc⟩ := constructs_opaque '@' plain apart after
  have alone : comments '@' before = [] := by
    rw [comments, bodies_eq_read]
    decide
  have behind : comments '@' after = [⟨"", [("name", " b")]⟩] := by
    rw [comments, bodies_eq_read]
    decide
  refine ⟨plain, apart, isSealed, oneLine, unclosed, first, ?_, ?_, ?_⟩
  · rw [ofLiteral _ _ (Or.inr rfl) isSealed, alone, behind, List.nil_append]
  · rw [ofLine line oneLine, alone, behind, List.nil_append]
  · rw [ofDoc doc unclosed first, alone, behind]
    decide

end DocCatalog.Source
