import DocCatalog.Comment
import DocCatalog.Proofs.Source.Closer
import DocCatalog.Proofs.Text.Blank

/-!
# What a tag can be called

A comment body loses its frame and is cut at the markers before a tag name is read from it. Taking
the frame off brings no star next to a slash that it did not stand next to before, and cutting
brings nothing together at all. So the name of a tag is a word that stands in the body as it is, and
in the body of a doc comment that word holds no closer.

Results:
1. `unclosed_bare`: the text without its frame has no closer that the body does not have.
2. `trimmed_name`: a tag name has no blanks around it.
3. `unclosed_name`: in the body of a doc comment a tag name has no closer either.
4. `Tag.ofName_eq_iff`: only its own spelling makes a text one of the fixed tags.
-/

namespace DocCatalog.Comment

open Source (Unclosed unclosed_cons unclosed_nil)

/-! ## The frame -/

theorem isSuffix_dropOpener (text : List Char) : dropOpener text <:+ text := by
  unfold dropOpener
  split
  · exact ⟨['/', '*', '*'], rfl⟩
  · exact List.suffix_refl _

theorem isPrefix_dropCloser (text : List Char) : dropCloser text <+: text := by
  unfold dropCloser
  split
  case h_1 rest reversed =>
    have suffix : rest <:+ text.reverse := ⟨['/', '*'], reversed.symm⟩
    simpa using List.reverse_prefix.2 suffix
  case h_2 => exact List.prefix_refl _

theorem dropOpener_eq_self {text : List Char} (noOpener : ¬ ['/', '*', '*'] <+: text) :
    dropOpener text = text := by
  unfold dropOpener
  split
  case h_1 rest => exact absurd ⟨rest, rfl⟩ noOpener
  case h_2 => rfl

theorem dropCloser_eq_self {text : List Char} (noCloser : ¬ ['*', '/'] <:+ text) :
    dropCloser text = text := by
  unfold dropCloser
  split
  case h_1 rest reversed =>
    have closed : text = rest.reverse ++ ['*', '/'] := by
      rw [← List.reverse_reverse text, reversed]
      simp
    exact absurd ⟨rest.reverse, closed.symm⟩ noCloser
  case h_2 => rfl

theorem head_stripMargin_false (text : List Char) :
    (stripMargin false text).head? = text.head? := by
  cases text with
  | nil => rfl
  | cons c rest => simp [stripMargin]

/-- What the margin held is gone, but the characters on its two sides do not meet: the one before is
a line feed. -/
theorem unclosed_stripMargin {text : List Char} (unclosed : Unclosed text) (atStart : Bool) :
    Unclosed (stripMargin atStart text) := by
  induction text generalizing atStart with
  | nil => exact unclosed_nil
  | cons c rest ih =>
    obtain ⟨apart, restUnclosed⟩ := unclosed_cons.1 unclosed
    rw [stripMargin]
    split
    · exact ih restUnclosed true
    · -- After a star the margin is over, so the next character is the next one of the text.
      refine unclosed_cons.2 ⟨fun star => ?_, ih restUnclosed _⟩
      have sameLine : (c == '\n') = false := by simp [star]
      rw [sameLine, head_stripMargin_false]
      exact apart star

theorem unclosed_bare {body : List Char} (unclosed : Unclosed body) : Unclosed (bare body) := by
  have inside : dropCloser (dropOpener (Text.trim body)) <:+: body :=
    (isPrefix_dropCloser _).isInfix.trans
      ((isSuffix_dropOpener _).isInfix.trans (Text.isInfix_trim body))
  exact unclosed_stripMargin (unclosed.within inside) true

/-! ## The cut -/

theorem cut_cons (marker : Char) (previous : Option Char) (c : Char) (rest : List Char) :
    cut marker previous (c :: rest) =
      if c = marker ∧ previous ≠ some '\\' then
        ([], (cut marker (some c) rest).1 :: (cut marker (some c) rest).2)
      else (c :: (cut marker (some c) rest).1, (cut marker (some c) rest).2) := rfl

theorem isPrefix_cut (marker : Char) (previous : Option Char) (text : List Char) :
    (cut marker previous text).1 <+: text := by
  induction text generalizing previous with
  | nil => exact List.prefix_refl _
  | cons c rest ih =>
    rw [cut_cons]
    split
    · exact List.nil_prefix
    · exact List.cons_prefix_cons.2 ⟨rfl, ih _⟩

theorem isInfix_of_mem_cut {marker : Char} {previous : Option Char} {text part : List Char}
    (member : part ∈ (cut marker previous text).2) : part <:+: text := by
  induction text generalizing previous with
  | nil => simp [cut] at member
  | cons c rest ih =>
    have grown : rest <:+: c :: rest := (List.suffix_cons c rest).isInfix
    rw [cut_cons] at member
    split at member
    · rcases List.mem_cons.1 member with rfl | later
      · exact (isPrefix_cut marker _ rest).isInfix.trans grown
      · exact (ih later).trans grown
    · exact (ih member).trans grown

theorem name_of_tag? {part : List Char} {tag : String × String} (found : tag? part = some tag) :
    tag.1.toList = Text.word part := by
  unfold tag? at found
  split at found
  · simp at found
  case h_2 c rest word =>
    simp only [Option.some.injEq] at found
    simp [← found, word]

/-- The name of a tag is the word that starts a part of the bare text. -/
theorem exists_part_of_mem_tags {marker : Char} {body : List Char} {tag : String × String}
    (member : tag ∈ (parse marker body).tags) :
    ∃ part, part <:+: bare body ∧ tag.1.toList = Text.word part := by
  obtain ⟨part, inCut, found⟩ := List.mem_filterMap.1 member
  exact ⟨part, isInfix_of_mem_cut inCut, name_of_tag? found⟩

/-! ## The name -/

theorem trimmed_name {marker : Char} {body : List Char} {tag : String × String}
    (member : tag ∈ (parse marker body).tags) : Text.trimmed tag.1 = tag.1 := by
  obtain ⟨part, -, name⟩ := exists_part_of_mem_tags member
  have solid : ∀ c ∈ tag.1.toList, Text.isBlank c = false :=
    fun c inName => Text.not_blank_of_mem_word (name ▸ inName)
  rw [Text.trimmed, Text.trim_eq_self solid, String.ofList_toList]

theorem unclosed_name {marker : Char} {body : List Char} (unclosed : Unclosed body)
    {tag : String × String} (member : tag ∈ (parse marker body).tags) :
    Unclosed tag.1.toList := by
  obtain ⟨part, inside, name⟩ := exists_part_of_mem_tags member
  rw [name]
  exact (unclosed_bare unclosed).within ((Text.isPrefix_word part).isInfix.trans inside)

end DocCatalog.Comment

namespace DocCatalog

/-! ## The delimiters as tags -/

theorem Tag.ofName_eq_iff {written : String} {tag : Tag} (own : Tag.ofName tag.text = tag) :
    Tag.ofName written = tag ↔ written = tag.text := by
  constructor
  · intro equal
    rw [← Tag.text_ofName written, equal]
  · rintro rfl
    exact own

end DocCatalog
